import BlockLexer.Proofs.FaultPlaces
import BlockLexer.Proofs.Numerals
import BlockLexer.Proofs.Reading

/-!
# The values of numerals

A numeral that a rule takes has a value, whatever its length.

* `Decimal.IsNumeral` is a numeral without underscores, and `Decimal.isSome_readDouble?` says
  that it is read as a double.  `Lexeme.isNumeral_of_float` and `Lexeme.isNumeral_of_imaginary`
  find it in what the rules take.
* `Scan.step_of_integer` is the step of a scan at an integer.
-/

namespace BlockLexer

open Text Pattern Lexeme

/-! ## Numerals without underscores -/

namespace Decimal

variable {cs digits : List Char}

/-- An exponent, or nothing. -/
inductive IsExponent : List Char → Prop
  | none : IsExponent []
  | some {e : Char} {sign digits : List Char} (he : (e = 'e' || e = 'E') = true)
      (hsign : sign = [] ∨ sign = ['-'] ∨ sign = ['+']) (hne : digits ≠ [])
      (hdigits : ∀ c ∈ digits, c.isDigit = true) : IsExponent (e :: (sign ++ digits))

/-- Digits, with a point among them or at an end of them or without one, and an exponent or
none. -/
inductive IsNumeral : List Char → Prop
  | whole {digits exponent : List Char} (hne : digits ≠ [])
      (hdigits : ∀ c ∈ digits, c.isDigit = true) (hexponent : IsExponent exponent) :
      IsNumeral (digits ++ exponent)
  | point {whole fraction exponent : List Char} (hne : whole ≠ [] ∨ fraction ≠ [])
      (hwhole : ∀ c ∈ whole, c.isDigit = true) (hfraction : ∀ c ∈ fraction, c.isDigit = true)
      (hexponent : IsExponent exponent) : IsNumeral (whole ++ '.' :: (fraction ++ exponent))

theorem isSome_readExponent? (h : IsExponent cs) : (readExponent? cs).isSome = true := by
  cases h with
  | none => rfl
  | @some e sign digits he hsign hne hdigits =>
    have hread : (digits.isEmpty || !digits.all Char.isDigit) = false := by
      rw [Bool.or_eq_false_iff, Bool.not_eq_false', List.all_eq_true]
      exact ⟨by simpa using hne, hdigits⟩
    rcases hsign with rfl | rfl | rfl
    · -- The digits themselves begin with no sign.
      obtain ⟨first, more, rfl⟩ := List.exists_cons_of_ne_nil hne
      have hfirst : first.isDigit = true := hdigits first List.mem_cons_self
      have hminus : first ≠ '-' := ne_of_class hfirst rfl
      have hplus : first ≠ '+' := ne_of_class hfirst rfl
      simp only [List.nil_append]
      unfold readExponent?
      simp only [he, if_true]
      split
      · next heq => exact absurd (List.cons.inj heq).1 hminus
      · next heq => exact absurd (List.cons.inj heq).1 hplus
      · simp only [hread, Bool.false_eq_true, if_false, Option.isSome_some]
    · simp only [readExponent?, List.singleton_append, he, if_true, hread]
      simp
    · simp only [readExponent?, List.singleton_append, he, if_true, hread]
      simp

/-- An exponent begins with its letter. -/
theorem IsExponent.stops {p : Char → Bool} (h : IsExponent cs) (hlow : p 'e' = false)
    (hhigh : p 'E' = false) : Stops p cs := by
  cases h with
  | none => exact stops_nil
  | some he _ _ _ =>
    rw [Bool.or_eq_true, decide_eq_true_eq, decide_eq_true_eq] at he
    rcases he with rfl | rfl
    · exact stops_cons hlow
    · exact stops_cons hhigh

theorem isSome_readNumeral? (h : IsNumeral cs) : (readNumeral? cs).isSome = true := by
  cases h with
  | @whole digits exponent hne hdigits hexponent =>
    obtain ⟨htake, hdrop⟩ := takeWhile_append hdigits (hexponent.stops rfl rfl)
    have hpoint : ∀ more, exponent ≠ '.' :: more := by
      rintro more rfl
      cases hexponent.stops (p := (· = '.')) rfl rfl '.' rfl
    simp only [readNumeral?, htake, hdrop]
    rw [if_neg (by simpa using hne), Option.isSome_map]
    exact isSome_readExponent? hexponent
  | @point whole fraction exponent hne hwhole hfraction hexponent =>
    have hpoint : Stops Char.isDigit ('.' :: (fraction ++ exponent)) := stops_cons rfl
    obtain ⟨htake, hdrop⟩ := takeWhile_append hwhole hpoint
    obtain ⟨htake', hdrop'⟩ := takeWhile_append hfraction (hexponent.stops rfl rfl)
    simp only [readNumeral?, htake, hdrop, htake', hdrop']
    rw [if_neg (by simpa [imp_iff_not_or] using hne), Option.isSome_map]
    exact isSome_readExponent? hexponent

/-- A numeral without underscores is read as a double. -/
theorem isSome_readDouble? (h : IsNumeral cs) : (readDouble? cs).isSome = true := by
  rw [readDouble?, Option.isSome_map]
  exact isSome_readNumeral? h

end Decimal

/-! ## Numerals with underscores -/

namespace Lexeme

variable {cs x left : List Char}

/-- A lexeme without its underscores. -/
def plain (x : List Char) : List Char := x.filter (· ≠ '_')

theorem plain_append (x y : List Char) : plain (x ++ y) = plain x ++ plain y :=
  List.filter_append x y

theorem plain_singleton {p : Char → Bool} {c : Char} (hc : p c = true) (hp : p '_' = false) :
    plain [c] = [c] := by
  have hne : c ≠ '_' := ne_of_class hc hp
  simp [plain, hne]

theorem isDigit_of_mem_moreDigits (cs : List Char) :
    ∀ c ∈ plain (moreDigits cs).1, c.isDigit = true := by
  fun_induction moreDigits cs <;> simp_all [plain]

/-- Digits remain digits, and at least one remains. -/
theorem plain_digits (h : digits cs = some (x, left)) :
    plain x ≠ [] ∧ ∀ c ∈ plain x, c.isDigit = true := by
  obtain ⟨first, more, between, hfirst, hmore, rfl⟩ := exists_of_seq_eq_some h
  obtain ⟨c, hc, rfl, -⟩ := exists_of_one_eq_some hfirst
  have htaken : (moreDigits between).1 = more := congrArg Prod.fst (Option.some.inj hmore)
  rw [plain_append, plain_singleton hc rfl, ← htaken]
  exact ⟨List.cons_ne_nil c _,
    List.forall_mem_cons.2 ⟨hc, isDigit_of_mem_moreDigits between⟩⟩

open Decimal (IsExponent IsNumeral)

theorem isExponent_of_exponent (h : exponent cs = some (x, left)) : IsExponent (plain x) := by
  obtain ⟨letter, tail, between, hletter, htail, rfl⟩ := exists_of_seq_eq_some h
  obtain ⟨sign, word, between', hsign, hword, rfl⟩ := exists_of_seq_eq_some htail
  obtain ⟨e, he, rfl, -⟩ := exists_of_one_eq_some hletter
  obtain ⟨hne, hdigits⟩ := plain_digits hword
  have hsign' : plain sign = [] ∨ plain sign = ['-'] ∨ plain sign = ['+'] := by
    rcases or_of_optional_eq_some hsign with hone | ⟨rfl, -⟩
    · obtain ⟨c, hc, rfl, -⟩ := exists_of_one_eq_some hone
      rw [Bool.or_eq_true, decide_eq_true_eq, decide_eq_true_eq] at hc
      rcases hc with rfl | rfl
      · exact .inr (.inl rfl)
      · exact .inr (.inr rfl)
    · exact .inl rfl
  rw [plain_append, plain_append,
    plain_singleton (p := fun c => c = 'e' || c = 'E') he rfl]
  have hexponent := IsExponent.some he hsign' hne hdigits
  exact hexponent

/-- What a numeral with a point takes in front of its exponent. -/
theorem isNumeral_of_pointFloat (h : pointFloat cs = some (x, left)) : IsNumeral (plain x) := by
  obtain ⟨mantissa, tail, between, hmantissa, htail, rfl⟩ := exists_of_seq_eq_some h
  have hexponent : IsExponent (plain tail) := by
    rcases or_of_optional_eq_some htail with hsome | ⟨rfl, -⟩
    · exact isExponent_of_exponent hsome
    · exact .none
  rw [plain_append]
  rcases or_of_orElse_eq_some hmantissa with hfront | ⟨-, hback⟩
  · obtain ⟨whole, behind, between', hwhole, hbehind, rfl⟩ := exists_of_seq_eq_some hfront
    obtain ⟨point, fraction, between'', hpoint, hfraction, rfl⟩ := exists_of_seq_eq_some hbehind
    obtain ⟨c, hc, rfl, -⟩ := exists_of_one_eq_some hpoint
    obtain rfl := of_decide_eq_true hc
    obtain ⟨hne, hdigits⟩ := plain_digits hwhole
    have hdigits' : ∀ c ∈ plain fraction, c.isDigit = true := by
      rcases or_of_optional_eq_some hfraction with hsome | ⟨rfl, -⟩
      · exact (plain_digits hsome).2
      · exact fun c hc => absurd hc List.not_mem_nil
    have hplain : plain (whole ++ (['.'] ++ fraction)) ++ plain tail =
        plain whole ++ '.' :: (plain fraction ++ plain tail) := by
      rw [plain_append, plain_append, List.append_assoc, List.append_assoc]
      rfl
    rw [hplain]
    exact .point (.inl hne) hdigits hdigits' hexponent
  · obtain ⟨point, fraction, between', hpoint, hfraction, rfl⟩ := exists_of_seq_eq_some hback
    obtain ⟨c, hc, rfl, -⟩ := exists_of_one_eq_some hpoint
    obtain rfl := of_decide_eq_true hc
    obtain ⟨hne, hdigits⟩ := plain_digits hfraction
    have hplain : plain (['.'] ++ fraction) ++ plain tail =
        [] ++ '.' :: (plain fraction ++ plain tail) := by
      rw [plain_append, List.append_assoc]
      rfl
    rw [hplain]
    exact .point (.inr hne) (fun c hc => absurd hc List.not_mem_nil) hdigits hexponent

theorem isNumeral_of_float (h : float cs = some (x, left)) : IsNumeral (plain x) := by
  rcases or_of_orElse_eq_some h with hpoint | ⟨-, hexponent⟩
  · exact isNumeral_of_pointFloat hpoint
  · obtain ⟨word, tail, between, hword, htail, rfl⟩ := exists_of_seq_eq_some hexponent
    obtain ⟨hne, hdigits⟩ := plain_digits hword
    rw [plain_append]
    exact .whole hne hdigits (isExponent_of_exponent htail)

/-- An imaginary numeral is one without its unit. -/
theorem isNumeral_of_imaginary (h : imaginary cs = some (x, left)) :
    IsNumeral (plain x.dropLast) := by
  rcases or_of_orElse_eq_some h with hwhole | ⟨-, hfloat⟩
  · obtain ⟨word, unit, between, hword, hunit, rfl⟩ := exists_of_seq_eq_some hwhole
    obtain ⟨c, -, rfl, -⟩ := exists_of_one_eq_some hunit
    obtain ⟨hne, hdigits⟩ := plain_digits hword
    rw [List.dropLast_concat, ← List.append_nil (plain word)]
    exact .whole hne hdigits .none
  · obtain ⟨word, unit, between, hword, hunit, rfl⟩ := exists_of_seq_eq_some hfloat
    obtain ⟨c, -, rfl, -⟩ := exists_of_one_eq_some hunit
    rw [List.dropLast_concat]
    exact isNumeral_of_float hword

end Lexeme

/-! ## Steps -/

namespace Scan

variable {table : LineTable} {s t : Scan} {rule : Rule} {m : Match} {fault : Fault}

/-- The step at an integer: the number that its digits denote, or a fault if this is too
great. -/
theorem step_of_integer {kind : Kind} {radix : Nat} {letter? : Option Char}
    (hselect : s.mode.select s.rest = some (rule, m))
    (hrule : rule.integer? = some (kind, radix, letter?)) :
    ∃ digits, Writes letter? m.lexeme digits ∧ digits ≠ [] ∧
      (∀ c ∈ digits, Decimal.IsDigitOf radix c) ∧
      (s.step table).2 = some (if Decimal.denoted radix digits < 2 ^ 63 then
        .ok (s.token kind (.integer (Decimal.denoted radix digits)) m.lexeme)
        else .error (s.fault (.integerOutOfRange m.lexeme))) := by
  obtain ⟨digits, hwrites, hne, hdigits⟩ :=
    Rule.exists_digits_of_match? hrule (Mode.match?_of_select hselect)
  refine ⟨digits, hwrites, hne, fun c hc => (hdigits c hc).2, ?_⟩
  have hvalue : Decimal.natOfDigits radix digits = Decimal.denoted radix digits :=
    Decimal.natOfDigits_eq fun c hc => (hdigits c hc).1
  have hact (s : Scan) : s.act table rule m = s.takeInteger kind radix digits m := by
    cases rule with
    | hex | octal | binary =>
      cases hrule
      generalize hlexeme : m.lexeme = lexeme at hwrites
      cases hwrites
      rw [act, hlexeme]
      rfl
    | integer =>
      cases hrule
      generalize hlexeme : m.lexeme = lexeme at hwrites
      cases hwrites
      rw [act, hlexeme]
    | _ => cases hrule
  split
  · next hlt =>
    exact congrArg Prod.snd <| step_of_select hselect <| (hact _).trans <| by
      rw [takeInteger, hvalue]
      exact if_pos hlt
  · next hge =>
    exact congrArg Prod.snd <| step_of_select_error hselect <| (hact _).trans <| by
      rw [takeInteger, hvalue]
      exact if_neg hge

/-- A number is read from every numeral that a rule takes. -/
theorem isSome_readDouble?_of_select {mode : Mode} {cs : List Char}
    (hselect : mode.select cs = some (rule, m)) :
    (rule = .float → (Decimal.readDouble? (plain m.lexeme)).isSome = true) ∧
      (rule = .imaginary → (Decimal.readDouble? (plain m.lexeme.dropLast)).isSome = true) := by
  have hmatch := Mode.match?_of_select hselect
  constructor
  · rintro rfl
    obtain ⟨left, hcut, -⟩ := Match.exists_append_of_ofPattern isCut_float hmatch
    exact Decimal.isSome_readDouble? (isNumeral_of_float hcut)
  · rintro rfl
    obtain ⟨left, hcut, -⟩ := Match.exists_append_of_ofPattern isCut_imaginary hmatch
    exact Decimal.isSome_readDouble? (isNumeral_of_imaginary hcut)

/-- A step never fails at the value of a numeral. -/
theorem Fails.ne_invalidNumber (h : s.Fails table fault) (text : List Char) :
    fault.cause ≠ .invalidNumber text := by
  intro hcause
  cases h with
  | finish _ hfinish =>
    unfold Scan.finish at hfinish
    repeat' split at hfinish
    all_goals cases hfinish
    all_goals cases hcause
  | stuck _ _ =>
    unfold Scan.stuck at hcause
    repeat' split at hcause
    all_goals cases hcause
  | @refused rule m cause hselect hrefuses =>
    obtain ⟨hfloat, himaginary⟩ := isSome_readDouble?_of_select hselect
    obtain rfl : cause = .invalidNumber text := hcause
    cases hrefuses with
    | member _ hmember =>
      obtain ⟨required, hmisaligned⟩ := BlockStack.exists_of_checkMember_error hmember
      cases hmisaligned
    | close hclose =>
      unfold BlockStack.close at hclose
      repeat' split at hclose
      all_goals cases hclose
    | imaginary hread =>
      have hsome := himaginary rfl
      rw [plain, hread] at hsome
      cases hsome
    | float hread =>
      have hsome := hfloat rfl
      rw [plain, hread] at hsome
      cases hsome

end Scan

/-! ## Lexers -/

section Lexers

open Files Import

variable {lexer lexer' : Lexer} {fault : Fault}

/-- A lexer never fails at the value of a numeral. -/
theorem Lexer.ne_invalidNumber_of_next (h : lexer.next = (lexer', some (.error fault)))
    (text : List Char) : fault.cause ≠ .invalidNumber text := by
  obtain ⟨flat, hpull, rfl⟩ := next_eq_error h
  rw [Source.cause_locate]
  rcases Stream.exists_of_next_error hpull with ⟨u, hfails⟩ | hlate
  · exact hfails.ne_invalidNumber text
  · intro hcause
    rw [hcause] at hlate
    cases hlate

theorem Lexer.ne_invalidNumber_of_tokens {source : Source} (h : tokens source = .error fault)
    (text : List Char) : fault.cause ≠ .invalidNumber text := by
  obtain ⟨items, last, end', -, hlast⟩ := Stage.yields_of_collect_eq_error h
  exact ne_invalidNumber_of_next hlast text

variable {tree : FileTree} {config : Config} {cs : List Char} {origin path : Path}

theorem Source.ne_invalidNumber_of_ofText
    (h : (Source.ofText tree config cs origin).outcome = .error fault) (text : List Char) :
    fault.cause ≠ .invalidNumber text := by
  obtain ⟨address, visit, number, directive, cause, hfirst, rfl⟩ :=
    exists_isFirstRefused_of_expand (Visit.top tree config cs origin) (Nat.zero_add _)
      (eq_error_of_map_eq_error h)
  rintro rfl
  cases hfirst.refuses

/-- The tokens of a text never end at the value of a numeral. -/
theorem ne_invalidNumber_of_tokenize (h : tokenize tree config cs origin = .error fault)
    (text : List Char) : fault.cause ≠ .invalidNumber text := by
  rcases error_or_of_bind_eq_error h with hsource | ⟨source, -, htokens⟩
  · exact Source.ne_invalidNumber_of_ofText hsource text
  · exact Lexer.ne_invalidNumber_of_tokens htokens text

/-- Nor do those of a file. -/
theorem ne_invalidNumber_of_tokenizeFile (h : tokenizeFile tree config path = .error fault)
    (text : List Char) : fault.cause ≠ .invalidNumber text := by
  rcases error_or_of_bind_eq_error h with hsource | ⟨source, -, htokens⟩
  · unfold Source.ofFile at hsource
    split at hsource
    · obtain rfl := Except.error.inj hsource
      intro hcause
      cases hcause
    · exact Source.ne_invalidNumber_of_ofText hsource text
  · exact Lexer.ne_invalidNumber_of_tokens htokens text

end Lexers

/-- The rules for numerals: where one of them matches, the first that does in the order of the
table takes the most.  An integer is the number that its digits denote, below the sixty-third
power of two, and otherwise it is refused as out of range.  No numeral is refused as one that
has no value. -/
theorem numerals_longest_and_exact :
    (Rule.numerals <:+: Mode.expression.rules ∧
      ∀ cs, ∀ other ∈ Rule.numerals, ∀ m', other.match? cs = some m' →
        ∃ rule m, Rule.numerals.find? (fun rule => (rule.match? cs).isSome) = some rule ∧
          rule.match? cs = some m ∧ m'.lexeme.length ≤ m.lexeme.length) ∧
    (∀ (table : LineTable) (s : Scan) rule m kind radix letter?, s.mode = .expression →
      s.mode.select s.rest = some (rule, m) → rule.integer? = some (kind, radix, letter?) →
      ∃ digits, Writes letter? m.lexeme digits ∧ digits ≠ [] ∧
        (∀ c ∈ digits, Decimal.IsDigitOf radix c) ∧
        (s.step table).2 = some (if Decimal.denoted radix digits < 2 ^ 63 then
          .ok (s.token kind (.integer (Decimal.denoted radix digits)) m.lexeme)
          else .error (s.fault (.integerOutOfRange m.lexeme)))) ∧
    (∀ (lexer lexer' : Lexer) (fault : Fault) text,
      lexer.next = (lexer', some (.error fault)) → fault.cause ≠ .invalidNumber text) ∧
    (∀ tree config cs origin (fault : Fault) text,
      tokenize tree config cs origin = .error fault → fault.cause ≠ .invalidNumber text) ∧
    ∀ tree config path (fault : Fault) text,
      tokenizeFile tree config path = .error fault → fault.cause ≠ .invalidNumber text :=
  ⟨⟨Rule.numerals_infix, fun _ _ hother _ hmatch =>
      Rule.exists_longest Rule.pairwise_covers hother hmatch⟩,
    fun _ _ _ _ _ _ _ _ hselect hrule => Scan.step_of_integer hselect hrule,
    fun _ _ _ text h => Lexer.ne_invalidNumber_of_next h text,
    fun _ _ _ _ _ text h => ne_invalidNumber_of_tokenize h text,
    fun _ _ _ _ text h => ne_invalidNumber_of_tokenizeFile h text⟩

/-- An imaginary numeral that begins with a float, and an integer that is out of range. -/
theorem numerals_at_imaginary_and_out_of_range :
    let s : Scan := { rest := "0xffffffffffffffff\n".toList, modes := [.expression {}] }
    let fault : Fault :=
      { cause := .integerOutOfRange "0xffffffffffffffff".toList, line := 2, column := 7 }
    (∃ rule m, Rule.numerals.find? (fun rule => (rule.match? "1_0.5e3j".toList).isSome) =
        some rule ∧ rule.match? "1_0.5e3j".toList = some m ∧ 7 ≤ m.lexeme.length) ∧
      (∃ digits, Writes (some 'x') "0xffffffffffffffff".toList digits ∧ digits ≠ [] ∧
        (∀ c ∈ digits, Decimal.IsDigitOf 16 c) ∧
        (s.step (.ofText 4 s.rest)).2 = some (if Decimal.denoted 16 digits < 2 ^ 63 then
          .ok (s.token .hex (.integer (Decimal.denoted 16 digits)) "0xffffffffffffffff".toList)
          else .error (s.fault (.integerOutOfRange "0xffffffffffffffff".toList)))) ∧
      tokenize ⟨[], []⟩ {} "A\n  x = 0xffffffffffffffff\nend\n".toList textOrigin = .error fault ∧
      fault.cause ≠ .invalidNumber "0xffffffffffffffff".toList := by
  have hrun : tokenize ⟨[], []⟩ {} "A\n  x = 0xffffffffffffffff\nend\n".toList textOrigin =
      .error
        { cause := .integerOutOfRange "0xffffffffffffffff".toList
          line := 2
          column := 7 } := by
    decide +kernel
  exact ⟨numerals_longest_and_exact.1.2 "1_0.5e3j".toList .float (by decide)
      { lexeme := "1_0.5e3".toList } (by decide),
    numerals_longest_and_exact.2.1 _ _ .hex { lexeme := "0xffffffffffffffff".toList } .hex 16
      (some 'x') rfl (by decide) rfl,
    hrun, numerals_longest_and_exact.2.2.2.1 _ _ _ _ _ _ hrun⟩

end BlockLexer
