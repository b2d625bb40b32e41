import BlockLexer.Proofs.Select
import BlockLexer.Proofs.Cursor
import Mathlib.Data.Nat.Digits.Defs
import Mathlib.Tactic.IntervalCases

/-!
# Numerals

The rules for numerals overlap, and the first one wins however long its match is.  This module
says that nothing is lost by that, and what the numerals of the rules look like.

* `Pattern.TakesDigits`: a numeral takes at least the digits that a text begins with.
* `Rule.Covers` is a rule that takes at least as much as another one wherever both match, and
  `Rule.pairwise_covers` says that each rule for numerals covers those behind it.
* `Lexeme.Writes` is how the integers of a rule are written, and `Decimal.denoted` is the
  number that their digits denote.
* `Decimal.IsNumeral` is a numeral without underscores, and `Decimal.isSome_readDouble?` says
  that each is read as a double.
-/

namespace BlockLexer

open Text Pattern Lexeme

/-! ## Digits at the beginning -/

namespace Pattern

variable {a b : Pattern}

/-- A pattern takes at least the digits that a text begins with. -/
def TakesDigits (a : Pattern) : Prop :=
  ∀ cs x left, a cs = some (x, left) → (cs.takeWhile Char.isDigit).length ≤ x.length

theorem TakesDigits.seq (ha : a.TakesDigits) : (a.seq b).TakesDigits := by
  intro cs x left h
  obtain ⟨y, z, between, hy, -, rfl⟩ := exists_of_seq_eq_some h
  rw [List.length_append]
  exact Nat.le_add_right_of_le (ha cs y between hy)

theorem TakesDigits.orElse (ha : a.TakesDigits) (hb : b.TakesDigits) :
    (a.orElse b).TakesDigits := by
  intro cs x left h
  rcases or_of_orElse_eq_some h with hfirst | ⟨-, hsecond⟩
  · exact ha cs x left hfirst
  · exact hb cs x left hsecond

/-- In front of a point there are no digits. -/
theorem takesDigits_point : (one (· = '.')).TakesDigits := by
  intro cs x left h
  obtain ⟨c, hc, rfl, rfl⟩ := exists_of_one_eq_some h
  obtain rfl := of_decide_eq_true hc
  exact Nat.zero_le _

end Pattern

namespace Lexeme

variable {cs x left : List Char}

theorem length_takeWhile_moreDigits (cs : List Char) :
    (cs.takeWhile Char.isDigit).length ≤ (moreDigits cs).1.length := by
  induction cs with
  | nil => exact Nat.le_refl 0
  | cons c cs ih =>
    by_cases hc : c.isDigit = true
    · rw [moreDigits_cons_of_ne (ne_of_class hc rfl), if_pos hc, List.takeWhile_cons_of_pos hc]
      exact Nat.succ_le_succ ih
    · rw [List.takeWhile_cons_of_neg hc]
      exact Nat.zero_le _

theorem takesDigits_digits : digits.TakesDigits := by
  intro cs x left h
  obtain ⟨first, more, between, hfirst, hmore, rfl⟩ := exists_of_seq_eq_some h
  obtain ⟨c, hc, rfl, rfl⟩ := exists_of_one_eq_some hfirst
  have htaken : (moreDigits between).1 = more := congrArg Prod.fst (Option.some.inj hmore)
  rw [List.takeWhile_cons_of_pos hc, List.length_append, ← htaken, List.length_singleton,
    Nat.add_comm]
  exact Nat.succ_le_succ (length_takeWhile_moreDigits between)

theorem takesDigits_float : float.TakesDigits :=
  ((takesDigits_digits.seq.orElse takesDigits_point.seq).seq).orElse takesDigits_digits.seq

theorem takesDigits_imaginary : imaginary.TakesDigits :=
  takesDigits_digits.seq.orElse takesDigits_float.seq

end Lexeme

/-! ## Digits of a radix -/

namespace Decimal

variable {c : Char} {radix : Nat} {digits : List Char}

/-- The digits in the order of their values. -/
def digitRow : List Char :=
  ['0', '1', '2', '3', '4', '5', '6', '7', '8', '9', 'a', 'b', 'c', 'd', 'e', 'f']

/-- The number that digits denote in a radix.  Their case does not matter. -/
def denoted (radix : Nat) (digits : List Char) : Nat :=
  Nat.ofDigits radix (digits.reverse.map fun c => digitRow.idxOf c.toLower)

/-- A digit of a radix. -/
def IsDigitOf (radix : Nat) (c : Char) : Prop :=
  digitRow.idxOf c.toLower < radix

instance (radix : Nat) (c : Char) : Decidable (IsDigitOf radix c) :=
  inferInstanceAs (Decidable (_ < _))

theorem between_iff {low high : Char} :
    (low ≤ c && c ≤ high) = true ↔ low.toNat ≤ c.toNat ∧ c.toNat ≤ high.toNat := by
  rw [Bool.and_eq_true, decide_eq_true_eq, decide_eq_true_eq]
  rfl

theorem isHexDigit_iff : isHexDigit c = true ↔ (48 ≤ c.toNat ∧ c.toNat ≤ 57) ∨
    (97 ≤ c.toNat ∧ c.toNat ≤ 102) ∨ (65 ≤ c.toNat ∧ c.toNat ≤ 70) := by
  rw [isHexDigit, Bool.or_eq_true, Bool.or_eq_true, isDigit_iff, between_iff, between_iff]
  exact or_assoc

theorem mem_of_isHexDigit (h : isHexDigit c = true) :
    c ∈ digitRow ++ ['A', 'B', 'C', 'D', 'E', 'F'] := by
  rw [isHexDigit_iff] at h
  rw [← Char.ofNat_toNat c]
  generalize c.toNat = n at h
  rcases h with ⟨hlow, hhigh⟩ | ⟨hlow, hhigh⟩ | ⟨hlow, hhigh⟩
  all_goals interval_cases n <;> decide

/-- The value of a digit is its place in the row. -/
theorem digitValue_eq (h : isHexDigit c = true) : digitValue c = digitRow.idxOf c.toLower := by
  have hall : (digitRow ++ ['A', 'B', 'C', 'D', 'E', 'F']).all
      (fun c => digitValue c = digitRow.idxOf c.toLower) = true := by decide
  exact of_decide_eq_true (List.all_eq_true.1 hall c (mem_of_isHexDigit h))

/-- What is read from digits is the number that they denote. -/
theorem natOfDigits_eq (h : ∀ c ∈ digits, isHexDigit c = true) :
    natOfDigits radix digits = denoted radix digits := by
  rw [denoted, Nat.ofDigits_eq_foldr, List.foldr_map, List.foldr_reverse, natOfDigits]
  refine List.foldl_ext _ _ 0 fun n c hc => ?_
  rw [digitValue_eq (h c hc), Nat.add_comm, Nat.mul_comm]
  rfl

/-- The digits of the radices that integers are written in. -/
theorem isDigitOf_of_isHexDigit (h : isHexDigit c = true) : IsDigitOf 16 c := by
  have hall : (digitRow ++ ['A', 'B', 'C', 'D', 'E', 'F']).all fun c => IsDigitOf 16 c := by
    decide
  exact of_decide_eq_true (List.all_eq_true.1 hall c (mem_of_isHexDigit h))

theorem isDigitOf_of_isDigit (h : c.isDigit = true) : isHexDigit c = true ∧ IsDigitOf 10 c := by
  have hhex : isHexDigit c = true := isHexDigit_iff.2 (.inl (isDigit_iff.1 h))
  refine ⟨hhex, ?_⟩
  rw [isDigit_iff] at h
  rw [IsDigitOf, ← digitValue_eq hhex, digitValue, if_pos (isDigit_iff.2 h)]
  omega

theorem isDigitOf_eight (h : ('0' ≤ c && c ≤ '7') = true) :
    isHexDigit c = true ∧ IsDigitOf 8 c := by
  obtain ⟨hlow, hhigh⟩ := between_iff.1 h
  have hdigit : c.isDigit = true := isDigit_iff.2 ⟨hlow, Nat.le_trans hhigh (by decide)⟩
  obtain ⟨hhex, -⟩ := isDigitOf_of_isDigit hdigit
  refine ⟨hhex, ?_⟩
  rw [IsDigitOf, ← digitValue_eq hhex, digitValue, if_pos hdigit]
  have hseven : c.toNat ≤ 55 := hhigh
  omega

theorem isDigitOf_two (h : (c = '0' || c = '1') = true) :
    isHexDigit c = true ∧ IsDigitOf 2 c := by
  simp only [Bool.or_eq_true, decide_eq_true_eq] at h
  rcases h with rfl | rfl <;> decide

end Decimal

/-! ## Integers -/

/-- The integers of a rule: their kind, their radix, and the letter that says so. -/
def Rule.integer? : Rule → Option (Kind × Nat × Option Char)
  | .hex => some (.hex, 16, some 'x')
  | .octal => some (.octal, 8, some 'o')
  | .binary => some (.binary, 2, some 'b')
  | .integer => some (.integer, 10, none)
  | _ => none

namespace Lexeme

variable {cs x left : List Char}

/-- How digits are written: behind a zero and a letter in either case, or alone. -/
inductive Writes : Option Char → List Char → List Char → Prop
  | alone (digits : List Char) : Writes none digits digits
  | behind {letter c : Char} (hletter : c.toLower = letter) (digits : List Char) :
      Writes (some letter) ('0' :: c :: digits) digits

/-- A numeral with a radix is a zero, the letter, and digits. -/
theorem exists_of_radixNumeral {letter : Char} {isDigit : Char → Bool}
    (h : radixNumeral letter isDigit cs = some (x, left)) :
    ∃ c word, c.toLower = letter ∧ cs = '0' :: c :: (word ++ left) ∧ x = '0' :: c :: word ∧
      word ≠ [] ∧ ∀ d ∈ word, isDigit d = true := by
  obtain ⟨zero, tail, behind, hzero, htail, rfl⟩ := exists_of_seq_eq_some h
  obtain ⟨first, word, behind', hfirst, hword, rfl⟩ := exists_of_seq_eq_some htail
  obtain ⟨z, hz, rfl, rfl⟩ := exists_of_one_eq_some hzero
  obtain ⟨c, hc, rfl, rfl⟩ := exists_of_one_eq_some hfirst
  obtain ⟨htake, -, hne⟩ := eq_of_many1_eq_some hword
  obtain rfl := of_decide_eq_true hz
  refine ⟨c, word, of_decide_eq_true hc, ?_, rfl, hne, fun d hd => ?_⟩
  · rw [← isCut_many1 _ _ _ _ hword]
  · exact List.mem_takeWhile_imp (htake ▸ hd)

/-- Behind the zero of a numeral with a radix no other numeral goes on. -/
theorem eq_none_of_radix {letter c : Char} (hletter : letter.isAlpha = true)
    (hexponent : letter ≠ 'e') (hunit : letter ≠ 'j') (hc : c.toLower = letter) (more : List Char) :
    float ('0' :: c :: more) = none ∧ imaginary ('0' :: c :: more) = none := by
  have halpha : c.isAlpha = true := isAlpha_of_toLower (hc ▸ hletter)
  have hdigits : digits ('0' :: c :: more) = some (['0'], c :: more) := by
    have hmore : moreDigits (c :: more) = ([], c :: more) := by
      have hdigit : ¬ c.isDigit = true := fun hd => by
        rw [not_isAlpha_of_isDigit hd] at halpha
        cases halpha
      rw [moreDigits_cons_of_ne (ne_of_class halpha rfl), if_neg hdigit]
    have hzero : one Char.isDigit ('0' :: c :: more) = some (['0'], c :: more) := rfl
    exact seq_eq_some hzero (congrArg some hmore)
  have hstop {low high : Char} (hlow : low.toLower ≠ letter) (hhigh : high.toLower ≠ letter) :
      Stops (fun c => c = low || c = high) (c :: more) := by
    refine stops_cons ?_
    rw [Bool.or_eq_false_iff, decide_eq_false_iff_not, decide_eq_false_iff_not]
    exact ⟨fun he => hlow (he ▸ hc), fun he => hhigh (he ▸ hc)⟩
  have hfloat := float_eq_none_of_digits hdigits
    (stops_cons (decide_eq_false (ne_of_class halpha rfl)))
    (hstop hexponent.symm hexponent.symm)
  exact ⟨hfloat, imaginary_eq_none_of_digits hdigits hfloat (hstop hunit.symm hunit.symm)⟩

end Lexeme

/-- What a rule for integers takes are digits of its radix, as they are written there. -/
theorem Rule.exists_digits_of_match? {rule : Rule} {kind : Kind} {radix : Nat}
    {letter? : Option Char} {cs : List Char} {m : Match}
    (h : rule.integer? = some (kind, radix, letter?)) (hmatch : rule.match? cs = some m) :
    ∃ digits, Writes letter? m.lexeme digits ∧ digits ≠ [] ∧
      ∀ c ∈ digits, Decimal.isHexDigit c = true ∧ Decimal.IsDigitOf radix c := by
  have radixed {letter : Char} {isDigit : Char → Bool} {radix : Nat}
      (hdigit : ∀ c, isDigit c = true → Decimal.isHexDigit c = true ∧ Decimal.IsDigitOf radix c)
      (hmatch : Match.ofPattern (radixNumeral letter isDigit) cs = some m) :
      ∃ digits, Writes (some letter) m.lexeme digits ∧ digits ≠ [] ∧
        ∀ c ∈ digits, Decimal.isHexDigit c = true ∧ Decimal.IsDigitOf radix c := by
    obtain ⟨left, hcut, -⟩ := Match.exists_append_of_ofPattern (isCut_radixNumeral _ _) hmatch
    obtain ⟨c, word, hc, -, hlexeme, hne, hword⟩ := exists_of_radixNumeral hcut
    exact ⟨word, hlexeme ▸ .behind hc word, hne, fun d hd => hdigit d (hword d hd)⟩
  cases rule with
  | hex =>
    cases h
    exact radixed (fun c hc => ⟨hc, Decimal.isDigitOf_of_isHexDigit hc⟩) hmatch
  | octal =>
    cases h
    exact radixed (fun c hc => Decimal.isDigitOf_eight hc) hmatch
  | binary =>
    cases h
    exact radixed (fun c hc => Decimal.isDigitOf_two hc) hmatch
  | integer =>
    cases h
    obtain ⟨left, hcut, -⟩ := Match.exists_append_of_ofPattern (isCut_many1 _) hmatch
    obtain ⟨htake, -, hne⟩ := eq_of_many1_eq_some hcut
    refine ⟨m.lexeme, .alone m.lexeme, hne, fun c hc => Decimal.isDigitOf_of_isDigit ?_⟩
    exact List.mem_takeWhile_imp (htake ▸ hc)
  | _ => cases h

/-! ## The longest match -/

namespace Rule

/-- The rules for numerals, in the order in which they are tried. -/
def numerals : List Rule := [.imaginary, .float, .hex, .octal, .binary, .integer]

theorem numerals_infix : numerals <:+: Mode.expression.rules :=
  ⟨[.comment, .continuation, .openString .tripleSingle, .openString .tripleDouble,
      .openString .single, .openString .double],
    [.identifier, .bracket, .expressionNewline, .blanks, .operator], rfl⟩

/-- Where both rules match, the first one takes at least as much as the other. -/
def Covers (rule other : Rule) : Prop :=
  ∀ cs m m', rule.match? cs = some m → other.match? cs = some m' →
    m'.lexeme.length ≤ m.lexeme.length

variable {cs : List Char} {m m' : Match}

/-- An imaginary numeral is a float with a unit, unless it has neither point nor exponent. -/
theorem covers_imaginary_float : Covers .imaginary .float := by
  intro cs m m' hmatch hmatch'
  obtain ⟨left, hcut, -⟩ := Match.exists_append_of_ofPattern isCut_imaginary hmatch
  obtain ⟨left', hcut', -⟩ := Match.exists_append_of_ofPattern isCut_float hmatch'
  rcases or_of_orElse_eq_some hcut with hdigits | ⟨-, hfloat⟩
  · obtain ⟨word, unit, behind, hword, hunit, -⟩ := exists_of_seq_eq_some hdigits
    obtain ⟨c, hc, -, rfl⟩ := exists_of_one_eq_some hunit
    have hstop (p : Char → Bool) (hlow : p 'j' = false) (hhigh : p 'J' = false) :
        Stops p (c :: left) := by
      rw [Bool.or_eq_true, decide_eq_true_eq, decide_eq_true_eq] at hc
      rcases hc with rfl | rfl
      · exact stops_cons hlow
      · exact stops_cons hhigh
    rw [float_eq_none_of_digits hword (hstop _ rfl rfl) (hstop _ rfl rfl)] at hcut'
    cases hcut'
  · obtain ⟨word, unit, behind, hword, -, hlexeme⟩ := exists_of_seq_eq_some hfloat
    obtain ⟨rfl, -⟩ := Prod.mk.inj (Option.some.inj (hcut'.symm.trans hword))
    rw [hlexeme, List.length_append]
    exact Nat.le_add_right _ _

/-- The rules for a radix, by the letter. -/
theorem exists_of_match?_letter {rule : Rule} {kind : Kind} {radix : Nat} {letter : Char}
    (h : rule.integer? = some (kind, radix, some letter)) (hmatch : rule.match? cs = some m) :
    letter.isAlpha = true ∧ letter ≠ 'e' ∧ letter ≠ 'j' ∧ 2 ≤ m.lexeme.length ∧
      ∃ c more, cs = '0' :: c :: more ∧ c.toLower = letter := by
  have radixed {letter : Char} {isDigit : Char → Bool}
      (hmatch : Match.ofPattern (radixNumeral letter isDigit) cs = some m) :
      2 ≤ m.lexeme.length ∧ ∃ c more, cs = '0' :: c :: more ∧ c.toLower = letter := by
    obtain ⟨left, hcut, -⟩ := Match.exists_append_of_ofPattern (isCut_radixNumeral _ _) hmatch
    obtain ⟨c, word, hc, hcs, hlexeme, -⟩ := exists_of_radixNumeral hcut
    rw [hlexeme]
    exact ⟨Nat.le_add_left 2 _, c, _, hcs, hc⟩
  cases rule with
  | hex | octal | binary =>
    cases h
    exact ⟨by decide, by decide, by decide, radixed hmatch⟩
  | _ => cases h

/-- No rule for a float or an imaginary numeral matches where one for a radix does. -/
theorem covers_of_letter {rule other : Rule} {kind : Kind} {radix : Nat} {letter : Char}
    (hrule : rule = .imaginary ∨ rule = .float)
    (hother : other.integer? = some (kind, radix, some letter)) : Covers rule other := by
  intro cs m m' hmatch hmatch'
  obtain ⟨halpha, hexponent, hunit, -, c, more, rfl, hc⟩ := exists_of_match?_letter hother hmatch'
  obtain ⟨hfloat, himaginary⟩ := eq_none_of_radix halpha hexponent hunit hc more
  rcases hrule with rfl | rfl
  · cases (Match.ofPattern_eq_none himaginary).symm.trans hmatch
  · cases (Match.ofPattern_eq_none hfloat).symm.trans hmatch

/-- Two rules for a radix match at different letters. -/
theorem covers_of_letters {rule other : Rule} {kind kind' : Kind} {radix radix' : Nat}
    {letter letter' : Char} (hrule : rule.integer? = some (kind, radix, some letter))
    (hother : other.integer? = some (kind', radix', some letter')) (hne : letter ≠ letter') :
    Covers rule other := by
  intro cs m m' hmatch hmatch'
  obtain ⟨-, -, -, -, c, more, rfl, rfl⟩ := exists_of_match?_letter hrule hmatch
  obtain ⟨-, -, -, -, c', more', hcs, rfl⟩ := exists_of_match?_letter hother hmatch'
  cases hcs
  exact absurd rfl hne

/-- Digits alone are the beginning of every other numeral. -/
theorem covers_integer {rule : Rule} {a : Pattern} (ha : a.TakesDigits)
    (hrule : ∀ cs, rule.match? cs = Match.ofPattern a cs) : Covers rule .integer := by
  intro cs m m' hmatch hmatch'
  rw [hrule] at hmatch
  obtain ⟨⟨x, left⟩, hcut, rfl⟩ := Option.map_eq_some_iff.1 hmatch
  obtain ⟨left', hcut', -⟩ := Match.exists_append_of_ofPattern (isCut_many1 _) hmatch'
  rw [(eq_of_many1_eq_some hcut').1]
  exact ha cs x left hcut

/-- In front of the letter of a radix there is one digit. -/
theorem covers_integer_of_letter {rule : Rule} {kind : Kind} {radix : Nat} {letter : Char}
    (h : rule.integer? = some (kind, radix, some letter)) : Covers rule .integer := by
  intro cs m m' hmatch hmatch'
  obtain ⟨halpha, -, -, hlength, c, more, rfl, hc⟩ := exists_of_match?_letter h hmatch
  obtain ⟨left', hcut', -⟩ := Match.exists_append_of_ofPattern (isCut_many1 _) hmatch'
  have hdigit : ¬ c.isDigit = true := fun hd => by
    have hletter : c.isAlpha = true := isAlpha_of_toLower (hc ▸ halpha)
    rw [not_isAlpha_of_isDigit hd] at hletter
    cases hletter
  rw [(eq_of_many1_eq_some hcut').1, List.takeWhile_cons_of_pos rfl,
    List.takeWhile_cons_of_neg hdigit]
  exact Nat.le_of_lt hlength

/-- Every rule for numerals covers those behind it. -/
theorem pairwise_covers : numerals.Pairwise Covers := by
  simp only [numerals, List.pairwise_cons, List.forall_mem_cons, List.not_mem_nil,
    IsEmpty.forall_iff, implies_true, List.Pairwise.nil, and_true]
  refine ⟨⟨covers_imaginary_float, covers_of_letter (.inl rfl) rfl, covers_of_letter (.inl rfl) rfl,
      covers_of_letter (.inl rfl) rfl, covers_integer takesDigits_imaginary fun _ => rfl⟩,
    ⟨covers_of_letter (.inr rfl) rfl, covers_of_letter (.inr rfl) rfl,
      covers_of_letter (.inr rfl) rfl, covers_integer takesDigits_float fun _ => rfl⟩,
    ⟨covers_of_letters rfl rfl (by decide), covers_of_letters rfl rfl (by decide),
      covers_integer_of_letter rfl⟩,
    ⟨covers_of_letters rfl rfl (by decide), covers_integer_of_letter rfl⟩,
    covers_integer_of_letter rfl⟩

/-- Of rules each of which covers those behind it, the first that matches takes the most. -/
theorem exists_longest {rules : List Rule} {other : Rule} (hcovers : rules.Pairwise Covers)
    (hother : other ∈ rules) (hmatch : other.match? cs = some m') :
    ∃ rule m, rules.find? (fun rule => (rule.match? cs).isSome) = some rule ∧
      rule.match? cs = some m ∧ m'.lexeme.length ≤ m.lexeme.length := by
  induction rules with
  | nil => cases hother
  | cons first rules ih =>
    obtain ⟨hfirst, hcovers⟩ := List.pairwise_cons.1 hcovers
    cases hm : first.match? cs with
    | some m =>
      refine ⟨first, m, List.find?_cons_of_pos (by rw [hm]; rfl), hm, ?_⟩
      rcases List.mem_cons.1 hother with rfl | hmem
      · obtain rfl := Option.some.inj (hm.symm.trans hmatch)
        exact Nat.le_refl _
      · exact hfirst other hmem cs m m' hm hmatch
    | none =>
      rcases List.mem_cons.1 hother with rfl | hmem
      · cases hm.symm.trans hmatch
      · obtain ⟨rule, m, hfind, hlongest⟩ := ih hcovers hmem
        exact ⟨rule, m, (List.find?_cons_of_neg (by rw [hm]; simp)).trans hfind, hlongest⟩

end Rule

end BlockLexer
