import BlockLexer.Proofs.Visible

/-!
# Rules that an expression passes over

Most rules of an expression take characters that hide no others and do not end the expression,
and are no brackets.

* `Pattern.TakesInert` says so of a pattern, and goes along with how patterns are built.
* `Rule.isInert_of_mem_lexeme` says so of the rules `Rule.inert`.
-/

namespace BlockLexer

open Text Pattern Lexeme

/-! ## Patterns -/

namespace Pattern

variable {a b : Pattern} {p : Char → Bool}

/-- A pattern takes inert characters only. -/
def TakesInert (a : Pattern) : Prop :=
  ∀ cs x left, a cs = some (x, left) → ∀ c ∈ x, isInert c = true

theorem TakesInert.seq (ha : a.TakesInert) (hb : b.TakesInert) : (a.seq b).TakesInert := by
  intro cs x left h c hc
  obtain ⟨y, z, between, hy, hz, rfl⟩ := exists_of_seq_eq_some h
  rcases List.mem_append.1 hc with hc | hc
  · exact ha cs y between hy c hc
  · exact hb between z left hz c hc

theorem TakesInert.orElse (ha : a.TakesInert) (hb : b.TakesInert) : (a.orElse b).TakesInert := by
  intro cs x left h
  rcases or_of_orElse_eq_some h with hfirst | ⟨-, hsecond⟩
  · exact ha cs x left hfirst
  · exact hb cs x left hsecond

theorem TakesInert.optional (ha : a.TakesInert) : a.optional.TakesInert := by
  intro cs x left h
  rcases or_of_optional_eq_some h with hsome | ⟨rfl, -⟩
  · exact ha cs x left hsome
  · simp

theorem takesInert_one (h : marks.all fun mark => !p mark) : (one p).TakesInert := by
  intro cs x left hone
  obtain ⟨c, hc, rfl, -⟩ := exists_of_one_eq_some hone
  simpa using isInert_of_class h hc

theorem takesInert_many (h : marks.all fun mark => !p mark) : (many p).TakesInert := by
  intro cs x left hmany c hc
  obtain ⟨rfl, -⟩ := Prod.mk.inj (Option.some.inj hmany)
  exact isInert_of_class h (List.mem_takeWhile_imp hc)

theorem takesInert_many1 (h : marks.all fun mark => !p mark) : (many1 p).TakesInert := by
  intro cs x left hmany c hc
  obtain ⟨rfl, -, -⟩ := eq_of_many1_eq_some hmany
  exact isInert_of_class h (List.mem_takeWhile_imp hc)

end Pattern

/-! ## Lexemes -/

namespace Lexeme

theorem isInert_of_mem_moreDigits (cs : List Char) :
    ∀ c ∈ (moreDigits cs).1, isInert c = true := by
  have hdigit {c : Char} (hc : c.isDigit = true) : isInert c = true := isInert_of_class rfl hc
  fun_induction moreDigits cs with
  | case1 d cs hd taken rest hmore ih =>
    rw [hmore] at ih
    exact List.forall_mem_cons.2 ⟨rfl, List.forall_mem_cons.2 ⟨hdigit hd, ih⟩⟩
  | case3 c cs _ hc taken rest hmore ih =>
    rw [hmore] at ih
    exact List.forall_mem_cons.2 ⟨hdigit hc, ih⟩
  | case2 | case4 | case5 => simp

theorem takesInert_digits : digits.TakesInert := by
  refine (takesInert_one rfl).seq fun cs x left h => ?_
  obtain rfl : (moreDigits cs).1 = x := congrArg Prod.fst (Option.some.inj h)
  exact isInert_of_mem_moreDigits cs

theorem takesInert_exponent : exponent.TakesInert :=
  (takesInert_one rfl).seq ((takesInert_one rfl).optional.seq takesInert_digits)

theorem takesInert_float : float.TakesInert := by
  have hpoint : (one (· = '.')).TakesInert := takesInert_one rfl
  exact (((takesInert_digits.seq (hpoint.seq takesInert_digits.optional)).orElse
    (hpoint.seq takesInert_digits)).seq takesInert_exponent.optional).orElse
      (takesInert_digits.seq takesInert_exponent)

theorem takesInert_imaginary : imaginary.TakesInert :=
  (takesInert_digits.seq (takesInert_one rfl)).orElse (takesInert_float.seq (takesInert_one rfl))

theorem takesInert_name : name.TakesInert :=
  (takesInert_one rfl).seq (takesInert_many rfl)

end Lexeme

/-! ## Rules -/

/-- The rules for numerals, names, operators and blanks take inert characters. -/
theorem Rule.isInert_of_mem_lexeme {rule : Rule} {cs : List Char} {m : Match}
    (hrule : rule ∈ Rule.inert) (hmatch : rule.match? cs = some m) :
    ∀ c ∈ m.lexeme, isInert c = true := by
  have pattern {a : Pattern} (ha : a.TakesInert) (hmatch : Match.ofPattern a cs = some m) :
      ∀ c ∈ m.lexeme, isInert c = true := by
    obtain ⟨⟨x, left⟩, hcut, rfl⟩ := Option.map_eq_some_iff.1 hmatch
    exact ha cs x left hcut
  have radix {letter : Char} {isDigit : Char → Bool}
      (hletter : marks.all fun mark => !(decide (mark.toLower = letter)))
      (hdigit : marks.all fun mark => !isDigit mark) : (radixNumeral letter isDigit).TakesInert :=
    (takesInert_one rfl).seq ((takesInert_one hletter).seq (takesInert_many1 hdigit))
  cases rule with
  | imaginary => exact pattern takesInert_imaginary hmatch
  | float => exact pattern takesInert_float hmatch
  | hex | octal | binary => exact pattern (radix rfl rfl) hmatch
  | integer | blanks => exact pattern (takesInert_many1 rfl) hmatch
  | identifier => exact pattern takesInert_name hmatch
  | operator => exact pattern (takesInert_one rfl) hmatch
  | _ => simp [Rule.inert] at hrule

end BlockLexer
