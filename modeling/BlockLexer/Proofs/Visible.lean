import BlockLexer.Proofs.Forest
import BlockLexer.Proofs.StringValues

/-!
# What an expression sees

An expression looks neither into comments nor into strings, and a backslash takes the end of a
line away from it.  This module reads a text from left to right without any rules, and says
where an expression that begins with it ends.

* `hidden` is what a text begins with that an expression does not see, and `visible` are all
  other characters, each with what stands behind it.
* `ExpressionEnds` is the first end of a line at which all brackets are closed, and `UnopenedAt` the
  first closing bracket that no bracket of its kind opens.
* `visible_of_inert`, `visible_comment`, `visible_continuation` and `visible_quotes` read on,
  and `visibleBehind` is what is seen behind a string.
-/

namespace BlockLexer

open Text

/-! ## Hidden characters -/

/-- The quotes that a text begins with.  Three of them come before one. -/
def quotesAt? (cs : List Char) : Option QuoteStyle :=
  [.tripleSingle, .tripleDouble, .single, .double].find? fun style => style.quotes.isPrefixOf cs

/-- What a text begins with that an expression does not see: a comment, a backslash with the
line feed behind it, or a string.  A string that does not end hides all that is left. -/
def hidden : List Char → List Char
  | ';' :: cs => ';' :: cs.takeWhile (· ≠ '\n')
  | '\\' :: '\n' :: _ => ['\\', '\n']
  | cs =>
    match quotesAt? cs with
    | none => []
    | some style =>
      match untilQuotes? style.quotes (cs.drop style.quotes.length) with
      | none => cs
      | some content => style.quotes ++ content ++ style.quotes

/-- The characters that are not hidden, each with what stands behind it, once some characters
are left out. -/
def visibleFrom : Nat → List Char → List (Char × List Char)
  | _, [] => []
  | skip + 1, _ :: cs => visibleFrom skip cs
  | 0, c :: cs =>
    match (hidden (c :: cs)).length with
    | 0 => (c, cs) :: visibleFrom 0 cs
    | skip + 1 => visibleFrom skip cs

/-- The characters of a text that are not hidden, each with what stands behind it. -/
def visible (cs : List Char) : List (Char × List Char) :=
  visibleFrom 0 cs

/-- What is seen behind a string, in front of whose end this stands. -/
def visibleBehind (style : QuoteStyle) (cs : List Char) : List (Char × List Char) :=
  match untilQuotes? style.quotes cs with
  | none => []
  | some content => visible (cs.drop (content.length + style.quotes.length))

/-! ## Brackets -/

/-- All brackets are closed as often as they are opened. -/
def IsEven (chars : List Char) : Prop :=
  ∀ bracket : Bracket, chars.count bracket.closingChar = chars.count bracket.openingChar

/-- No line ends where all brackets are closed. -/
def GoesOn (chars : List Char) : Prop :=
  ∀ front back, chars = front ++ '\n' :: back → ¬ IsEven front

/-- Every bracket that is closed was open: more of its kind were opened in front of it than
closed. -/
def IsOpened (chars : List Char) : Prop :=
  ∀ front back, ∀ bracket : Bracket, chars = front ++ bracket.closingChar :: back →
    front.count bracket.closingChar < front.count bracket.openingChar

/-- An expression at the beginning of a text ends with a line feed, and this stands behind it. -/
def ExpressionEnds (cs left : List Char) : Prop :=
  ∃ before more, visible cs = before ++ ('\n', left) :: more ∧ IsEven (before.map Prod.fst) ∧
    GoesOn (before.map Prod.fst)

/-- In an expression at the beginning of a text a bracket is the first one that is closed and not
open, and this stands behind it. -/
def UnopenedAt (cs : List Char) (bracket : Bracket) (left : List Char) : Prop :=
  ∃ before more, visible cs = before ++ (bracket.closingChar, left) :: more ∧
    (before.map Prod.fst).count bracket.openingChar ≤
      (before.map Prod.fst).count bracket.closingChar ∧
    IsOpened (before.map Prod.fst) ∧ GoesOn (before.map Prod.fst)

/-! ## Reading on -/

section Reading

variable {style : QuoteStyle} {c : Char} {cs word left : List Char}

theorem visibleFrom_eq (skip : Nat) (cs : List Char) :
    visibleFrom skip cs = visible (cs.drop skip) := by
  induction cs generalizing skip with
  | nil => cases skip <;> rfl
  | cons c cs ih =>
    cases skip with
    | zero => rfl
    | succ skip => exact ih skip

theorem visible_cons (h : hidden (c :: cs) = []) : visible (c :: cs) = (c, cs) :: visible cs := by
  rw [visible, visibleFrom, h]
  rfl

/-- What is hidden is left out. -/
theorem visible_drop_hidden (cs : List Char) :
    visible (cs.drop (hidden cs).length) = visible cs := by
  cases cs with
  | nil => rfl
  | cons c cs =>
    cases hlength : (hidden (c :: cs)).length with
    | zero => rfl
    | succ skip =>
      conv => rhs; rw [visible, visibleFrom, hlength]
      exact (visibleFrom_eq skip cs).symm

/-- The characters that mean something to an expression besides its tokens. -/
def marks : List Char :=
  ['\n', ';', '\\', '\x27', '"', '(', ')', '[', ']', '\x7b', '\x7d']

/-- A character that neither hides another nor ends an expression, and is no bracket. -/
def isInert (c : Char) : Bool :=
  !marks.contains c

/-- The characters of a class are inert if no mark is one of them. -/
theorem isInert_of_class {p : Char → Bool} (h : marks.all fun mark => !p mark) (hc : p c = true) :
    isInert c = true := by
  rw [isInert, Bool.not_eq_true', ← Bool.not_eq_true, List.contains_iff_mem]
  intro hmem
  have hnot := List.all_eq_true.1 h c hmem
  rw [hc] at hnot
  cases hnot

/-- A semicolon, a backslash or a quote. -/
def hides (c : Char) : Bool :=
  [';', '\\', '\x27', '"'].contains c

theorem hides_of_isInert (h : isInert c = true) : hides c = false := by
  simp only [isInert, marks, Bool.not_eq_true', List.contains_cons, Bool.or_eq_false_iff] at h
  simp only [hides, List.contains_cons, Bool.or_eq_false_iff]
  exact ⟨h.2.1, h.2.2.1, h.2.2.2.1, h.2.2.2.2.1, rfl⟩

theorem hidden_eq_nil (h : hides c = false) : hidden (c :: cs) = [] := by
  simp only [hides, List.contains_cons, Bool.or_eq_false_iff, beq_eq_false_iff_ne] at h
  obtain ⟨hremark, hback, hsingle, hdouble, -⟩ := h
  have hquotes : quotesAt? (c :: cs) = none := by
    rw [quotesAt?, List.find?_eq_none]
    intro style _
    obtain ⟨more, hmore⟩ := style.exists_quotes_eq_cons
    have hne : style.mark ≠ c := by
      cases style with
      | single | tripleSingle => exact Ne.symm hsingle
      | double | tripleDouble => exact Ne.symm hdouble
    simp [hmore, hne]
  unfold hidden
  split
  · next heq => exact absurd (List.cons.inj heq).1 hremark
  · next heq => exact absurd (List.cons.inj heq).1 hback
  · rw [hquotes]

theorem visible_of_not_hides (h : hides c = false) (cs : List Char) :
    visible (c :: cs) = (c, cs) :: visible cs :=
  visible_cons (hidden_eq_nil h)

/-- Inert characters are seen, and nothing else of them matters. -/
theorem visible_of_inert (h : ∀ c ∈ word, isInert c = true) (left : List Char) :
    ∃ seen, visible (word ++ left) = seen ++ visible left ∧
      ∀ spot ∈ seen, isInert spot.1 = true := by
  induction word with
  | nil => exact ⟨[], rfl, by simp⟩
  | cons c word ih =>
    obtain ⟨hc, hword⟩ := List.forall_mem_cons.1 h
    obtain ⟨seen, hseen, hinert⟩ := ih hword
    refine ⟨(c, word ++ left) :: seen, ?_, List.forall_mem_cons.2 ⟨hc, hinert⟩⟩
    rw [List.cons_append, visible_of_not_hides (hides_of_isInert hc), hseen, List.cons_append]

/-- A comment is left out up to the end of its line. -/
theorem visible_comment (cs : List Char) :
    visible (';' :: cs) = visible (cs.dropWhile (· ≠ '\n')) := by
  have hhidden : hidden (';' :: cs) = ';' :: cs.takeWhile (· ≠ '\n') := rfl
  have hsplit : cs.takeWhile (· ≠ '\n') ++ cs.dropWhile (· ≠ '\n') = cs :=
    List.takeWhile_append_dropWhile
  have hdrop : cs.drop (cs.takeWhile (· ≠ '\n')).length = cs.dropWhile (· ≠ '\n') :=
    (congrArg (List.drop _) hsplit.symm).trans List.drop_left
  rw [← visible_drop_hidden, hhidden, List.length_cons, List.drop_succ_cons, hdrop]

theorem visible_continuation (cs : List Char) : visible ('\\' :: '\n' :: cs) = visible cs :=
  (visible_drop_hidden ('\\' :: '\n' :: cs)).symm

/-! ## Strings -/

theorem quotesAt?_quotes (hsingle : style.isTriple = false → ¬ [style.mark, style.mark] <+: cs) :
    quotesAt? (style.quotes ++ cs) = some style := by
  cases style with
  | tripleSingle | tripleDouble => rfl
  | single | double =>
    have hno := hsingle rfl
    rw [← List.isPrefixOf_iff_prefix, Bool.not_eq_true] at hno
    simpa [quotesAt?, QuoteStyle.quotes, QuoteStyle.isTriple, QuoteStyle.mark, List.replicate,
      List.isPrefixOf] using hno

/-- Quotes hide what stands between them and the next ones. -/
theorem hidden_quotes (hsingle : style.isTriple = false → ¬ [style.mark, style.mark] <+: cs) :
    hidden (style.quotes ++ cs) =
      match untilQuotes? style.quotes cs with
      | none => style.quotes ++ cs
      | some content => style.quotes ++ content ++ style.quotes := by
  have hfirst : hidden (style.quotes ++ cs) =
      match quotesAt? (style.quotes ++ cs) with
      | none => []
      | some other =>
        match untilQuotes? other.quotes ((style.quotes ++ cs).drop other.quotes.length) with
        | none => style.quotes ++ cs
        | some content => other.quotes ++ content ++ other.quotes := by
    cases style <;> rfl
  rw [hfirst, quotesAt?_quotes hsingle]
  dsimp only
  rw [List.drop_left]

/-- Behind quotes a string is left out. -/
theorem visible_quotes (hsingle : style.isTriple = false → ¬ [style.mark, style.mark] <+: cs) :
    visible (style.quotes ++ cs) = visibleBehind style cs := by
  rw [← visible_drop_hidden, hidden_quotes hsingle, visibleBehind]
  cases untilQuotes? style.quotes cs with
  | none =>
    dsimp only
    rw [List.drop_length]
    rfl
  | some content =>
    simp only [List.length_append, Nat.add_assoc, List.drop_length_add_append]

example : (visible "(')' ; ]\n)\\\n\n".toList).map Prod.fst = "( \n)\n".toList := by decide

theorem visibleBehind_quotes (style : QuoteStyle) (cs : List Char) :
    visibleBehind style (style.quotes ++ cs) = visible cs := by
  simp only [visibleBehind, untilQuotes?_quotes, List.length_nil, Nat.zero_add, List.drop_left]

/-- A part of a string does not matter to what is seen behind it. -/
theorem IsPartOf.visibleBehind_eq {raw : Bool} {piece : Piece}
    (h : IsPartOf style raw piece word left) :
    visibleBehind style (word ++ left) = visibleBehind style left := by
  rw [visibleBehind, h.untilQuotes?_eq, visibleBehind]
  cases untilQuotes? style.quotes left with
  | none => rfl
  | some content =>
    simp only [Option.map_some, List.length_append, Nat.add_assoc, List.drop_length_add_append]

/-! ## Places -/

theorem length_lt_of_mem_visibleFrom {skip : Nat} (h : (c, left) ∈ visibleFrom skip cs) :
    left.length < cs.length := by
  induction cs generalizing skip with
  | nil => cases skip <;> cases h
  | cons d cs ih =>
    cases skip with
    | succ skip => exact Nat.lt_succ_of_lt (ih h)
    | zero =>
      rw [visibleFrom] at h
      split at h
      · rcases List.mem_cons.1 h with hfirst | hmore
        · obtain ⟨-, rfl⟩ := Prod.mk.inj hfirst
          exact Nat.lt_succ_self _
        · exact Nat.lt_succ_of_lt (ih hmore)
      · exact Nat.lt_succ_of_lt (ih h)

/-- What stands behind a character that is seen is a part of the text. -/
theorem length_lt_of_mem_visible (h : (c, left) ∈ visible cs) : left.length < cs.length :=
  length_lt_of_mem_visibleFrom h

theorem length_lt_of_mem_visibleBehind (h : (c, left) ∈ visibleBehind style cs) :
    left.length + 1 < cs.length := by
  unfold visibleBehind at h
  split at h
  · cases h
  · have hlt := length_lt_of_mem_visible h
    have hquotes : 0 < style.quotes.length := by cases style <;> decide
    rw [List.length_drop] at hlt
    omega

end Reading

end BlockLexer
