import BlockLexer.Text.Basic

/-!
# Patterns

A pattern takes a beginning of a text.  The patterns of the notation never have
to give back a character that they took, so the answer is one cut of the text
and not a list of them.

* `one`, `many`, `many1`, `word`, `wordCaseless`, `nothing`, `notBefore` are the
  basic patterns;
* `seq`, `orElse`, `optional` combine them;
* `IsCut` says that what is taken and what is left make up the text, and every
  pattern built from the above is a cut.
-/

namespace BlockLexer

open Text

/-- A pattern takes a beginning of a text: the answer is what it took and what is
left. -/
abbrev Pattern := List Char → Option (List Char × List Char)

namespace Pattern

/-- Takes no character. -/
def nothing : Pattern := fun cs => some ([], cs)

/-- Takes one character of a class. -/
def one (p : Char → Bool) : Pattern
  | c :: cs => if p c then some ([c], cs) else none
  | [] => none

/-- Takes all characters of a class that follow one another. -/
def many (p : Char → Bool) : Pattern := fun cs =>
  some (cs.takeWhile p, cs.dropWhile p)

/-- Takes all characters of a class that follow one another, at least one. -/
def many1 (p : Char → Bool) : Pattern := fun cs =>
  if (cs.takeWhile p).isEmpty then none else some (cs.takeWhile p, cs.dropWhile p)

/-- Takes this word. -/
def word (w : List Char) : Pattern := fun cs =>
  if cs.take w.length = w then some (cs.take w.length, cs.drop w.length) else none

/-- Takes this word in any case. -/
def wordCaseless (w : List Char) : Pattern := fun cs =>
  if equalsCaseless (cs.take w.length) w then some (cs.take w.length, cs.drop w.length) else none

/-- Takes no character, unless the next one is of a class. -/
def notBefore (p : Char → Bool) : Pattern
  | [] => some ([], [])
  | c :: cs => if p c then none else some ([], c :: cs)

/-- Takes what the first pattern takes and behind it what the second takes. -/
def seq (a b : Pattern) : Pattern := fun cs =>
  match a cs with
  | none => none
  | some (x, cs) =>
    match b cs with
    | none => none
    | some (y, cs) => some (x ++ y, cs)

/-- Takes what the first pattern takes, or else what the second takes. -/
def orElse (a b : Pattern) : Pattern := fun cs =>
  match a cs with
  | some cut => some cut
  | none => b cs

/-- Takes what the pattern takes, or else nothing. -/
def optional (a : Pattern) : Pattern :=
  a.orElse nothing

/-! ## Nothing is lost -/

/-- What a pattern takes and what it leaves make up the text. -/
def IsCut (a : Pattern) : Prop :=
  ∀ cs x rest, a cs = some (x, rest) → cs = x ++ rest

theorem isCut_nothing : IsCut nothing := by
  intro cs x rest h
  simp only [nothing, Option.some.injEq, Prod.mk.injEq] at h
  simp [← h.1, ← h.2]

theorem isCut_one (p : Char → Bool) : IsCut (one p) := by
  intro cs x rest h
  cases cs with
  | nil => simp [one] at h
  | cons c cs =>
    simp only [one, Option.ite_none_right_eq_some, Option.some.injEq, Prod.mk.injEq] at h
    simp [← h.2.1, ← h.2.2]

theorem isCut_many (p : Char → Bool) : IsCut (many p) := by
  intro cs x rest h
  simp only [many, Option.some.injEq, Prod.mk.injEq] at h
  rw [← h.1, ← h.2, List.takeWhile_append_dropWhile]

theorem isCut_many1 (p : Char → Bool) : IsCut (many1 p) := by
  intro cs x rest h
  simp only [many1, Option.ite_none_left_eq_some, Option.some.injEq, Prod.mk.injEq] at h
  rw [← h.2.1, ← h.2.2, List.takeWhile_append_dropWhile]

theorem isCut_word (w : List Char) : IsCut (word w) := by
  intro cs x rest h
  simp only [word, Option.ite_none_right_eq_some, Option.some.injEq, Prod.mk.injEq] at h
  rw [← h.2.1, ← h.2.2, List.take_append_drop]

theorem isCut_wordCaseless (w : List Char) : IsCut (wordCaseless w) := by
  intro cs x rest h
  simp only [wordCaseless, Option.ite_none_right_eq_some, Option.some.injEq, Prod.mk.injEq] at h
  rw [← h.2.1, ← h.2.2, List.take_append_drop]

theorem isCut_notBefore (p : Char → Bool) : IsCut (notBefore p) := by
  intro cs x rest h
  cases cs with
  | nil =>
    simp only [notBefore, Option.some.injEq, Prod.mk.injEq] at h
    simp [← h.1, ← h.2]
  | cons c cs =>
    simp only [notBefore, Option.ite_none_left_eq_some, Option.some.injEq, Prod.mk.injEq] at h
    simp [← h.2.1, ← h.2.2]

theorem IsCut.seq {a b : Pattern} (ha : IsCut a) (hb : IsCut b) : IsCut (a.seq b) := by
  intro cs x rest h
  unfold Pattern.seq at h
  split at h
  · simp at h
  · next y cs' hy =>
    split at h
    · simp at h
    · next z cs'' hz =>
      simp only [Option.some.injEq, Prod.mk.injEq] at h
      rw [ha _ _ _ hy, hb _ _ _ hz, ← h.1, ← h.2, List.append_assoc]

theorem IsCut.orElse {a b : Pattern} (ha : IsCut a) (hb : IsCut b) : IsCut (a.orElse b) := by
  intro cs x rest h
  unfold Pattern.orElse at h
  split at h
  · next cut hcut =>
    simp only [Option.some.injEq] at h
    exact ha _ _ _ (h ▸ hcut)
  · exact hb _ _ _ h

theorem IsCut.optional {a : Pattern} (ha : IsCut a) : IsCut a.optional :=
  ha.orElse isCut_nothing

end Pattern

end BlockLexer
