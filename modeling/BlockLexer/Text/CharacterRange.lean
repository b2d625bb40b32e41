/-!
# Ranges of characters

A class of characters is kept as a list of ranges of their numbers, with both ends
included.  `inRanges` looks a character up, and `ascending` says that the ranges
stand in order with a gap between any two of them, so that no list is longer than
the class needs.
-/

namespace BlockLexer.Text

/-- Whether a character lies in one of some ranges. -/
def inRanges (ranges : List (Nat × Nat)) (c : Char) : Bool :=
  ranges.any fun r => r.1 ≤ c.toNat && c.toNat ≤ r.2

/-- Whether each range has its ends in order and ends before the one behind it. -/
def ascending : List (Nat × Nat) → Bool
  | [] => true
  | [r] => r.1 ≤ r.2
  | r :: s :: more => r.1 ≤ r.2 && r.2 + 1 < s.1 && ascending (s :: more)

@[simp] theorem inRanges_nil (c : Char) : inRanges [] c = false := rfl

@[simp] theorem inRanges_cons (r : Nat × Nat) (ranges : List (Nat × Nat)) (c : Char) :
    inRanges (r :: ranges) c = (r.1 ≤ c.toNat && c.toNat ≤ r.2 || inRanges ranges c) := by
  simp [inRanges]

end BlockLexer.Text
