import BlockLexer.Text.Basic

/-!
# How a regular expression is read

Flags inside an expression change how what follows is read: whether it is about
characters or about bytes, and whether white space and comments in it are passed
over.  `skip` passes them over, and `peek` looks at what comes behind a character.

`nesting` counts how deep an expression is nested: parts that stand side by side make
one level more, and a part alone makes none.
-/

namespace BlockLexer.Regular

open Text

/-- How an expression is read. -/
structure Setting where
  /-- Whether classes and word boundaries are those of Unicode. -/
  unicode : Bool := true
  /-- Whether white space and comments are passed over. -/
  spaced : Bool := false
deriving DecidableEq

/-- A text without the white space and the comments in front.  A comment goes from a
number sign to the end of its line, and `inComment` holds inside one. -/
def skipSpace : (inComment : Bool) → List Char → List Char
  | _, [] => []
  | true, c :: cs => skipSpace (c ≠ '\n') cs
  | false, c :: cs =>
    if isSpace c then skipSpace false cs
    else if c = '#' then skipSpace true cs
    else c :: cs

/-- A text without what is passed over at its beginning. -/
def skip (setting : Setting) (cs : List Char) : List Char :=
  if setting.spaced then skipSpace false cs else cs

/-- The next character that counts.  Of a comment the sign is passed over, but not the
text. -/
def peek (setting : Setting) (cs : List Char) : Option Char :=
  if setting.spaced then
    match cs.dropWhile isSpace with
    | '#' :: more => (more.dropWhile isSpace).head?
    | more => more.head?
  else cs.head?

/-- How deep parts are nested that stand side by side. -/
def nesting : List Nat → Nat
  | [] => 0
  | [depth] => depth
  | depth :: depths => depths.foldl max depth + 1

@[simp] theorem skip_nil (setting : Setting) : skip setting [] = [] := by
  unfold skip
  split <;> simp [skipSpace]

/-- What is left has no more characters than before. -/
theorem length_skipSpace_le (inComment : Bool) (cs : List Char) :
    (skipSpace inComment cs).length ≤ cs.length := by
  induction cs generalizing inComment with
  | nil => cases inComment <;> simp [skipSpace]
  | cons c cs ih =>
    cases inComment with
    | true => exact Nat.le_succ_of_le (ih _)
    | false =>
      rw [skipSpace]
      split
      · exact Nat.le_succ_of_le (ih _)
      · split
        · exact Nat.le_succ_of_le (ih _)
        · exact Nat.le_refl _

end BlockLexer.Regular
