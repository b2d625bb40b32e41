import BlockLexer.Text.Basic

/-!
# Line ends

A text may end its lines with CR LF, with CR or with LF.  `normalizeNewlines`
writes each of the three as one LF and closes the last line, so that the stages
behind it see one line end only.  `unlines_splitLines` ties closing the last line
to the cut of a text into lines.
-/

namespace BlockLexer.Text

/-- CR LF pairs become LF.  A CR before a CR LF pair stays. -/
def joinCrLf : List Char → List Char
  | '\r' :: '\n' :: cs => '\n' :: joinCrLf cs
  | c :: cs => c :: joinCrLf cs
  | [] => []

/-- A text that is not empty gets a line feed at its end unless it has one. -/
def closeLastLine (cs : List Char) : List Char :=
  match cs.getLast? with
  | none => []
  | some c => if c = '\n' then cs else cs ++ ['\n']

/-- CR LF pairs become LF, every CR that is left becomes LF, and the last line
is closed. -/
def normalizeNewlines (cs : List Char) : List Char :=
  closeLastLine ((joinCrLf cs).map fun c => if c = '\r' then '\n' else c)

/-! ## The last line -/

theorem closeLastLine_cons_cons (c d : Char) (cs : List Char) :
    closeLastLine (c :: d :: cs) = c :: closeLastLine (d :: cs) := by
  unfold closeLastLine
  rw [List.getLast?_cons_cons]
  cases hl : (d :: cs).getLast? with
  | none => simp at hl
  | some last => dsimp only; split <;> rfl

/-- Cut into lines and written again, a text has its last line closed. -/
theorem unlines_splitLines (cs : List Char) : unlines (splitLines cs) = closeLastLine cs := by
  induction cs with
  | nil => rfl
  | cons c cs ih =>
    cases cs with
    | nil =>
      by_cases hc : c = '\n'
      · subst hc; rfl
      · simp [consLine, closeLastLine, hc]
    | cons d ds =>
      rw [closeLastLine_cons_cons, ← ih, splitLines_cons c]
      unfold consLine
      split
      · next hc => rw [unlines_cons, hc]; rfl
      · cases hl : splitLines (d :: ds) with
        | nil =>
          rw [splitLines_cons] at hl
          unfold consLine at hl
          repeat' split at hl
          all_goals exact absurd hl (List.cons_ne_nil _ _)
        | cons line lines => simp

end BlockLexer.Text
