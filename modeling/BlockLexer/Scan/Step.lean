import BlockLexer.Scan.Action
import BlockLexer.Stage

/-!
# Steps of a scan

A step matches one rule, lets it act, and moves behind the match.  `Scan.next`
takes steps until one yields a piece or a fault.

* `Scan.act_rest`, `Scan.act_position` and `Scan.act_isDone` say that an action
  does not move the scan;
* `Scan.step_quiet` says that a step that yields nothing leaves less
  text, which is why `Scan.next` ends;
* `Scan.stage` is the scan as a stage.
-/

namespace BlockLexer.Scan

variable (table : LineTable)

/-! ## Faults between matches -/

/-- The fault where no rule takes the next character. -/
def stuck (c : Char) (s : Scan) : Fault :=
  match s.modes with
  | .string style _ _ _ :: _ =>
    if c = '\n' && !style.isTriple then s.fault .lineEndInString
    else s.fault (.illegalCharacter c)
  | _ => s.fault (.illegalCharacter c)

/-- A fault behind the last character of the last line. -/
def faultAtEnd (cause : Cause) : Fault :=
  let line := max table.size 1
  { cause, line, column := (table.get? line).elim 1 fun last => last.chars.length + 1 }

/-- The innermost block, for the fault of a missing `end`. -/
def innermostBlock (s : Scan) : Option (List Char × Nat) :=
  s.blocks.head?.map fun frame => (frame.owner, frame.line)

/-- What the end of the text yields.  Everything that was opened must be closed. -/
def finish (s : Scan) : Except Fault Piece :=
  match s.modes with
  | [] => .ok (s.token .endOfText .nothing [])
  | .string _ _ line column :: _ => .error { cause := .textEndInString, line, column }
  | .body body :: _ => .error { cause := .textEndInBody, line := body.marker, column := 1 }
  | .expression brackets :: _ =>
    if brackets.isBalanced then .error (faultAtEnd table (.missingEnd s.innermostBlock))
    else .error (faultAtEnd table .textEndInBracket)
  | .block :: _ => .error (faultAtEnd table (.missingEnd s.innermostBlock))

/-! ## One step -/

/-- One step, and what it yields if it yields something. -/
def step (s : Scan) : Scan × Option (Except Fault Piece) :=
  match s.rest with
  | [] => ({ s with isDone := true }, some (s.finish table))
  | c :: _ =>
    match s.mode.select s.rest with
    | none => ({ s with isDone := true }, some (.error (s.stuck c)))
    | some (rule, m) =>
      let event := .ruleMatched rule s.mode s.position.line s.position.column
      let acted := (s.report event).act table rule m
      let moved := acted.1.advance m.lexeme
      match acted.2 with
      | .ok none => (moved, none)
      | .ok (some piece) => (moved.note piece, some (.ok piece))
      | .error fault => ({ moved with isDone := true }, some (.error fault))

/-! ## Actions do not move -/

/-- The part of a state that actions leave alone. -/
def place (s : Scan) : List Char × Position × Bool :=
  (s.rest, s.position, s.isDone)

@[simp] theorem place_report (event : Event) (s : Scan) : (s.report event).place = s.place := rfl

@[simp] theorem place_push (activation : Activation) (s : Scan) :
    (s.push activation).place = s.place := rfl

@[simp] theorem place_pop (s : Scan) : s.pop.place = s.place := rfl

@[simp] theorem place_pushFrame (frame : Frame) (s : Scan) :
    (s.pushFrame frame).place = s.place := rfl

@[simp] theorem place_note (piece : Piece) (s : Scan) : (s.note piece).place = s.place := by
  unfold note
  split <;> rfl

theorem place_takeName (m : Match) (s : Scan) : (s.takeName m).1.place = s.place := by
  unfold takeName
  split <;> rfl

/-- An action leaves the rest of the text, the place in it, and the end mark alone. -/
theorem place_act (rule : Rule) (m : Match) (s : Scan) :
    (s.act table rule m).1.place = s.place := by
  cases rule <;> simp only [act] <;> try rfl
  case className =>
    unfold openBlock
    split
    · exact place_takeName m s
    · dsimp only
      split <;> rfl
  case instanceName => exact place_takeName m s
  case blockEnd =>
    unfold closeBlock
    split
    · rfl
    · dsimp only
      split <;> rfl
  case attributeName => unfold openAttribute; dsimp only; split <;> rfl
  case bodyMarker =>
    unfold openBody
    split
    · rfl
    · split <;> rfl
  case headerNewline => unfold endBlockLine; dsimp only; split <;> rfl
  case bodyLine =>
    unfold takeBodyLine
    split
    · split <;> rfl
    · rfl
  case imaginary => unfold takeDouble; split <;> rfl
  case float => unfold takeDouble; split <;> rfl
  case hex => unfold takeInteger; dsimp only; split <;> rfl
  case octal => unfold takeInteger; dsimp only; split <;> rfl
  case binary => unfold takeInteger; dsimp only; split <;> rfl
  case integer => unfold takeInteger; dsimp only; split <;> rfl
  case identifier =>
    unfold takeIdentifier
    dsimp only
    repeat' split
    all_goals rfl
  case bracket =>
    unfold takeBracket
    split
    · split <;> rfl
    · rfl
  case expressionNewline =>
    unfold endExpressionLine
    dsimp only
    split
    · dsimp only
      split <;> rfl
    · rfl

theorem act_rest (rule : Rule) (m : Match) (s : Scan) : (s.act table rule m).1.rest = s.rest :=
  congrArg (·.1) (place_act table rule m s)

theorem act_position (rule : Rule) (m : Match) (s : Scan) :
    (s.act table rule m).1.position = s.position :=
  congrArg (·.2.1) (place_act table rule m s)

theorem act_isDone (rule : Rule) (m : Match) (s : Scan) :
    (s.act table rule m).1.isDone = s.isDone :=
  congrArg (·.2.2) (place_act table rule m s)

/-! ## Progress -/

/-- A bound on the items that a scan may still yield. -/
def remaining (s : Scan) : Nat :=
  if s.isDone then 0 else s.rest.length + 1

/-- Behind a match there is less text. -/
theorem advance_rest_length_lt (s : Scan) {lexeme : List Char} (hs : s.rest ≠ [])
    (hl : lexeme ≠ []) : (s.advance lexeme).rest.length < s.rest.length := by
  have h1 := List.length_pos_iff.mpr hs
  have h2 := List.length_pos_iff.mpr hl
  simp only [advance, List.length_drop]
  omega

/-- A step that yields nothing leaves less text and does not end the scan. -/
theorem step_quiet {s s' : Scan} (h : s.step table = (s', none)) :
    s'.rest.length < s.rest.length ∧ s'.isDone = s.isDone := by
  unfold step at h
  split at h
  · simp at h
  · next c cs hrest =>
    split at h
    · simp at h
    · next rule m hsel =>
      dsimp only at h
      split at h
      · simp only [Prod.mk.injEq, and_true] at h
        subst h
        constructor
        · have hlt := advance_rest_length_lt
            ((s.report (.ruleMatched rule s.mode s.position.line
              s.position.column)).act table rule m).1
            (by rw [act_rest]; simp [report, hrest]) (Mode.select_lexeme_ne_nil hsel)
          rw [act_rest] at hlt
          exact hlt
        · exact act_isDone table rule m _
      · simp at h
      · simp at h

/-- A step that yields something comes nearer to the end. -/
theorem step_remaining_lt {s s' : Scan} {item : Except Fault Piece} (hs : s.isDone = false)
    (h : s.step table = (s', some item)) : s'.remaining < s.remaining := by
  unfold step at h
  split at h
  · simp only [Prod.mk.injEq] at h
    simp [← h.1, remaining, hs]
  · next c cs hrest =>
    split at h
    · simp only [Prod.mk.injEq] at h
      simp [← h.1, remaining, hs]
    · next rule m hsel =>
      dsimp only at h
      split at h
      · simp at h
      · next piece _ =>
        simp only [Prod.mk.injEq] at h
        rw [← h.1]
        have hplace := place_note piece (advance m.lexeme
          ((s.report (.ruleMatched rule s.mode s.position.line
            s.position.column)).act table rule m).1)
        have hlt := advance_rest_length_lt
          ((s.report (.ruleMatched rule s.mode s.position.line
            s.position.column)).act table rule m).1
          (by rw [act_rest]; simp [report, hrest]) (Mode.select_lexeme_ne_nil hsel)
        rw [act_rest] at hlt
        have hrest' := congrArg (·.1) hplace
        simp only [place] at hrest'
        unfold remaining
        rw [hrest', hs]
        have : (s.report (.ruleMatched rule s.mode s.position.line
          s.position.column)).rest = s.rest := rfl
        rw [this] at hlt
        rw [if_neg Bool.false_ne_true]
        split <;> omega
      · simp only [Prod.mk.injEq] at h
        simp [← h.1, remaining, hs]

/-! ## Pulling pieces -/

/-- Steps until one yields a piece or a fault.  Behind the end and behind a fault
nothing is yielded. -/
def next (s : Scan) : Scan × Option (Except Fault Piece) :=
  if s.isDone then (s, none)
  else
    match _ : s.step table with
    | (s', some item) => (s', some item)
    | (s', none) => s'.next
termination_by s.rest.length
decreasing_by exact (step_quiet table ‹_›).1

theorem next_of_isDone {s : Scan} (h : s.isDone = true) : s.next table = (s, none) := by
  rw [next, if_pos h]

theorem next_of_step_some {s s' : Scan} {item : Except Fault Piece} (hs : s.isDone = false)
    (h : s.step table = (s', some item)) : s.next table = (s', some item) := by
  rw [next, if_neg (by simp [hs])]
  split <;> simp_all

theorem next_of_step_none {s s' : Scan} (hs : s.isDone = false)
    (h : s.step table = (s', none)) : s.next table = s'.next table := by
  rw [next, if_neg (by simp [hs])]
  split <;> simp_all

/-- A pull that yields something comes nearer to the end. -/
theorem next_remaining_lt {s s' : Scan} {item : Except Fault Piece}
    (h : s.next table = (s', some item)) : s'.remaining < s.remaining := by
  fun_induction next table s with
  | case1 => simp at h
  | case2 s hdone t it hstep =>
    simp only [Prod.mk.injEq, Option.some.injEq] at h
    rw [← h.1]
    exact step_remaining_lt table (by simpa using hdone) hstep
  | case3 s hdone t hstep ih =>
    have hlt := ih h
    have hq := step_quiet table hstep
    have hdone' : s.isDone = false := by simpa using hdone
    unfold remaining at hlt ⊢
    rw [hq.2, hdone'] at hlt
    rw [hdone']
    simp only [Bool.false_eq_true, if_false] at hlt ⊢
    omega

/-- The scan as a stage. -/
def stage : Stage Scan Piece where
  next := next table
  remaining := remaining
  remaining_lt := next_remaining_lt table

end BlockLexer.Scan
