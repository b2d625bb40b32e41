import BlockLexer.Scan.Step

/-!
# String literals

A scan yields a string in parts.  This stage joins the parts into one token and
applies the letter in front of the quotes.

* `Assembly.parts` pulls the parts of a string and joins them;
* `Assembly.literal` is the token of a string that is complete;
* `Assembly.stage` passes all other pieces on.
-/

namespace BlockLexer

open Text

/-- The state of the assembly of strings. -/
structure Assembly where
  scan : Scan
  /-- Whether the assembly has come to a fault of its own. -/
  isDone : Bool := false

/-- The number that hexadecimal digits denote.  A plus sign may stand in front. -/
def readHex? (cs : List Char) : Option Nat :=
  let digits := match cs with
    | '+' :: ds => ds
    | ds => ds
  if digits.isEmpty || !digits.all Decimal.isHexDigit then none
  else some (Decimal.natOfDigits 16 digits)

/-- The character of a code point in hexadecimal digits. -/
def readCodePoint? (cs : List Char) : Option Char :=
  (readHex? (trim cs)).bind fun n =>
    if h : n.isValidChar then some (Char.ofNatAux n h) else none

namespace Assembly

variable (table : LineTable)

/-- The fault of a string that does not end, at its beginning. -/
def unclosed (start : Piece) : Fault :=
  { cause := .textEndInString, line := start.span.line, column := start.span.column }

/-- What a part adds to a string.  Behind a backslash at the end of a line the
blanks of the source are left out. -/
def chunk (afterBreak : Bool) (piece : Piece) : List Char :=
  let chars := piece.value.chars?.getD []
  match piece.kind with
  | .stringText => if afterBreak then chars.dropWhile isBlank else chars
  | .stringEscape => chars
  | _ => []

/-- Pulls the parts of a string up to its end: the text of the parts, and the last
piece.  `afterBreak` holds if the part before was a backslash at the end of a line. -/
def parts (start : Piece) (afterBreak : Bool) (s : Scan) :
    Scan × Except Fault (List Char × Piece) :=
  match _ : s.next table with
  | (s', none) => (s', .error (unclosed start))
  | (s', some (.error fault)) => (s', .error fault)
  | (s', some (.ok piece)) =>
    match piece.kind with
    | .stringText | .stringEscape | .stringLineBreak =>
      let (last, rest) := parts start (piece.kind = .stringLineBreak) s'
      (last, rest.map fun (text, stop) => (chunk afterBreak piece ++ text, stop))
    | .stringEnd => (s', .ok ([], piece))
    | .token _ | .stringStart _ _ => (s', .error (unclosed start))
termination_by s.remaining
decreasing_by exact Scan.next_remaining_lt table ‹_›

/-- The text of a string by the letter in front of its quotes. -/
def applyLetter (letter text : List Char) : Except Cause (List Char) :=
  match letter.map Char.toLower with
  | [] | ['r'] | ['b'] => .ok text
  | ['u'] =>
    match readCodePoint? text with
    | some c => .ok [c]
    | none => .error (.invalidCodePoint text)
  | _ => .error (.unknownQuoteLetter letter)

/-- The token of a complete string.  A string of one line reports the line on which
it ends, all others the line on which they begin. -/
def literal (style : QuoteStyle) (start stop : Piece) (text : List Char) : Except Fault Token :=
  match applyLetter (start.value.chars?.getD []) text with
  | .error cause =>
    .error { cause, line := start.span.line, column := start.span.column }
  | .ok value =>
    .ok
      { kind := .string
        value := .text value
        span :=
          { start := start.span.start
            stop := stop.span.stop
            line := if style.isTriple then start.span.line else stop.span.line
            column := start.span.column } }

/-- The event of a string that was joined. -/
def joinedEvent (token : Token) : Event :=
  .stringJoined token.span.line (byteSize (token.value.chars?.getD []))

/-- The token that begins with a piece, and the scan behind it. -/
def tokenOf (piece : Piece) (s : Scan) : Scan × Except Fault Token :=
  match piece.kind with
  | .token kind => (s, .ok { kind, value := piece.value, span := piece.span })
  | .stringStart style _ =>
    match parts table piece false s with
    | (s', .error fault) => (s', .error fault)
    | (s', .ok (text, stop)) =>
      match literal style piece stop text with
      | .error fault => (s', .error fault)
      | .ok token => (s'.report (joinedEvent token), .ok token)
  | .stringText | .stringEscape | .stringLineBreak | .stringEnd =>
    (s, .error
      { cause := .strayFragment, line := piece.span.line, column := piece.span.column })

/-- One pull: the next piece, or a whole string. -/
def next (a : Assembly) : Assembly × Option (Except Fault Token) :=
  if a.isDone then (a, none)
  else
    match a.scan.next table with
    | (s, none) => ({ a with scan := s }, none)
    | (s, some (.error fault)) => ({ a with scan := s }, some (.error fault))
    | (s, some (.ok piece)) =>
      match tokenOf table piece s with
      | (s, .ok token) => ({ a with scan := s }, some (.ok token))
      | (s, .error fault) => ({ scan := s, isDone := true }, some (.error fault))

/-! ## Progress -/

/-- A bound on the items that an assembly may still yield. -/
def remaining (a : Assembly) : Nat :=
  if a.isDone then 0 else a.scan.remaining

/-- A pull does not add to what is left. -/
theorem next_remaining_le {s s' : Scan} {item : Option (Except Fault Piece)}
    (h : s.next table = (s', item)) : s'.remaining ≤ s.remaining := by
  cases item with
  | some item => exact Nat.le_of_lt (Scan.next_remaining_lt table h)
  | none =>
    fun_induction Scan.next table s with
    | case1 s _ =>
      simp only [Prod.mk.injEq, and_true] at h
      exact Nat.le_of_eq (congrArg Scan.remaining h.symm)
    | case2 => simp at h
    | case3 s hdone t hstep ih =>
      refine Nat.le_trans (ih h) ?_
      have hq := Scan.step_quiet table hstep
      unfold Scan.remaining
      rw [hq.2]
      split <;> omega

theorem parts_remaining_le (start : Piece) (afterBreak : Bool) (s : Scan) :
    (parts table start afterBreak s).1.remaining ≤ s.remaining := by
  fun_induction parts table start afterBreak s with
  | case1 _ _ _ h => exact next_remaining_le table h
  | case2 _ _ _ _ h => exact next_remaining_le table h
  | case3 _ _ _ _ h _ last rest hrec ih =>
    rw [hrec] at ih
    exact Nat.le_trans ih (next_remaining_le table h)
  | case4 _ _ _ _ h _ last rest hrec ih =>
    rw [hrec] at ih
    exact Nat.le_trans ih (next_remaining_le table h)
  | case5 _ _ _ _ h _ last rest hrec ih =>
    rw [hrec] at ih
    exact Nat.le_trans ih (next_remaining_le table h)
  | case6 _ _ _ _ h => exact next_remaining_le table h
  | case7 _ _ _ _ h => exact next_remaining_le table h
  | case8 _ _ _ _ h => exact next_remaining_le table h

theorem tokenOf_remaining_le (piece : Piece) (s : Scan) :
    (tokenOf table piece s).1.remaining ≤ s.remaining := by
  unfold tokenOf
  split
  · exact Nat.le_refl _
  · have h := parts_remaining_le table piece false s
    split
    · next hp => rw [hp] at h; exact h
    · next hp =>
      rw [hp] at h
      split
      · exact h
      · exact h
  all_goals exact Nat.le_refl _

/-- A pull that yields something comes nearer to the end. -/
theorem next_remaining_lt {a a' : Assembly} {item : Except Fault Token}
    (h : a.next table = (a', some item)) : a'.remaining < a.remaining := by
  unfold next at h
  split at h
  · simp at h
  · next hdone =>
    have hdone' : a.isDone = false := by simpa using hdone
    split at h
    · simp at h
    · next s fault hscan =>
      simp only [Prod.mk.injEq] at h
      rw [← h.1]
      simpa [remaining, hdone'] using Scan.next_remaining_lt table hscan
    · next s piece hscan =>
      have hlt := Scan.next_remaining_lt table hscan
      have hle := tokenOf_remaining_le table piece s
      split at h
      · next htok =>
        simp only [Prod.mk.injEq] at h
        rw [htok] at hle
        rw [← h.1]
        simpa [remaining, hdone'] using Nat.lt_of_le_of_lt hle hlt
      · simp only [Prod.mk.injEq] at h
        rw [← h.1]
        simp only [remaining, if_true, hdone', Bool.false_eq_true, if_false]
        omega

/-- The assembly of strings as a stage. -/
def stage : Stage Assembly Token where
  next := next table
  remaining := remaining
  remaining_lt := next_remaining_lt table

end Assembly

end BlockLexer
