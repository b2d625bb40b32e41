import BlockLexer.Assembly

/-!
# The checked stream

The last stage drops blanks and line ends, refuses neighbours that clash, and
checks the indentation of every attribute against its block.
-/

namespace BlockLexer

/-- The state of the checked stream. -/
structure Stream where
  assembly : Assembly
  /-- The kind of the token before. -/
  previous : Option Kind := none
  /-- Whether the stream has come to a fault. -/
  isDone : Bool := false

namespace Stream

variable (table : LineTable)

/-- The stream of a text from its beginning. -/
def ofText (cs : List Char) : Stream :=
  { assembly := { scan := .ofText cs } }

/-- The fault of a token, at its place. -/
def faultAt (token : Token) (cause : Cause) : Fault :=
  { cause, line := token.span.line, column := token.span.column }

/-- The open blocks behind a token, or why it is refused: because of the token in
front of it, or because it is an attribute in the wrong column. -/
def check (previous : Option Kind) (blocks : BlockStack) (token : Token) :
    Except Fault BlockStack :=
  match previous.bind fun kind => (kind.clash? token.kind).map fun clash => (clash, kind) with
  | some (clash, kind) => .error (faultAt token (.adjacency clash kind token.kind))
  | none =>
    if token.kind = .attributeName then
      match blocks.checkMember (table.indentOf token.span.line) with
      | .ok blocks => .ok blocks
      | .error cause => .error (faultAt token cause)
    else .ok blocks

/-- One pull: the next token that is not filtered. -/
def next (s : Stream) : Stream × Option (Except Fault Token) :=
  if s.isDone then (s, none)
  else
    match _ : s.assembly.next table with
    | (assembly, none) => ({ s with assembly }, none)
    | (assembly, some (.error fault)) => ({ s with assembly, isDone := true }, some (.error fault))
    | (assembly, some (.ok token)) =>
      if token.kind.isFiltered then next { s with assembly }
      else
        match check table s.previous assembly.scan.blocks token with
        | .error fault => ({ s with assembly, isDone := true }, some (.error fault))
        | .ok blocks =>
          let scan := { assembly.scan with blocks }
          ({ s with assembly := { assembly with scan }, previous := some token.kind },
            some (.ok token))
termination_by s.assembly.remaining
decreasing_by exact Assembly.next_remaining_lt table ‹_›

/-- A bound on the items that a stream may still yield. -/
def remaining (s : Stream) : Nat :=
  if s.isDone then 0 else s.assembly.remaining

/-- A pull that yields something comes nearer to the end. -/
theorem next_remaining_lt {s s' : Stream} {item : Except Fault Token}
    (h : s.next table = (s', some item)) : s'.remaining < s.remaining := by
  fun_induction next table s with
  | case1 => simp at h
  | case2 => simp at h
  | case3 s hdone assembly fault hpull =>
    have hlt := Assembly.next_remaining_lt table hpull
    have hdone' : s.isDone = false := by simpa using hdone
    simp only [Prod.mk.injEq] at h
    rw [← h.1]
    simp only [remaining, if_true, hdone', Bool.false_eq_true, if_false]
    omega
  | case4 s hdone assembly token hpull _ ih =>
    have hlt := Assembly.next_remaining_lt table hpull
    have hdone' : s.isDone = false := by simpa using hdone
    have hrec := ih h
    simp only [remaining, hdone', Bool.false_eq_true, if_false] at hrec ⊢
    exact Nat.lt_trans hrec hlt
  | case5 s hdone assembly token hpull _ fault _ =>
    have hlt := Assembly.next_remaining_lt table hpull
    have hdone' : s.isDone = false := by simpa using hdone
    simp only [Prod.mk.injEq] at h
    rw [← h.1]
    simp only [remaining, if_true, hdone', Bool.false_eq_true, if_false]
    omega
  | case6 s hdone assembly token hpull _ blocks _ scan =>
    have hlt := Assembly.next_remaining_lt table hpull
    have hdone' : s.isDone = false := by simpa using hdone
    simp only [Prod.mk.injEq] at h
    rw [← h.1]
    simpa [remaining, hdone', Assembly.remaining, Scan.remaining, scan] using hlt

/-- The checked stream as a stage. -/
def stage : Stage Stream Token where
  next := next table
  remaining := remaining
  remaining_lt := next_remaining_lt table

end Stream

end BlockLexer
