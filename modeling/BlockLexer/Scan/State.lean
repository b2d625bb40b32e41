import BlockLexer.Block
import BlockLexer.Event
import BlockLexer.Rule

/-!
# The state of a scan

* `Position` is a place in a text and moves over characters;
* `Piece` is what a scan yields: a token, or a part of a string;
* `Scan` is the state between two matches.  Nothing in it refers to the line
  table, which stays the same for the whole scan and is given to the functions
  that look into it.
-/

namespace BlockLexer

open Text

/-! ## Positions -/

/-- A place in a text.  Bytes count from zero, lines and columns from one. -/
structure Position where
  offset : Nat := 0
  line : Nat := 1
  column : Nat := 1
deriving DecidableEq

/-- The place behind a character. -/
def Position.next (p : Position) (c : Char) : Position :=
  if c = '\n' then { offset := p.offset + c.utf8Size, line := p.line + 1, column := 1 }
  else { p with offset := p.offset + c.utf8Size, column := p.column + 1 }

/-- The place behind some characters. -/
def Position.after (p : Position) (cs : List Char) : Position :=
  cs.foldl Position.next p

@[simp] theorem Position.after_nil (p : Position) : p.after [] = p := rfl

theorem Position.after_append (p : Position) (cs ds : List Char) :
    p.after (cs ++ ds) = (p.after cs).after ds := by
  simp [Position.after]

/-- The bytes passed are the bytes of the characters. -/
theorem Position.offset_after (p : Position) (cs : List Char) :
    (p.after cs).offset = p.offset + byteSize cs := by
  induction cs generalizing p with
  | nil => simp
  | cons c cs ih =>
    have h : p.after (c :: cs) = (p.next c).after cs := rfl
    have hn : (p.next c).offset = p.offset + c.utf8Size := by
      unfold Position.next
      split <;> rfl
    rw [h, ih, hn, byteSize_cons, Nat.add_assoc]

/-- The lines passed are those that the characters end. -/
theorem Position.line_after (p : Position) (cs : List Char) :
    (p.after cs).line = p.line + cs.count '\n' := by
  induction cs generalizing p with
  | nil => rfl
  | cons c cs ih =>
    have h : p.after (c :: cs) = (p.next c).after cs := rfl
    rw [h, ih]
    unfold Position.next
    split
    · next hc =>
      rw [hc, List.count_cons_self]
      dsimp only
      omega
    · next hc => rw [List.count_cons_of_ne hc]

/-! ## Pieces -/

/-- What a scan yields.  Strings come in parts. -/
inductive PieceKind where
  | token (kind : Kind)
  /-- The quotes that open a string, with the letter in front of them as value. -/
  | stringStart (style : QuoteStyle) (raw : Bool)
  /-- Characters of a string as they are written. -/
  | stringText
  /-- An escape, replaced by what it stands for unless the string is raw. -/
  | stringEscape
  /-- A backslash at the end of a line. -/
  | stringLineBreak
  | stringEnd
deriving DecidableEq

/-- A part of the text with its meaning. -/
structure Piece where
  kind : PieceKind
  value : Value
  span : Span
deriving DecidableEq

/-! ## The state -/

/-- The state of a scan between two matches. -/
structure Scan where
  /-- The text that is not read yet. -/
  rest : List Char
  /-- The place at which it starts. -/
  position : Position := {}
  /-- What is open, the innermost first. -/
  modes : List Activation := []
  /-- The blocks that are open, the innermost first. -/
  blocks : BlockStack := []
  /-- The kind and the line of the last token that is not filtered. -/
  last : Option (Kind × Nat) := none
  /-- Whether the last token is a body whose closing marker may follow. -/
  afterBody : Bool := false
  /-- Whether the scan has come to its end or to a fault. -/
  isDone : Bool := false
  /-- What happened so far, the latest first. -/
  events : List Event := []

namespace Scan

/-- The scan of a text from its beginning. -/
def ofText (cs : List Char) : Scan :=
  { rest := cs }

/-- The mode at the place of the scan. -/
def mode (s : Scan) : Mode :=
  modeOf s.modes

/-- The indentation of the line at the place of the scan. -/
def indentHere (table : LineTable) (s : Scan) : Nat :=
  table.indentOf s.position.line

/-- Whether nothing but the class and the name of a header is read of this line. -/
def followsHeader (s : Scan) : Bool :=
  match s.last with
  | some (kind, line) => (kind = .className || kind = .instanceName) && line = s.position.line
  | none => false

/-- Whether the next name on this line is the name of an instance. -/
def expectsName (s : Scan) : Bool :=
  match s.last with
  | some (kind, line) => kind = .className && line = s.position.line
  | none => false

/-- The state with one more event. -/
def report (event : Event) (s : Scan) : Scan :=
  { s with events := event :: s.events }

/-- The state with one more activation. -/
def push (activation : Activation) (s : Scan) : Scan :=
  let event := .modeEntered s.mode activation.mode s.position.line
  { s.report event with modes := activation :: s.modes }

/-- The state without the innermost activation. -/
def pop (s : Scan) : Scan :=
  let left : Scan := { s with modes := s.modes.tail }
  left.report (.modeLeft left.mode s.position.line)

/-- The state with one more open block. -/
def pushFrame (frame : Frame) (s : Scan) : Scan :=
  let blocks := frame :: s.blocks
  { s.report (.blockOpened frame.owner frame.line blocks.length) with blocks }

/-- A fault at the place of the scan. -/
def fault (s : Scan) (cause : Cause) : Fault :=
  { cause, line := s.position.line, column := s.position.column }

/-- A piece that takes these characters at the place of the scan. -/
def piece (s : Scan) (kind : PieceKind) (value : Value) (lexeme : List Char) : Piece where
  kind := kind
  value := value
  span :=
    { start := s.position.offset
      stop := s.position.offset + byteSize lexeme
      line := s.position.line
      column := s.position.column }

/-- A token that takes these characters at the place of the scan. -/
def token (s : Scan) (kind : Kind) (value : Value) (lexeme : List Char) : Piece :=
  s.piece (.token kind) value lexeme

/-- The state behind these characters. -/
def advance (lexeme : List Char) (s : Scan) : Scan :=
  { s with rest := s.rest.drop lexeme.length, position := s.position.after lexeme }

/-- The kind of token that a piece counts as for what follows it. -/
def notedKind? : PieceKind → Option Kind
  | .token kind => if kind.isFiltered then none else some kind
  | .stringEnd => some .string
  | _ => none

/-- The state that remembers a piece. -/
def note (piece : Piece) (s : Scan) : Scan :=
  match notedKind? piece.kind with
  | none => s
  | some kind =>
    { s with last := some (kind, piece.span.line), afterBody := kind = .body }

end Scan

end BlockLexer
