import BlockLexer.Scan.State

/-!
# What a match does

Every rule has an action: it looks at the match, may open or close modes and
blocks, and yields a piece, or nothing, or a fault.  An action never moves the
place of the scan.  `Scan.act` is the action of each rule.
-/

namespace BlockLexer

open Text

/-- What an action yields: a piece, nothing, or a fault. -/
abbrev Outcome := Except Fault (Option Piece)

/-- The state behind a bracket in an expression, and its kind.  A closing bracket
needs an open one of its kind. -/
def Brackets.take? (brackets : Brackets) : List Char → Option (Kind × Brackets)
  | ['('] => some (.openParen, { brackets with paren := brackets.paren + 1 })
  | ['['] => some (.openArray, { brackets with array := brackets.array + 1 })
  | ['\x7b'] => some (.openDict, { brackets with dict := brackets.dict + 1 })
  | [')'] =>
    if brackets.paren = 0 then none
    else some (.closeParen, { brackets with paren := brackets.paren - 1 })
  | [']'] =>
    if brackets.array = 0 then none
    else some (.closeArray, { brackets with array := brackets.array - 1 })
  | _ =>
    if brackets.dict = 0 then none
    else some (.closeDict, { brackets with dict := brackets.dict - 1 })

/-- The kind of an operator. -/
def operatorKind : List Char → Kind
  | ['+'] => .plus
  | ['-'] => .minus
  | ['*'] => .times
  | ['/'] => .divide
  | ['&'] => .and
  | ['|'] => .or
  | ['!'] => .not
  | [':'] => .colon
  | ['.'] => .dot
  | _ => .comma

/-- The letters in front of a quote that leave escapes as they are. -/
def isRawLetter (letter : List Char) : Bool :=
  letter = ['r'] || letter = ['R'] || letter = ['b'] || letter = ['B']

/-- The part of a string that an escape stands for, by the character behind the
backslash. -/
def decodeEscape (c : Char) : PieceKind × List Char :=
  if c = '\n' then (.stringLineBreak, [])
  else if c = 'n' then (.stringEscape, ['\n'])
  else if c = 't' then (.stringEscape, ['\t'])
  else if c = 'r' then (.stringEscape, ['\r'])
  else if c = '0' then (.stringEscape, ['\x00'])
  else if c = '\\' || c = '\x27' || c = '"' then (.stringEscape, [c])
  else (.stringEscape, ['\\', c])

namespace Scan

/-! ## Blocks -/

/-- The name of an instance behind the class of a header. -/
def takeName (m : Match) (s : Scan) : Scan × Outcome :=
  if s.expectsName then
    (s, .ok (some (s.token .instanceName (.text m.lexeme) m.lexeme)))
  else (s, .error (s.fault (.unexpectedName m.lexeme)))

/-- The class of a header opens a block.  In a block it is a member first. -/
def openBlock (table : LineTable) (m : Match) (s : Scan) : Scan × Outcome :=
  if s.followsHeader then s.takeName m
  else
    let indent := s.indentHere table
    match if s.mode = .block then s.blocks.checkMember indent else .ok s.blocks with
    | .error cause => (s, .error (s.fault cause))
    | .ok blocks =>
      let frame := { owner := m.lexeme, line := s.position.line, headerIndent := indent }
      ((({ s with blocks } : Scan).pushFrame frame).push .block,
        .ok (some (s.token .className (.text m.lexeme) m.lexeme)))

/-- The word `end` closes a block, unless it is used as the name of an attribute. -/
def closeBlock (table : LineTable) (m : Match) (s : Scan) : Scan × Outcome :=
  if (trimStart m.groupText).head? = some '=' then
    (s, .error (s.fault (.reservedName ['e', 'n', 'd'])))
  else
    let (blocks, closed) := s.blocks.close (s.indentHere table)
    let s' : Scan := { s with blocks }
    match closed with
    | .error cause => (s', .error (s.fault cause))
    | .ok frame =>
      ((s'.report (.blockClosed frame.owner s.position.line blocks.length)).pop,
        .ok (some (s.token .blockEnd .nothing (m.lexeme.take 3))))

/-- The name of an attribute opens its expression. -/
def openAttribute (m : Match) (s : Scan) : Scan × Outcome :=
  let name := m.groupText
  if isReserved name then (s, .error (s.fault (.reservedName name)))
  else (s.push (.expression {}), .ok (some (s.token .attributeName (.text name) name)))

/-- A marker opens a body, unless it closes the one before it. -/
def openBody (table : LineTable) (s : Scan) : Scan × Outcome :=
  if s.afterBody then ({ s with afterBody := false }, .ok none)
  else match table.get? s.position.line with
    | none => (s, .ok none)
    | some marker => (s.push (.body (.ofMarker table marker)), .ok none)

/-- The end of a line in a block.  Behind a bare header the members begin. -/
def endBlockLine (table : LineTable) (m : Match) (s : Scan) : Scan × Outcome :=
  let piece := s.token .newline .nothing m.lexeme
  if s.followsHeader then
    let next := (table.nextContentAfter s.position.line).map fun line =>
      (line.indent, line.isEnd)
    ({ s with blocks := s.blocks.expectMembers next }, .ok (some piece))
  else (s, .ok (some piece))

/-- A line of a body.  If the body ends with it, the whole body is yielded. -/
def takeBodyLine (table : LineTable) (s : Scan) : Scan × Outcome :=
  match s.modes with
  | .body body :: _ =>
    match body.step table s.position.line with
    | none => (s, .ok none)
    | some closed =>
      let event := .bodyClosed closed.text.startLine closed.lastLine body.indent
      ((s.report event).pop, .ok (some
        { kind := .token .body
          value := .body closed.text
          span :=
            { start := closed.start
              stop := closed.stop
              line := closed.text.startLine
              column := 1 } }))
  | _ => (s, .ok none)

/-! ## Expressions -/

/-- The quotes that open a string. -/
def startString (style : QuoteStyle) (m : Match) (s : Scan) : Scan × Outcome :=
  let letter := m.groupText
  let raw := isRawLetter letter
  (s.push (.string style raw s.position.line s.position.column),
    .ok (some (s.piece (.stringStart style raw) (.text letter) m.lexeme)))

/-- A numeral with a point, an exponent or a unit.  `value` gets the number. -/
def takeDouble (kind : Kind) (value : Decimal.Double → Value) (numeral : List Char)
    (m : Match) (s : Scan) : Scan × Outcome :=
  match Decimal.readDouble? (numeral.filter (· ≠ '_')) with
  | none => (s, .error (s.fault (.invalidNumber m.lexeme)))
  | some x => (s, .ok (some (s.token kind (value x) m.lexeme)))

/-- The integers end here, at the sixty-third power of two. -/
def integerBound : Nat := 0x8000000000000000

/-- An integer in a radix. -/
def takeInteger (kind : Kind) (radix : Nat) (digits : List Char) (m : Match) (s : Scan) :
    Scan × Outcome :=
  let n := Decimal.natOfDigits radix digits
  if n < integerBound then (s, .ok (some (s.token kind (.integer n) m.lexeme)))
  else (s, .error (s.fault (.integerOutOfRange m.lexeme)))

/-- A name in an expression.  The reserved words are literals, and `end` is refused. -/
def takeIdentifier (m : Match) (s : Scan) : Scan × Outcome :=
  let word := m.lexeme.map Char.toLower
  if word = ['t', 'r', 'u', 'e'] then (s, .ok (some (s.token .bool (.bool true) m.lexeme)))
  else if word = ['f', 'a', 'l', 's', 'e'] then
    (s, .ok (some (s.token .bool (.bool false) m.lexeme)))
  else if word = ['n', 'o', 'n', 'e'] then
    (s, .ok (some (s.token .nothing .nothing m.lexeme)))
  else if word = ['e', 'n', 'd'] then (s, .error (s.fault .endInExpression))
  else (s, .ok (some (s.token .identifier (.text m.lexeme) m.lexeme)))

/-- A bracket opens or closes a part of the expression. -/
def takeBracket (m : Match) (s : Scan) : Scan × Outcome :=
  match s.modes with
  | .expression brackets :: outer =>
    match brackets.take? m.lexeme with
    | none => (s, .error (s.fault .closingBracket))
    | some (kind, brackets) =>
      ({ s with modes := .expression brackets :: outer },
        .ok (some (s.token kind .nothing m.lexeme)))
  | _ => (s, .error (s.fault .bracketOutsideExpression))

/-- The end of a line closes an expression in which no bracket is open. -/
def endExpressionLine (m : Match) (s : Scan) : Scan × Outcome :=
  let piece := s.token .newline .nothing m.lexeme
  match s.modes with
  | .expression brackets :: _ =>
    (if brackets.isBalanced then s.pop else s, .ok (some piece))
  | _ => (s, .ok (some piece))

/-! ## Strings -/

/-- Whether the innermost activation is a string that keeps its escapes. -/
def inRawString (s : Scan) : Bool :=
  match s.modes with
  | .string _ raw _ _ :: _ => raw
  | _ => false

/-- An escape in a string. -/
def takeEscape (m : Match) (s : Scan) : Scan × Outcome :=
  let (kind, chars) :=
    match m.lexeme with
    | [_, c] => if s.inRawString then (.stringEscape, m.lexeme) else decodeEscape c
    | _ => (.stringEscape, m.lexeme)
  (s, .ok (some (s.piece kind (.text chars) m.lexeme)))

/-- The quotes that close a string. -/
def endString (m : Match) (s : Scan) : Scan × Outcome :=
  (s.pop, .ok (some (s.piece .stringEnd .nothing m.lexeme)))

/-! ## All rules -/

/-- What a match of a rule does. -/
def act (table : LineTable) (rule : Rule) (m : Match) (s : Scan) : Scan × Outcome :=
  match rule with
  | .directive | .comment | .continuation => (s, .ok none)
  | .blanks => (s, .ok (some (s.token .blanks .nothing m.lexeme)))
  | .newline => (s, .ok (some (s.token .newline .nothing m.lexeme)))
  | .strayEnd => (s, .error (s.fault .strayEnd))
  | .className => s.openBlock table m
  | .instanceName => s.takeName m
  | .blockEnd => s.closeBlock table m
  | .attributeName => s.openAttribute m
  | .bodyMarker => s.openBody table
  | .headerNewline => s.endBlockLine table m
  | .bodyLine => s.takeBodyLine table
  | .openString style => s.startString style m
  | .imaginary => s.takeDouble .imaginary (.complex .zero ·) m.lexeme.dropLast m
  | .float => s.takeDouble .float .float m.lexeme m
  | .hex => s.takeInteger .hex 16 (m.lexeme.drop 2) m
  | .octal => s.takeInteger .octal 8 (m.lexeme.drop 2) m
  | .binary => s.takeInteger .binary 2 (m.lexeme.drop 2) m
  | .integer => s.takeInteger .integer 10 m.lexeme m
  | .identifier => s.takeIdentifier m
  | .bracket => s.takeBracket m
  | .expressionNewline => s.endExpressionLine m
  | .operator => (s, .ok (some (s.token (operatorKind m.lexeme) .nothing m.lexeme)))
  | .escape => s.takeEscape m
  | .stringText _ | .loneQuote _ =>
    (s, .ok (some (s.piece .stringText (.text m.lexeme) m.lexeme)))
  | .closeString _ => s.endString m

end Scan

end BlockLexer
