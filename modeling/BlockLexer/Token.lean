import BlockLexer.Decimal.Double

/-!
# Tokens

What the lexer produces: a kind, a value and the place in the text.

* `Kind` with its written name and its `Category`;
* `Clash`, the pairs of categories that may not stand next to each other;
* `Value`, `Span`, `Token`;
* the reserved words.
-/

namespace BlockLexer

/-! ## Kinds -/

/-- The kinds of tokens.  `blanks` and `newline` exist between the stages only,
and `endOfText` closes every stream without an error. -/
inductive Kind where
  -- structure
  | className | instanceName | attributeName | blockEnd | body
  -- operators and brackets
  | plus | minus | times | divide | and | or | not | colon | dot | comma
  | openParen | closeParen | openArray | closeArray | openDict | closeDict
  -- literals
  | bool | nothing | integer | float | hex | octal | binary | imaginary | string
  -- identifiers
  | identifier
  -- dropped before the end of the pipeline
  | blanks | newline
  -- the end of the text
  | endOfText
deriving DecidableEq

/-- What kinds of tokens have in common. -/
inductive Category where
  | structural | expression | literal | identifier | filtered
deriving DecidableEq

namespace Kind

/-- The name of a kind in listings. -/
def name : Kind → String
  | className => "CLASS"
  | instanceName => "NAME"
  | attributeName => "ATTR"
  | blockEnd => "END"
  | body => "BODY"
  | plus => "PLUS"
  | minus => "MINUS"
  | times => "TIMES"
  | divide => "DIVIDE"
  | and => "AND"
  | or => "OR"
  | not => "NOT"
  | colon => "COLON"
  | dot => "DOT"
  | comma => "COMMA"
  | openParen => "LPAREN"
  | closeParen => "RPAREN"
  | openArray => "LARRAY"
  | closeArray => "RARRAY"
  | openDict => "LDICT"
  | closeDict => "RDICT"
  | bool => "BOOL"
  | nothing => "NONE"
  | integer => "NUM_INT"
  | float => "NUM_FLOAT"
  | hex => "NUM_HEX"
  | octal => "NUM_OCT"
  | binary => "NUM_BIN"
  | imaginary => "NUM_IMAG"
  | string => "STRING"
  | identifier => "ID"
  | blanks => "WS"
  | newline => "NEWLINE"
  | endOfText => "EOF"

/-- Every kind, in the order of their declaration. -/
def all : List Kind :=
  [className, instanceName, attributeName, blockEnd, body,
    plus, minus, times, divide, and, or, not, colon, dot, comma,
    openParen, closeParen, openArray, closeArray, openDict, closeDict,
    bool, nothing, integer, float, hex, octal, binary, imaginary, string,
    identifier, blanks, newline, endOfText]

/-- The category of a kind. -/
def category : Kind → Category
  | className | instanceName | attributeName | blockEnd | body | endOfText => .structural
  | bool | nothing | integer | float | hex | octal | binary | imaginary | string => .literal
  | identifier => .identifier
  | blanks | newline => .filtered
  | plus | minus | times | divide | and | or | not | colon | dot | comma
  | openParen | closeParen | openArray | closeArray | openDict | closeDict => .expression

/-- A kind that the stream drops before it reaches the caller. -/
def isFiltered (kind : Kind) : Bool :=
  kind.category = .filtered

/-- `all` leaves no kind out. -/
theorem mem_all (kind : Kind) : kind ∈ all := by
  cases kind <;> decide

end Kind

/-! ## Neighbours -/

/-- Two neighbours in an expression that need an operator between them. -/
inductive Clash where
  | literals | identifiers | identifierLiteral | literalIdentifier
deriving DecidableEq

/-- Whether and how two kinds clash when one follows the other directly. -/
def Kind.clash? (previous next : Kind) : Option Clash :=
  match previous.category, next.category with
  | .literal, .literal => some .literals
  | .identifier, .identifier => some .identifiers
  | .identifier, .literal => some .identifierLiteral
  | .literal, .identifier => some .literalIdentifier
  | _, _ => none

/-! ## Values and places -/

/-- The text of a body, with the names behind its opening marker. -/
structure BodyText where
  /-- The line on which the text starts. -/
  startLine : Nat
  text : List Char
  names : List (List Char)
deriving DecidableEq

/-- What a token carries. -/
inductive Value where
  | nothing
  | text (chars : List Char)
  | integer (n : Int)
  | float (x : Decimal.Double)
  | bool (b : Bool)
  | complex (re im : Decimal.Double)
  | body (body : BodyText)
deriving DecidableEq

/-- The characters of a value that is text. -/
def Value.chars? : Value → Option (List Char)
  | text cs => some cs
  | _ => none

/-- A part of a text: the bytes from `start` up to `stop`, and the line and column
of its first character.  Lines and columns count from one. -/
structure Span where
  start : Nat
  stop : Nat
  line : Nat
  column : Nat
deriving DecidableEq

/-- The number of bytes in a span. -/
def Span.size (span : Span) : Nat :=
  span.stop - span.start

/-- A span without bytes. -/
def Span.isEmpty (span : Span) : Bool :=
  span.start = span.stop

/-- A token of the stream. -/
structure Token where
  kind : Kind
  value : Value
  span : Span
deriving DecidableEq

/-! ## Reserved words -/

/-- The words that name nothing, in lower case. -/
def reservedWords : List (List Char) :=
  [['e', 'n', 'd'], ['t', 'r', 'u', 'e'], ['f', 'a', 'l', 's', 'e'], ['n', 'o', 'n', 'e']]

/-- Whether a word is reserved.  The case of its letters does not matter. -/
def isReserved (word : List Char) : Bool :=
  reservedWords.contains (word.map Char.toLower)

end BlockLexer
