import BlockLexer.Body

/-!
# Modes

What the next character means depends on where it stands: between blocks, in a
block, in an expression, in a body or in a string.  The scan keeps a stack of
activations, and the innermost one decides on the mode.
-/

namespace BlockLexer

/-- The four ways to quote a string. -/
inductive QuoteStyle where
  | single | double | tripleSingle | tripleDouble
deriving DecidableEq

namespace QuoteStyle

/-- The quote character of a style. -/
def mark : QuoteStyle → Char
  | single | tripleSingle => '\x27'
  | double | tripleDouble => '"'

/-- Whether a string of this style may run over several lines. -/
def isTriple : QuoteStyle → Bool
  | single | double => false
  | tripleSingle | tripleDouble => true

/-- The characters that open and close a string of this style. -/
def quotes (style : QuoteStyle) : List Char :=
  List.replicate (if style.isTriple then 3 else 1) style.mark

end QuoteStyle

/-- The modes of the scan. -/
inductive Mode where
  | default | block | expression | body
  | string (style : QuoteStyle)
deriving DecidableEq

/-- The name of a mode in log lines. -/
def Mode.name : Mode → String
  | default => "Default"
  | block => "Block"
  | expression => "Expr"
  | body => "Body"
  | string .single => "SingleQuote1"
  | string .double => "SingleQuote2"
  | string .tripleSingle => "TripleQuote1"
  | string .tripleDouble => "TripleQuote2"

/-- Every mode. -/
def Mode.all : List Mode :=
  [default, block, expression, body,
    string .single, string .double, string .tripleSingle, string .tripleDouble]

/-- The brackets that are open in an expression, by kind. -/
structure Brackets where
  paren : Nat := 0
  array : Nat := 0
  dict : Nat := 0
deriving DecidableEq

/-- Whether no bracket is open. -/
def Brackets.isBalanced (brackets : Brackets) : Bool :=
  brackets.paren = 0 && brackets.array = 0 && brackets.dict = 0

/-- What is open at a place of the text.  Where nothing is, the mode is the default. -/
inductive Activation where
  | block
  | expression (brackets : Brackets)
  | body (body : OpenBody)
  /-- A string: its style, whether escapes stay as written, and where it was opened. -/
  | string (style : QuoteStyle) (raw : Bool) (line column : Nat)
deriving DecidableEq

/-- The mode that an activation brings. -/
def Activation.mode : Activation → Mode
  | block => .block
  | expression _ => .expression
  | body _ => .body
  | string style _ _ _ => .string style

/-- The mode of a stack of activations, the innermost first. -/
def modeOf : List Activation → Mode
  | [] => .default
  | activation :: _ => activation.mode

end BlockLexer
