import BlockLexer.Decimal.Layout
import BlockLexer.Text.Basic
import BlockLexer.Text.Json
import BlockLexer.Text.Quoted
import BlockLexer.Token

/-!
# Listings of tokens

The two ways to write a token: as a line of a listing (`Token.line`) and as a JSON
document (`Token.json`).
-/

namespace BlockLexer

open Text Decimal

/-! ## Lines -/

/-- Numbers in listings: positional from `0.0001` up to sixteen digits, and of two
equally near decimals the upper one. -/
def listingNumber : NumberFormat where
  tie := .upward
  leastPlain := -4
  plusSign := false

/-- A whole number. -/
def integerForm (n : Int) : List Char :=
  (toString n).toList

namespace Value

/-- The value of a token in a listing. -/
def listing : Value → List Char
  | nothing => []
  | text cs => quoted cs
  | integer n => integerForm n
  | float x => listingNumber.form x
  | bool b => Json.boolForm b
  | complex re im => '(' :: listingNumber.form re ++ '+' :: listingNumber.form im ++ ['j', ')']
  | body part =>
    quoted part.text ++
      if part.names.isEmpty then [] else ' ' :: '[' :: joinWith [',', ' '] part.names ++ [']']

end Value

/-- A text filled up with spaces to a width. -/
def padRight (width : Nat) (cs : List Char) : List Char :=
  cs ++ List.replicate (width - cs.length) ' '

/-- A token as a line of a listing: its line and column, its kind, and its value. -/
def Token.line (token : Token) : List Char :=
  let place :=
    Nat.toDigits 10 token.span.line ++ ':' :: Nat.toDigits 10 token.span.column
  let kind := token.kind.name.toList
  let value := token.value.listing
  if value.isEmpty then padRight 8 place ++ ' ' :: kind
  else padRight 8 place ++ ' ' :: padRight 10 kind ++ ' ' :: value

/-! ## Documents -/

/-- Numbers in documents: positional from `0.00001` up to sixteen digits, positive
exponents with a sign, and of two equally near decimals the even one. -/
def jsonNumber : NumberFormat where
  tie := .toEven
  leastPlain := -5
  plusSign := true

/-- A natural number in a document. -/
def natJson (n : Nat) : Json :=
  .number (Nat.toDigits 10 n)

/-- A double in a document.  What is not finite has no number. -/
def doubleJson (x : Double) : Json :=
  if x.isNaN || x.isInfinite then .null else .number (jsonNumber.form x)

/-- The value of a token as a document. -/
def Value.json : Value → Json
  | nothing => .null
  | text cs => .text cs
  | integer n => .number (integerForm n)
  | float x => doubleJson x
  | bool b => .bool b
  | complex re im => .object [("re", doubleJson re), ("im", doubleJson im)]
  | body part =>
    .object
      [("start_line", natJson part.startLine),
        ("text", .text part.text),
        ("names", .list (part.names.map Json.text))]

/-- A span as a document. -/
def Span.json (span : Span) : Json :=
  .object
    [("start", natJson span.start),
      ("end", natJson span.stop),
      ("line", natJson span.line),
      ("column", natJson span.column)]

/-- A token as a document. -/
def Token.json (token : Token) : Json :=
  .object
    [("kind", .text token.kind.name.toList),
      ("value", token.value.json),
      ("span", token.span.json)]

end BlockLexer
