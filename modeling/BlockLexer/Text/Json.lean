/-!
# JSON documents

A document and its two written forms.  `Json.compact` writes it on one line
without blanks, `Json.pretty` writes every item and field on a line of its own,
indented by two spaces a level.
-/

namespace BlockLexer.Text

/-- A JSON document.  Numbers are kept as written, fields in their order. -/
inductive Json where
  | null
  | bool (value : Bool)
  | number (digits : List Char)
  | text (chars : List Char)
  | list (items : List Json)
  | object (fields : List (String × Json))

namespace Json

/-! ## Texts -/

/-- A number of at most two hexadecimal digits, padded to four. -/
def fourDigits (n : Nat) : List Char :=
  let digits := Nat.toDigits 16 n
  List.replicate (4 - digits.length) '0' ++ digits

/-- A character inside a JSON text. -/
def escapedChar (c : Char) : List Char :=
  if c = '"' || c = '\\' then ['\\', c]
  else if c = '\n' then ['\\', 'n']
  else if c = '\r' then ['\\', 'r']
  else if c = '\t' then ['\\', 't']
  else if c = '\x08' then ['\\', 'b']
  else if c = '\x0c' then ['\\', 'f']
  else if c.toNat < 0x20 then ['\\', 'u'] ++ fourDigits c.toNat
  else [c]

/-- A JSON text between its quotes. -/
def textForm (cs : List Char) : List Char :=
  '"' :: cs.flatMap escapedChar ++ ['"']

/-- The written form of a truth value. -/
def boolForm (b : Bool) : List Char :=
  if b then ['t', 'r', 'u', 'e'] else ['f', 'a', 'l', 's', 'e']

/-! ## The compact form -/

mutual

/-- The document on one line without blanks. -/
def compact : Json → List Char
  | null => ['n', 'u', 'l', 'l']
  | bool b => boolForm b
  | number digits => digits
  | text cs => textForm cs
  | list items => '[' :: compactItems items ++ [']']
  | object fields => '\x7b' :: compactFields fields ++ ['\x7d']

/-- Items with commas between them. -/
def compactItems : List Json → List Char
  | [] => []
  | [item] => item.compact
  | item :: more => item.compact ++ ',' :: compactItems more

/-- Fields with commas between them. -/
def compactFields : List (String × Json) → List Char
  | [] => []
  | [(name, value)] => textForm name.toList ++ ':' :: value.compact
  | (name, value) :: more =>
    textForm name.toList ++ ':' :: value.compact ++ ',' :: compactFields more

end

/-! ## The pretty form -/

/-- A line feed and the indentation of a level. -/
def lineStart (level : Nat) : List Char :=
  '\n' :: List.replicate (2 * level) ' '

mutual

/-- The document with every item and field on a line of its own, at a level of
nesting. -/
def prettyAt : Nat → Json → List Char
  | level, list (item :: more) =>
    '[' :: prettyItems (level + 1) (item :: more) ++ lineStart level ++ [']']
  | level, object (field :: more) =>
    '\x7b' :: prettyFields (level + 1) (field :: more) ++ lineStart level ++ ['\x7d']
  | _, list [] => ['[', ']']
  | _, object [] => ['\x7b', '\x7d']
  | _, null => ['n', 'u', 'l', 'l']
  | _, bool b => boolForm b
  | _, number digits => digits
  | _, text cs => textForm cs

/-- Items on lines of their own with commas between them. -/
def prettyItems : Nat → List Json → List Char
  | _, [] => []
  | level, [item] => lineStart level ++ item.prettyAt level
  | level, item :: more => lineStart level ++ item.prettyAt level ++ ',' :: prettyItems level more

/-- Fields on lines of their own with commas between them. -/
def prettyFields : Nat → List (String × Json) → List Char
  | _, [] => []
  | level, [(name, value)] =>
    lineStart level ++ textForm name.toList ++ ':' :: ' ' :: value.prettyAt level
  | level, (name, value) :: more =>
    lineStart level ++ textForm name.toList ++ ':' :: ' ' :: value.prettyAt level ++
      ',' :: prettyFields level more

end

/-- The document with every item and field on a line of its own. -/
def pretty (document : Json) : List Char :=
  document.prettyAt 0

end Json

end BlockLexer.Text
