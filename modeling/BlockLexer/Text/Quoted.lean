import BlockLexer.Text.HiddenCharacter

/-!
# Quoted text

A text or a character as messages and listings show it: between quotes, with
escapes for the quote, the backslash and the usual control characters, and with
`\u{…}` for every other character that has no glyph of its own.
-/

namespace BlockLexer.Text

/-- A number in hexadecimal digits, lower case and without leading zeros. -/
def hexDigits (n : Nat) : List Char :=
  Nat.toDigits 16 n

/-- A character inside a text quoted by `quote`. -/
def quotedChar (quote c : Char) : List Char :=
  if c = '\x00' then ['\\', '0']
  else if c = '\t' then ['\\', 't']
  else if c = '\r' then ['\\', 'r']
  else if c = '\n' then ['\\', 'n']
  else if c = '\\' || c = quote then ['\\', c]
  else if isHidden c then ['\\', 'u', '\x7b'] ++ hexDigits c.toNat ++ ['\x7d']
  else [c]

/-- A text between double quotes. -/
def quoted (cs : List Char) : List Char :=
  '"' :: cs.flatMap (quotedChar '"') ++ ['"']

/-- A character between single quotes. -/
def quotedSingle (c : Char) : List Char :=
  '\x27' :: quotedChar '\x27' c ++ ['\x27']

end BlockLexer.Text
