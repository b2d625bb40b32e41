import BlockLexer.Pattern
import BlockLexer.Decimal.Numeral
import BlockLexer.Text.WordCharacter

/-!
# Lexemes

The patterns of the notation, by what they stand for: gaps and comments, names,
the `import` directive, and numerals.
-/

namespace BlockLexer.Lexeme

open Text Pattern

/-! ## Gaps -/

/-- A character that does not end a line. -/
def inLine (c : Char) : Bool := c ≠ '\n'

/-- Blanks, at least one. -/
def blanks : Pattern := many1 isBlank

/-- Blanks, or nothing. -/
def gap : Pattern := many isBlank

/-- A semicolon and the rest of its line. -/
def remark : Pattern := (one (· = ';')).seq (many inLine)

/-- A comment with the blanks in front of it. -/
def comment : Pattern := gap.seq remark

/-- The end of a line. -/
def lineEnd : Pattern := one (· = '\n')

/-! ## Names and words -/

/-- The name of a class begins with a capital. -/
def className : Pattern := (one Char.isUpper).seq (many continuesName)

/-- Any other name. -/
def name : Pattern := (one startsName).seq (many continuesName)

/-- The word `end` in any case, if no word character follows it. -/
def endWord : Pattern := (wordCaseless ['e', 'n', 'd']).seq (notBefore isWord)

/-- The sign behind the name of an attribute, with the gaps around it. -/
def assignment : Pattern := gap.seq ((one (· = '=')).seq gap)

/-- Three dashes and what follows them up to a comment or the end of the line. -/
def marker : Pattern := (word ['-', '-', '-']).seq (many fun c => c ≠ '\n' && c ≠ ';')

/-! ## Directives -/

/-- The keyword of a directive, in lower case. -/
def importWord : List Char := ['i', 'm', 'p', 'o', 'r', 't']

/-- A character of the target of a directive. -/
def isTarget (c : Char) : Bool := !isBlank c && c ≠ ';' && c ≠ '\n' && c ≠ '='

/-- A directive with the blanks in front of it, and with its comment. -/
def directive : Pattern :=
  gap.seq <| (wordCaseless importWord).seq <| blanks.seq <| (many1 isTarget).seq <|
    gap.seq remark.optional

/-- The target of a text that begins with a directive. -/
def directiveTarget (cs : List Char) : List Char :=
  (((cs.dropWhile isBlank).drop importWord.length).dropWhile isBlank).takeWhile isTarget

/-! ## Numerals -/

/-- The digits behind a digit: each may have one underscore in front of it. -/
def moreDigits : List Char → List Char × List Char
  | '_' :: d :: cs =>
    if d.isDigit then
      let (taken, rest) := moreDigits cs
      ('_' :: d :: taken, rest)
    else ([], '_' :: d :: cs)
  | c :: cs =>
    if c.isDigit then
      let (taken, rest) := moreDigits cs
      (c :: taken, rest)
    else ([], c :: cs)
  | [] => ([], [])

/-- Digits, with single underscores between them. -/
def digits : Pattern := (one Char.isDigit).seq fun cs => some (moreDigits cs)

/-- An exponent: `e`, a sign or none, and digits. -/
def exponent : Pattern :=
  (one fun c => c = 'e' || c = 'E').seq <|
    (one fun c => c = '-' || c = '+').optional.seq digits

/-- A numeral with a point.  The digits on one side of it may be missing. -/
def pointFloat : Pattern :=
  ((digits.seq ((one (· = '.')).seq digits.optional)).orElse
    ((one (· = '.')).seq digits)).seq exponent.optional

/-- A numeral with an exponent and no point. -/
def exponentFloat : Pattern := digits.seq exponent

/-- A numeral with a point or an exponent. -/
def float : Pattern := pointFloat.orElse exponentFloat

/-- The letter behind an imaginary numeral. -/
def imaginaryUnit : Pattern := one fun c => c = 'j' || c = 'J'

/-- An imaginary numeral. -/
def imaginary : Pattern := (digits.seq imaginaryUnit).orElse (float.seq imaginaryUnit)

/-- A zero, a letter in either case, and digits of a radix. -/
def radixNumeral (letter : Char) (isDigit : Char → Bool) : Pattern :=
  (one (· = '0')).seq <| (one fun c => c.toLower = letter).seq <| many1 isDigit

/-- A hexadecimal numeral. -/
def hex : Pattern := radixNumeral 'x' Decimal.isHexDigit

/-- An octal numeral. -/
def octal : Pattern := radixNumeral 'o' fun c => '0' ≤ c && c ≤ '7'

/-- A binary numeral. -/
def binary : Pattern := radixNumeral 'b' fun c => c = '0' || c = '1'

/-- A decimal numeral. -/
def integer : Pattern := many1 Char.isDigit

/-! ## Strings -/

/-- A backslash and the character behind it. -/
def escape : Pattern := (one (· = '\\')).seq (one fun _ => true)

end BlockLexer.Lexeme
