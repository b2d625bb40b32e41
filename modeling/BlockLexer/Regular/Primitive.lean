import BlockLexer.Decimal.Numeral
import BlockLexer.Regular.Setting

/-!
# Primitives of regular expressions

A primitive is a part of an expression that holds no other: a character, a class
with a name, or an assertion.  `readEscape` reads what follows a backslash, and
`Primitive.fits` and `Primitive.fitsClass` say where a primitive may stand.

An expression about bytes still has to match whole characters, so it may not name a
byte that is only a part of one.

The braces of longer escapes are never read: an expression is written inside of
braces, where no closing one can follow.
-/

namespace BlockLexer.Regular

open Text Decimal

/-- A part of an expression that holds no other. -/
inductive Primitive where
  /-- A character, and whether it was written by the number of one byte. -/
  | literal (c : Char) (byByte : Bool)
  /-- The digits, the white space or the word characters, or all but them. -/
  | shorthand (negated : Bool)
  /-- A class named by a property of Unicode. -/
  | property
  /-- A place in the text, and whether words decide about it. -/
  | assertion (ofWord : Bool)
  /-- Any character but a line feed. -/
  | any
deriving DecidableEq

namespace Primitive

/-- Whether a primitive may stand in an expression. -/
def fits (setting : Setting) : Primitive → Bool
  | literal c byByte => setting.unicode || !byByte || c.toNat < 0x80
  | shorthand negated => setting.unicode || !negated
  | property => setting.unicode
  | assertion _ => true
  | any => setting.unicode

/-- Whether a primitive may stand in a class between brackets. -/
def fitsClass (setting : Setting) : Primitive → Bool
  | literal c _ => setting.unicode || c.toNat < 0x80
  | shorthand negated => setting.unicode || !negated
  | property => setting.unicode
  | assertion _ => false
  | any => false

/-- What fits into a class fits outside of it. -/
theorem fits_of_fitsClass (setting : Setting) (primitive : Primitive)
    (h : primitive.fitsClass setting = true) : primitive.fits setting = true := by
  cases primitive with
  | literal c byByte => cases byByte <;> simp_all [fits, fitsClass]
  | shorthand negated => exact h
  | property => exact h
  | assertion ofWord => exact absurd h Bool.false_ne_true
  | any => exact absurd h Bool.false_ne_true

end Primitive

/-- Digits of a number to the base sixteen, as many as asked for, with what is passed
over behind each. -/
def readHexDigits (setting : Setting) :
    (count value : Nat) → List Char → Option (Nat × List Char)
  | 0, value, cs => some (value, cs)
  | _ + 1, _, [] => none
  | count + 1, value, c :: cs =>
    if isHexDigit c then readHexDigits setting count (value * 16 + digitValue c) (skip setting cs)
    else none

/-- A character by its number, which is written with so many digits. -/
def readNumbered (setting : Setting) (count : Nat) (cs : List Char) :
    Option (Primitive × List Char) :=
  (readHexDigits setting count 0 (skip setting cs)).bind fun (value, rest) =>
    if value.isValidChar then some (.literal (Char.ofNat value) (count = 2), rest) else none

/-- The names of properties that have one letter: those of the general categories. -/
def propertyNames : List Char :=
  ['c', 'l', 'm', 'n', 'p', 's', 'z']

/-- A property by its name of one letter. -/
def readProperty (setting : Setting) (cs : List Char) : Option (Primitive × List Char) :=
  match skip setting cs with
  | [] => none
  | c :: rest =>
    if propertyNames.contains c.toLower then some (.property, skip setting rest) else none

/-- Reads what follows a backslash. -/
def readEscape (setting : Setting) : List Char → Option (Primitive × List Char)
  | [] => none
  | c :: rest =>
    match c with
    | 'x' => readNumbered setting 2 rest
    | 'u' => readNumbered setting 4 rest
    | 'U' => readNumbered setting 8 rest
    | 'p' | 'P' => readProperty setting rest
    | 'd' | 's' | 'w' => some (.shorthand false, rest)
    | 'D' | 'S' | 'W' => some (.shorthand true, rest)
    | 'a' => some (.literal '\x07' false, rest)
    | 'f' => some (.literal '\x0c' false, rest)
    | 't' => some (.literal '\t' false, rest)
    | 'n' => some (.literal '\n' false, rest)
    | 'r' => some (.literal '\r' false, rest)
    | 'v' => some (.literal '\x0b' false, rest)
    | 'A' | 'z' => some (.assertion false, rest)
    | 'b' | 'B' | '<' | '>' => some (.assertion true, rest)
    | _ => if c.toNat < 0x80 && !c.isAlphanum then some (.literal c false, rest) else none

end BlockLexer.Regular
