import BlockLexer.Decimal.Double

/-!
# Reading numerals

Digits to natural numbers in any radix (`natOfDigits`), whole texts to natural
numbers (`readNat?`), and numerals with a point and an exponent to the nearest double
(`readDouble?`).
-/

namespace BlockLexer.Decimal

/-- The value of a digit or letter: `0` to `9`, then `a` to `z` in either case. -/
def digitValue (c : Char) : Nat :=
  if c.isDigit then c.toNat - 48
  else if c.isLower then c.toNat - 87
  else c.toNat - 55

/-- The number that digits denote in a radix, the most significant digit first. -/
def natOfDigits (radix : Nat) (digits : List Char) : Nat :=
  digits.foldl (fun n c => n * radix + digitValue c) 0

/-- A digit of the hexadecimal system. -/
def isHexDigit (c : Char) : Bool :=
  c.isDigit || ('a' ≤ c && c ≤ 'f') || ('A' ≤ c && c ≤ 'F')

/-- A whole text read as a natural number in decimal digits.  A plus sign may stand in
front. -/
def readNat? (cs : List Char) : Option Nat :=
  let digits := match cs with
    | '+' :: ds => ds
    | ds => ds
  if digits.isEmpty || !digits.all Char.isDigit then none
  else some (natOfDigits 10 digits)

/-- A numeral: the number that its digits denote without the point, and the power
of ten to multiply it by. -/
structure Numeral where
  digits : Nat
  exponent : Int

/-- The exponent part of a numeral: nothing, or `e`, a sign and digits. -/
def readExponent? : List Char → Option Int
  | [] => some 0
  | e :: cs =>
    if e = 'e' || e = 'E' then
      let (negative, digits) := match cs with
        | '-' :: ds => (true, ds)
        | '+' :: ds => (false, ds)
        | ds => (false, ds)
      if digits.isEmpty || !digits.all Char.isDigit then none
      else
        let n : Int := natOfDigits 10 digits
        some (if negative then -n else n)
    else none

/-- A whole text read as digits, a point and more digits, and an exponent.  The
point and the exponent may be missing, and the digits on one side of the point. -/
def readNumeral? (cs : List Char) : Option Numeral :=
  let whole := cs.takeWhile Char.isDigit
  let (fraction, rest) := match cs.dropWhile Char.isDigit with
    | '.' :: ds => (ds.takeWhile Char.isDigit, ds.dropWhile Char.isDigit)
    | ds => ([], ds)
  if whole.isEmpty && fraction.isEmpty then none
  else (readExponent? rest).map fun exponent =>
    { digits := natOfDigits 10 (whole ++ fraction)
      exponent := exponent - fraction.length }

/-- How many digits a number has in the decimal system. -/
def digitCount (n : Nat) : Nat :=
  (Nat.toDigits 10 n).length

/-- The double nearest to a numeral.  One that is far below the least positive
double is zero, one that is far beyond the greatest is infinity. -/
def Numeral.toDouble (n : Numeral) : Double :=
  let size := digitCount n.digits + n.exponent
  if n.digits = 0 || size < -330 then .zero
  else if 310 < size then .infinity
  else .ofRatio (n.digits * Nat.pow 10 n.exponent.toNat) (Nat.pow 10 (-n.exponent).toNat)

/-- A whole text read as a numeral and rounded to the nearest double. -/
def readDouble? (cs : List Char) : Option Double :=
  (readNumeral? cs).map Numeral.toDouble

end BlockLexer.Decimal
