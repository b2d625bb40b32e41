import BlockLexer.Decimal.Shortest

/-!
# Layout of decimal numbers

A double as text: the shortest digits, laid out with a point or with an
exponent.  What differs between formats is one record, `NumberFormat`.
-/

namespace BlockLexer.Decimal

/-- The decisions of a number format. -/
structure NumberFormat where
  /-- Which of two equally near shortest decimals is written. -/
  tie : Tie
  /-- The least exponent of the first digit that is written without `e`. -/
  leastPlain : Int
  /-- Whether a positive exponent has a plus sign. -/
  plusSign : Bool

/-- The exponent of the first digit from which on `e` is written in every format. -/
def greatestPlain : Int := 15

/-- Digits with the point in its place.  An integral number ends in `.0`. -/
def plainForm (digits : List Char) (lead : Int) : List Char :=
  if lead < 0 then '0' :: '.' :: List.replicate (-lead - 1).toNat '0' ++ digits
  else
    let whole := lead.toNat + 1
    let fraction := digits.drop whole
    digits.take whole ++ List.replicate (whole - digits.length) '0' ++
      '.' :: if fraction.isEmpty then ['0'] else fraction

/-- One digit before the point, the others behind it, and the exponent. -/
def scientificForm (plusSign : Bool) (digits : List Char) (lead : Int) : List Char :=
  let fraction := digits.drop 1
  let sign := if lead < 0 then ['-'] else if plusSign then ['+'] else []
  digits.take 1 ++ (if fraction.isEmpty then [] else '.' :: fraction) ++
    'e' :: sign ++ Nat.toDigits 10 lead.natAbs

/-- The magnitude of a finite double. -/
def NumberFormat.magnitudeForm (format : NumberFormat) (x : Double) : List Char :=
  if x.magnitude = 0 then ['0', '.', '0']
  else
    let shortest := x.shortest format.tie
    let digits := Nat.toDigits 10 shortest.digits
    let lead := shortest.exponent + digits.length - 1
    if format.leastPlain ≤ lead && lead ≤ greatestPlain then plainForm digits lead
    else scientificForm format.plusSign digits lead

/-- A double as text.  Bits that stand for no number have no sign. -/
def NumberFormat.form (format : NumberFormat) (x : Double) : List Char :=
  if x.isNaN then ['N', 'a', 'N']
  else
    let sign := if x.isNegative then ['-'] else []
    sign ++ if x.isInfinite then ['i', 'n', 'f'] else format.magnitudeForm x

end BlockLexer.Decimal
