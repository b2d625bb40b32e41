import BlockLexer.Decimal.Numeral

/-!
# Shortest decimal digits

The fewest digits that read back to a double.  The reals that round to a double
form an interval around it.  For one, two, … seventeen digits the two decimals
next to the double are tried, and the first length that puts one of them into
the interval wins; of two hits the nearer is taken, and an exact tie is a
decision of the format (`Tie`).
-/

namespace BlockLexer.Decimal

/-- Which of two equally near decimals is taken. -/
inductive Tie where
  | toEven
  | upward

/-- A decimal: `digits * 10 ^ exponent`. -/
structure Shortest where
  digits : Nat
  exponent : Int

/-- The reals that round to a positive double, in quarters of its unit.  The ends
belong to it if `closed` holds. -/
structure RoundingInterval where
  low : Nat
  value : Nat
  high : Nat
  closed : Bool

/-- Below a power of two the doubles lie closer together, so the interval reaches
only half as far down. -/
def Double.roundingInterval (x : Double) : RoundingInterval :=
  let m := x.significand
  let isPower := m = Double.hiddenBit && -1074 < x.exponent
  { low := 4 * m - (if isPower then 1 else 2)
    value := 4 * m
    high := 4 * m + 2
    closed := m % 2 = 0 }

/-- The decimals of a given number of digits next to a double.  `unit` is a quarter
of the double's unit as a fraction, and `lead` the exponent of its first digit. -/
def shortestOf (interval : RoundingInterval) (unit : Nat × Nat) (lead : Int) (tie : Tie)
    (count : Nat) : Option Shortest :=
  let exponent := lead + 1 - (count : Int)
  -- all quantities are multiplied by `scale` and divided by the grid
  let grid := Nat.pow 10 exponent.toNat * unit.2
  let scale := Nat.pow 10 (-exponent).toNat * unit.1
  let value := interval.value * scale
  let below := value / grid
  let within (digits : Nat) : Bool :=
    if interval.closed then
      interval.low * scale ≤ digits * grid && digits * grid ≤ interval.high * scale
    else interval.low * scale < digits * grid && digits * grid < interval.high * scale
  let lower : Shortest := ⟨below, exponent⟩
  let upper : Shortest := ⟨below + 1, exponent⟩
  match within below, within (below + 1) with
  | false, false => none
  | true, false => some lower
  | false, true => some upper
  | true, true =>
    let twice := 2 * value
    let middle := (2 * below + 1) * grid
    if twice < middle then some lower
    else if middle < twice then some upper
    else match tie with
      | .upward => some upper
      | .toEven => some (if below % 2 = 0 then lower else upper)

/-- The exponent of the first decimal digit of a positive fraction that is at least
`10 ^ -340`. -/
def leadingDecimalExponent (num den : Nat) : Int :=
  (digitCount (num * Nat.pow 10 340 / den) : Int) - 341

/-- The number without its trailing zeros, at most as many as `fuel`. -/
def dropZeros : Nat → Shortest → Shortest
  | 0, d => d
  | fuel + 1, d =>
    if d.digits % 10 = 0 then dropZeros fuel ⟨d.digits / 10, d.exponent + 1⟩ else d

/-- The shortest decimal that reads back to the magnitude of a finite double other
than zero. -/
def Double.shortest (x : Double) (tie : Tie) : Shortest :=
  let interval := x.roundingInterval
  let unit := Double.scaleByTwo 1 1 (x.exponent - 2)
  let lead := leadingDecimalExponent (interval.value * unit.1) unit.2
  let found := (List.range 17).findSome? fun n => shortestOf interval unit lead tie (n + 1)
  dropZeros 17 (found.getD ⟨0, 0⟩)

end BlockLexer.Decimal
