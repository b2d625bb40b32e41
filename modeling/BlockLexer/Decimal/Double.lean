/-!
# Double precision numbers

A double is kept as its 64 bits.  This module says which number the bits stand
for (`Double.significand`, `Double.exponent`) and rounds a quotient of natural
numbers to the nearest double (`Double.ofRatio`).  No floating point operation
of the machine is used, so the results can be reasoned about in `Nat` and `Int`.
-/

namespace BlockLexer.Decimal

/-- A double precision number: one sign bit, eleven bits of exponent, and
fifty-two bits of fraction. -/
structure Double where
  bits : UInt64
deriving DecidableEq

namespace Double

/-! ## Reading the bits -/

/-- Positive zero. -/
def zero : Double := ⟨0⟩

/-- The bit above the fraction.  The least significand of a normal double is this
bit alone. -/
def hiddenBit : Nat := 0x10000000000000

/-- The bit of the sign. -/
def signBit : Nat := 0x8000000000000000

/-- The number of the bits below the sign. -/
def magnitude (x : Double) : Nat :=
  x.bits.toNat % signBit

/-- Whether the sign bit is set. -/
def isNegative (x : Double) : Bool :=
  signBit ≤ x.bits.toNat

/-- The magnitude of infinity.  Greater magnitudes are no numbers. -/
def infiniteMagnitude : Nat :=
  0x7ff * hiddenBit

/-- Positive infinity. -/
def infinity : Double :=
  ⟨UInt64.ofNat infiniteMagnitude⟩

/-- An infinity of either sign. -/
def isInfinite (x : Double) : Bool :=
  x.magnitude = infiniteMagnitude

/-- Bits that stand for no number. -/
def isNaN (x : Double) : Bool :=
  infiniteMagnitude < x.magnitude

/-- A finite double is `significand * 2 ^ exponent` up to its sign. -/
def significand (x : Double) : Nat :=
  if x.magnitude < hiddenBit then x.magnitude else x.magnitude % hiddenBit + hiddenBit

/-- The power of two that goes with `significand`. -/
def exponent (x : Double) : Int :=
  if x.magnitude < hiddenBit then -1074 else (x.magnitude / hiddenBit : Nat) - 1075

/-! ## Rounding a quotient -/

/-- The natural number nearest to a quotient.  Half goes to the even neighbour. -/
def roundQuotient (num den : Nat) : Nat :=
  let quotient := num / den
  let twice := 2 * (num % den)
  if twice < den then quotient
  else if den < twice then quotient + 1
  else quotient + quotient % 2

/-- A natural number times a power of two, as a fraction. -/
def scaleByTwo (num den : Nat) (exponent : Int) : Nat × Nat :=
  (num * Nat.pow 2 exponent.toNat, den * Nat.pow 2 (-exponent).toNat)

/-- The exponent of the greatest power of two that is not above a positive quotient. -/
def leadingExponent (num den : Nat) : Int :=
  let guess : Int := (num.log2 : Int) - den.log2
  let (top, bottom) := scaleByTwo num den (-guess)
  if bottom ≤ top then guess else guess - 1

/-- The double nearest to a quotient.  Half goes to the even neighbour, and a
quotient beyond the greatest double becomes infinity. -/
def ofRatio (num den : Nat) : Double :=
  if num = 0 then zero
  else
    let exponent := max (leadingExponent num den - 52) (-1074)
    let (top, bottom) := scaleByTwo num den (-exponent)
    let significand := roundQuotient top bottom
    let magnitude :=
      if significand < hiddenBit then significand
      else (exponent + 1075).toNat * hiddenBit + (significand - hiddenBit)
    ⟨UInt64.ofNat (min magnitude infiniteMagnitude)⟩

/-- The nearest natural number is within half a unit. -/
theorem roundQuotient_near (num den : Nat) (h : 0 < den) :
    2 * (num - roundQuotient num den * den) ≤ den ∧
      2 * (roundQuotient num den * den - num) ≤ den := by
  have hdiv := Nat.div_add_mod num den
  have hlt := Nat.mod_lt num h
  unfold roundQuotient
  generalize num / den = q at *
  generalize num % den = r at *
  subst hdiv
  have hsame : q * den = den * q := Nat.mul_comm q den
  have hnext : (q + 1) * den = den * q + den := by rw [Nat.add_mul, Nat.one_mul, hsame]
  dsimp only
  split
  · rw [hsame]; omega
  · split
    · rw [hnext]; omega
    · rcases Nat.mod_two_eq_zero_or_one q with hq | hq <;> rw [hq]
      · rw [Nat.add_zero, hsame]; omega
      · rw [hnext]; omega

end Double

end BlockLexer.Decimal
