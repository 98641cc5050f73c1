/-!
# Binary floating point formats

The two interchange formats of floating point, as exact arithmetic on natural numbers. A bit
pattern without its sign stands for `mantissa * 2 ^ exponent`; `nearest` finds the pattern of a
quotient, rounding half to even, and `remainder` takes one finite value modulo another without
rounding.
-/

namespace JavaEdit.Number

def twoPow (n : Nat) : Nat := Nat.pow 2 n

def tenPow (n : Nat) : Nat := Nat.pow 10 n

/-- A format by the widths of its fraction and exponent fields. -/
structure Format where
  fractionBits : Nat
  exponentBits : Nat
  deriving DecidableEq, Repr

/-- 32 bits: 1 sign, 8 exponent, 23 fraction. -/
def Format.single : Format := ⟨23, 8⟩

/-- 64 bits: 1 sign, 11 exponent, 52 fraction. -/
def Format.double : Format := ⟨52, 11⟩

namespace Format

variable (f : Format)

/-- The sign bit, above all other fields. -/
def signBit : Nat := twoPow (f.fractionBits + f.exponentBits)

/-- The pattern of positive infinity; larger ones are not numbers. -/
def infinity : Nat := (twoPow f.exponentBits - 1) * twoPow f.fractionBits

/-- Exponent of the smallest positive value, `2 ^ leastExponent`. -/
def leastExponent : Int := 2 - (twoPow (f.exponentBits - 1) : Int) - f.fractionBits

def magnitude (bits : Nat) : Nat := bits % f.signBit

def isNegative (bits : Nat) : Bool := f.signBit ≤ bits

def isNaN (bits : Nat) : Bool := f.infinity < f.magnitude bits

def isInfinite (bits : Nat) : Bool := f.magnitude bits == f.infinity

def isFinite (bits : Nat) : Bool := f.magnitude bits < f.infinity

/-- Mantissa of a finite pattern; the leading bit is implied unless the exponent field is zero. -/
def mantissa (bits : Nat) : Nat :=
  let low := f.magnitude bits % twoPow f.fractionBits
  if f.magnitude bits < twoPow f.fractionBits then low else low + twoPow f.fractionBits

def exponent (bits : Nat) : Int :=
  f.leastExponent + ((f.magnitude bits / twoPow f.fractionBits - 1 : Nat) : Int)

/-- Quotient rounded to the nearest natural number, a half to the even neighbour. -/
def roundedQuotient (num den : Nat) : Nat :=
  let q := num / den
  let twice := 2 * (num % den)
  if twice < den then q
  else if den < twice then q + 1
  else if q % 2 == 0 then q else q + 1

/-- Pattern of `quotient * 2 ^ k`, for a quotient of at most one bit more than the fraction. -/
def pack (quotient : Nat) (k : Int) : Nat :=
  if quotient < twoPow f.fractionBits then quotient
  else
    let field := (k - f.leastExponent).toNat + 1
    min f.infinity (field * twoPow f.fractionBits + (quotient - twoPow f.fractionBits))

/-- Pattern of the value nearest to `num / den`, a half going to the even mantissa; values that
are too large become infinite. -/
def nearest (num den : Nat) : Nat :=
  if num == 0 then 0
  else
    -- the quotient lies in [2 ^ (e - 1), 2 ^ (e + 1)) for e the difference of the logarithms
    let estimate : Int := (num.log2 : Int) - den.log2 - f.fractionBits
    let below : Bool :=
      if 0 ≤ estimate then
        decide (num < den * twoPow (estimate.toNat + f.fractionBits))
      else
        decide (num * twoPow (-estimate).toNat < den * twoPow f.fractionBits)
    let exact := if below then estimate - 1 else estimate
    let k := max exact f.leastExponent
    let quotient :=
      if 0 ≤ k then roundedQuotient num (den * twoPow k.toNat)
      else roundedQuotient (num * twoPow (-k).toNat) den
    f.pack quotient k

def digitCount (n : Nat) : Nat := (Nat.toDigits 10 n).length

/-- Pattern of the value nearest to `digits * 10 ^ power`. Powers far outside every format are
answered without computing them. -/
def ofDecimal (digits : Nat) (power : Int) : Nat :=
  if digits == 0 then 0
  else
    let size := power + digitCount digits
    if 400 < size then f.infinity
    else if size < -400 then 0
    else if 0 ≤ power then f.nearest (digits * tenPow power.toNat) 1
    else f.nearest digits (tenPow (-power).toNat)

/-- Pattern of a finite value modulo another finite, nonzero one; the sign is the dividend's. -/
def remainder (a b : Nat) : Nat :=
  let e := min (f.exponent a) (f.exponent b)
  let x := f.mantissa a * twoPow (f.exponent a - e).toNat
  let y := f.mantissa b * twoPow (f.exponent b - e).toNat
  let r := x % y
  let sign := if f.isNegative a then f.signBit else 0
  let size :=
    if 0 ≤ e then f.nearest (r * twoPow e.toNat) 1 else f.nearest r (twoPow (-e).toNat)
  sign + size

end Format

end JavaEdit.Number
