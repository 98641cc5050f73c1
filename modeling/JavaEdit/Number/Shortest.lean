import JavaEdit.Number.Binary

/-!
# Shortest decimals

The decimal with the fewest digits that reads back as a given binary value, and among those the
nearest to the value. Every real between the midpoints to the two neighbours reads back, the
midpoints themselves exactly when the mantissa is even.
-/

namespace JavaEdit.Number

/-- The number `digits * 10 ^ power`. -/
structure Decimal where
  digits : Nat
  power : Int
  deriving DecidableEq, Repr

/-- A positive value `num / den` with the bounds of the interval that reads back as it, all over
the same denominator. -/
structure Interval where
  low : Nat
  value : Nat
  high : Nat
  den : Nat
  closed : Bool

namespace Interval

def holds (i : Interval) (n : Nat) : Bool :=
  if i.closed then i.low ≤ n && n ≤ i.high else i.low < n && n < i.high

end Interval

/-- Interval of a finite nonzero pattern. Below a power of two the neighbour is half as far. -/
def Format.interval (f : Format) (bits : Nat) : Interval :=
  let m := f.mantissa bits
  let e := f.exponent bits - 2
  let step := if m == twoPow f.fractionBits && f.leastExponent < f.exponent bits then 1 else 2
  let up := if 0 ≤ e then twoPow e.toNat else 1
  let den := if 0 ≤ e then 1 else twoPow (-e).toNat
  ⟨(4 * m - step) * up, 4 * m * up, (4 * m + 2) * up, den, m % 2 == 0⟩

/-- The interval over a denominator that makes every multiple of `10 ^ power` a natural number. -/
def Interval.scaled (i : Interval) (power : Int) : Interval :=
  if 0 ≤ power then i
  else
    let t := tenPow (-power).toNat
    ⟨i.low * t, i.value * t, i.high * t, i.den, i.closed⟩

/-- A point of the grid of `10 ^ power` inside the interval, the nearer one of the two around the
value; the upper one when both are equally near. -/
def Interval.gridPoint? (i : Interval) (power : Int) : Option Nat :=
  let s := i.scaled power
  let unit := if 0 ≤ power then i.den * tenPow power.toNat else i.den
  let below := s.value / unit
  let inLow := s.holds (below * unit)
  let inHigh := s.holds ((below + 1) * unit)
  if inLow && inHigh then
    if 2 * (s.value % unit) < unit then some below else some (below + 1)
  else if inLow then some below
  else if inHigh then some (below + 1)
  else none

/-- Largest power of ten that is not above the value. -/
def Interval.decimalExponent (i : Interval) : Int :=
  -- an estimate from below by the binary logarithm, then at most a few steps up
  let log2 : Int := (i.value.log2 : Int) - i.den.log2 - 1
  let estimate := (log2 * 30103).fdiv 100000 - 1
  let fits (p : Int) : Bool :=
    if 0 ≤ p then i.den * tenPow p.toNat ≤ i.value else i.den ≤ i.value * tenPow (-p).toNat
  let rec up : Nat → Int → Int
    | 0, p => p
    | n + 1, p => if fits (p + 1) then up n (p + 1) else p
  up 8 estimate

/-- Digits from the shortest grid that meets the interval, of those with at least `n` digits.
Seventeen digits always suffice, so the fuel is never used up. -/
def Interval.search (i : Interval) (top : Int) : Nat → Nat → Decimal
  | 0, _ => ⟨i.value / i.den, 0⟩
  | fuel + 1, n =>
    let power := top + 1 - n
    match i.gridPoint? power with
    | some digits => ⟨digits, power⟩
    | none => i.search top fuel (n + 1)

/-- The same number without trailing zeros among its digits. -/
def Decimal.stripped : Nat → Decimal → Decimal
  | 0, d => d
  | fuel + 1, d =>
    if d.digits != 0 && d.digits % 10 == 0 then Decimal.stripped fuel ⟨d.digits / 10, d.power + 1⟩
    else d

/-- Shortest decimal that reads back as a finite pattern's magnitude; zero is `0 * 10 ^ 0`. -/
def Format.shortest (f : Format) (bits : Nat) : Decimal :=
  if f.magnitude bits == 0 then ⟨0, 0⟩
  else
    let i := f.interval bits
    Decimal.stripped 400 (i.search i.decimalExponent 20 1)

end JavaEdit.Number
