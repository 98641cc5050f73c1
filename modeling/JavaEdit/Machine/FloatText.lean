import JavaEdit.Machine.Value

/-!
# Text of floating point values

Plain notation between a thousandth and ten million, with at least one digit behind the point;
outside of that one digit before the point and an exponent. A `float` in scientific notation is
written as the `double` it is equal to.
-/

namespace JavaEdit

/-- The longer notation of a finite `double`. -/
def Number.longText (bits : Nat) : List Char :=
  let f := Number.Format.double
  let d := f.shortest bits
  let text := d.scientific 'E'
  let mantissa := text.takeWhile (· != 'E')
  f.signText bits ++ Number.withFraction mantissa ++ text.dropWhile (· != 'E')

/-- Text of a value given as a `double` and as a pattern of the format it has. -/
def Number.valueText (value : Float) (f : Number.Format) (bits : Nat) : String :=
  if value.isNaN then "NaN"
  else if value.isInf then (if 0 < value then "Infinity" else "-Infinity")
  else
    let magnitude := value.abs
    if value == 0 || (0.001 ≤ magnitude && magnitude < 10000000) then
      String.ofList (f.signText bits ++ Number.withFraction (f.shortest bits).positional)
    else String.ofList (Number.longText value.toBits.toNat)

def Number.doubleText (v : Float) : String := Number.valueText v .double v.toBits.toNat

def Number.singleText (v : Float32) : String :=
  Number.valueText v.toFloat .single v.toBits.toNat

end JavaEdit
