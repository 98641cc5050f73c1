import JavaEdit.Number.Shortest

/-!
# Layout of decimals

Positional and scientific text of a decimal. Each output of this library that holds a
floating point number states in its own module which layout it takes and in which range.
-/

namespace JavaEdit.Number

def digitsOf (n : Nat) : List Char := Nat.toDigits 10 n

namespace Decimal

/-- Exponent of the first digit in scientific notation. -/
def leading (d : Decimal) : Int := d.power + (digitsOf d.digits).length - 1

/-- Positional text without an exponent: `120`, `0.05`, `3.25`. -/
def positional (d : Decimal) : List Char :=
  let ds := digitsOf d.digits
  if 0 ≤ d.power then
    if d.digits == 0 then ds else ds ++ List.replicate d.power.toNat '0'
  else
    let places := (-d.power).toNat
    if places < ds.length then
      ds.take (ds.length - places) ++ '.' :: ds.drop (ds.length - places)
    else
      '0' :: '.' :: (List.replicate (places - ds.length) '0' ++ ds)

def signedText (n : Int) : List Char :=
  if n < 0 then '-' :: digitsOf n.natAbs else digitsOf n.natAbs

/-- Scientific text with the given mark: `1.25e-7`, `5E20`. -/
def scientific (mark : Char) (d : Decimal) : List Char :=
  match digitsOf d.digits with
  | [] => []
  | first :: [] => first :: mark :: signedText d.leading
  | first :: rest => first :: '.' :: rest ++ mark :: signedText d.leading

end Decimal

/-- A positional text with a fraction of at least one digit. -/
def withFraction (cs : List Char) : List Char :=
  if cs.contains '.' then cs else cs ++ ['.', '0']

def Format.signText (f : Format) (bits : Nat) : List Char :=
  if f.isNegative bits then ['-'] else []

end JavaEdit.Number
