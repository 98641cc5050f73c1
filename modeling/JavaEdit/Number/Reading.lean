import JavaEdit.Number.Binary
import JavaEdit.Source.Escape

/-!
# Reading decimals

Decimal texts of floating point numbers: digits with an optional point and exponent, an optional
sign in front, and the names of infinity and of the values that are no numbers.
-/

namespace JavaEdit.Number

def splitDigits (cs : List Char) : List Char × List Char :=
  (cs.takeWhile Char.isDigit, cs.dropWhile Char.isDigit)

/-- The exponent a text ends with: nothing at all, or a mark, a sign and digits. -/
def readExponent? : List Char → Option Int
  | [] => some 0
  | mark :: cs =>
    if mark == 'e' || mark == 'E' then
      match cs with
      | '-' :: ds => (digitsValue? 10 ds).map fun n => -(n : Int)
      | '+' :: ds => (digitsValue? 10 ds).map fun n => (n : Int)
      | ds => (digitsValue? 10 ds).map fun n => (n : Int)
    else none

/-- A number without sign, as digits and a power of ten. -/
def readUnsigned? (cs : List Char) : Option (Nat × Int) :=
  let (whole, cs) := splitDigits cs
  let (fraction, cs) := match cs with
    | '.' :: cs => splitDigits cs
    | cs => ([], cs)
  if whole.isEmpty && fraction.isEmpty then none
  else do
    let digits ← digitsValue? 10 (whole ++ fraction)
    let power ← readExponent? cs
    return (digits, power - fraction.length)

namespace Format

variable (f : Format)

def quietNaN : Nat := f.infinity + twoPow (f.fractionBits - 1)

/-- The pattern a text without sign denotes. -/
def readMagnitude? (cs : List Char) : Option Nat :=
  let word := String.ofList (cs.map Char.toLower)
  if word == "inf" || word == "infinity" then some f.infinity
  else if word == "nan" then some f.quietNaN
  else do
    let (digits, power) ← readUnsigned? cs
    return f.ofDecimal digits power

/-- The pattern a text denotes. A point alone, as in `5.` or `.5`, needs digits on one side. -/
def read? (cs : List Char) : Option Nat :=
  match cs with
  | '-' :: cs => (f.readMagnitude? cs).map (f.signBit + ·)
  | '+' :: cs => f.readMagnitude? cs
  | cs => f.readMagnitude? cs

end Format

end JavaEdit.Number
