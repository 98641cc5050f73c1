import JavaEdit.Number.Layout
import JavaEdit.Source.Escape

/-!
# Literals

Constant values as they stand in a source. Floating point literals are bit patterns, so that two
literals can always be told apart; `agrees` compares them as numbers instead. `Literal.text`
writes a literal so that it reads back: negative integers as hexadecimal, values that no literal
denotes as quotients.
-/

namespace JavaEdit

inductive Literal where
  | int (value : Int32)
  | long (value : Int64)
  | float (bits : UInt32)
  | double (bits : UInt64)
  | char (value : Char)
  | string (value : String)
  | boolean (value : Bool)
  | null
  deriving DecidableEq, Repr

namespace Number

/-- Equality of bit patterns as numbers: a NaN equals nothing, the two zeros are equal. -/
def Format.sameNumber (f : Format) (a b : Nat) : Bool :=
  !f.isNaN a && !f.isNaN b && (a == b || (f.magnitude a == 0 && f.magnitude b == 0))

/-- Finite values are positional from `10⁻⁴` below `10¹⁶` and scientific outside. -/
def Format.literalDigits (f : Format) (bits : Nat) : List Char :=
  let d := f.shortest bits
  let body :=
    if d.digits == 0 || (-4 ≤ d.leading && d.leading < 16) then withFraction d.positional
    else d.scientific 'e'
  f.signText bits ++ body

/-- Source text of a floating point value. Suffix `mark` follows every number in it. -/
def Format.literalText (f : Format) (mark : String) (bits : Nat) : String :=
  if f.isNaN bits then "(0.0" ++ mark ++ " / 0.0" ++ mark ++ ")"
  else if f.isInfinite bits then
    "(" ++ String.ofList (f.signText bits) ++ "1.0" ++ mark ++ " / 0.0" ++ mark ++ ")"
  else String.ofList (f.literalDigits bits) ++ mark

end Number

namespace Literal

/-- Whether two literals are the same value; floating point ones are compared as numbers. -/
def agrees : Literal → Literal → Bool
  | float a, float b => Number.Format.single.sameNumber a.toNat b.toNat
  | double a, double b => Number.Format.double.sameNumber a.toNat b.toNat
  | a, b => a == b

/-- Upper-case hexadecimal digits. -/
def hexText (n : Nat) : String :=
  String.ofList ((Nat.toDigits 16 n).map Char.toUpper)

def text : Literal → String
  | int v =>
    if v < 0 then "0x" ++ hexText v.toUInt32.toNat else String.ofList (Number.digitsOf v.toInt.toNat)
  | long v =>
    if v < 0 then "0x" ++ hexText v.toUInt64.toNat ++ "L"
    else String.ofList (Number.digitsOf v.toInt.toNat) ++ "L"
  | float bits => Number.Format.single.literalText "f" bits.toNat
  | double bits => Number.Format.double.literalText "" bits.toNat
  | char c => "'" ++ String.ofList (escape '\'' [c]) ++ "'"
  | string s => "\"" ++ String.ofList (escape '"' s.toList) ++ "\""
  | boolean b => if b then "true" else "false"
  | null => "null"

end Literal

end JavaEdit
