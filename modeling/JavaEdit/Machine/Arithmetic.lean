import JavaEdit.Machine.Fault
import JavaEdit.Machine.Value

/-!
# Operators on numbers

Integers wrap around at the width of the wider operand and division by zero is a trap. Shifts have
the width of their left operand and take the distance modulo that width. Remainders have the sign
of the dividend.
-/

namespace JavaEdit

/-- Remainder of two patterns of a format; none is not a number. -/
def Number.Format.modulo (f : Number.Format) (a b : Nat) : Nat :=
  if f.isNaN a || f.isNaN b || f.isInfinite a || f.magnitude b == 0 then f.quietNaN
  else if f.isInfinite b then a
  else f.remainder a b

namespace Numeric

def orderHolds (operator : BinaryOperator) : Option Ordering → Bool
  | none => false
  | some order =>
    match operator with
    | .lt => order == .lt
    | .gt => order == .gt
    | .le => order != .gt
    | _ => order != .lt

def shiftInt (operator : BinaryOperator) (v : Int32) (distance : Int64) : Int32 :=
  match operator with
  | .shl => v <<< distance.toInt32
  | .shr => v >>> distance.toInt32
  | _ => (v.toUInt32 >>> distance.toInt32.toUInt32).toInt32

def shiftLong (operator : BinaryOperator) (v distance : Int64) : Int64 :=
  match operator with
  | .shl => v <<< distance
  | .shr => v >>> distance
  | _ => (v.toUInt64 >>> distance.toUInt64).toInt64

def shift (operator : BinaryOperator) (a b : Numeric) : Except Upset Value :=
  match a with
  | int v => .ok (.int (shiftInt operator v b.toInt64))
  | long v => .ok (.long (shiftLong operator v b.toInt64))
  | _ => .error (.fault (.badShift operator))

def onInts (operator : BinaryOperator) (x y : Int32) : Except Upset Value :=
  match operator with
  | .plus => .ok (.int (x + y))
  | .minus => .ok (.int (x - y))
  | .mul => .ok (.int (x * y))
  | .div => if y == 0 then .error (.trap .divisionByZero) else .ok (.int (x / y))
  | .mod => if y == 0 then .error (.trap .divisionByZero) else .ok (.int (x % y))
  | .bitAnd => .ok (.int (x &&& y))
  | .bitOr => .ok (.int (x ||| y))
  | .bitXor => .ok (.int (x ^^^ y))
  | _ => .error (.fault (.badArithmetic operator))

def onLongs (operator : BinaryOperator) (x y : Int64) : Except Upset Value :=
  match operator with
  | .plus => .ok (.long (x + y))
  | .minus => .ok (.long (x - y))
  | .mul => .ok (.long (x * y))
  | .div => if y == 0 then .error (.trap .divisionByZero) else .ok (.long (x / y))
  | .mod => if y == 0 then .error (.trap .divisionByZero) else .ok (.long (x % y))
  | .bitAnd => .ok (.long (x &&& y))
  | .bitOr => .ok (.long (x ||| y))
  | .bitXor => .ok (.long (x ^^^ y))
  | _ => .error (.fault (.badArithmetic operator))

def onSingles (operator : BinaryOperator) (x y : Float32) : Except Upset Value :=
  match operator with
  | .plus => .ok (.float (x + y))
  | .minus => .ok (.float (x - y))
  | .mul => .ok (.float (x * y))
  | .div => .ok (.float (x / y))
  | .mod =>
    let bits := Number.Format.single.modulo x.toBits.toNat y.toBits.toNat
    .ok (.float (Float32.ofBits bits.toUInt32))
  | _ => .error (.fault (.badArithmetic operator))

def onDoubles (operator : BinaryOperator) (x y : Float) : Except Upset Value :=
  match operator with
  | .plus => .ok (.double (x + y))
  | .minus => .ok (.double (x - y))
  | .mul => .ok (.double (x * y))
  | .div => .ok (.double (x / y))
  | .mod =>
    let bits := Number.Format.double.modulo x.toBits.toNat y.toBits.toNat
    .ok (.double (Float.ofBits bits.toUInt64))
  | _ => .error (.fault (.badArithmetic operator))

def arithmetic (operator : BinaryOperator) (a b : Numeric) : Except Upset Value :=
  match promote a b with
  | (int x, int y) => onInts operator x y
  | (long x, long y) => onLongs operator x y
  | (float x, float y) => onSingles operator x y
  | (x, y) => onDoubles operator x.toDouble y.toDouble

def operate (operator : BinaryOperator) (a b : Numeric) : Except Upset Value :=
  match operator with
  | .lt | .gt | .le | .ge => .ok (.boolean (orderHolds operator (compare? a b)))
  | .shl | .shr | .ushr => shift operator a b
  | _ => arithmetic operator a b

/-- A unary operator on a number; none if it has no meaning there. -/
def unary? (operator : UnaryOperator) (n : Numeric) : Option Numeric :=
  match operator, n with
  | .pos, n => some n
  | .neg, int v => some (int (-v))
  | .neg, long v => some (long (-v))
  | .neg, float v => some (float (-v))
  | .neg, double v => some (double (-v))
  | .compl, int v => some (int (~~~v))
  | .compl, long v => some (long (~~~v))
  | _, _ => none

/-- The absolute value; that of the least integer is itself. -/
def abs : Numeric → Numeric
  | int v => int (if v < 0 then -v else v)
  | long v => long (if v < 0 then -v else v)
  | float v => float v.abs
  | double v => double v.abs

end Numeric

end JavaEdit
