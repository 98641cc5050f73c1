import JavaEdit.Node.Literal
import JavaEdit.Number.Reading

/-!
# Values

What expressions evaluate to, and the slots that variables and fields keep them in. Objects and
arrays are references into the heap. A slot of a primitive type converts what is stored in it.
-/

namespace JavaEdit

/-- Types whose values are no references. -/
inductive Primitive where
  | boolean | byte | short | char | int | long | float | double
  deriving DecidableEq, Repr

def Primitive.ofName? : String → Option Primitive
  | "boolean" => some boolean
  | "byte" => some byte
  | "short" => some short
  | "char" => some char
  | "int" => some int
  | "long" => some long
  | "float" => some float
  | "double" => some double
  | _ => none

/-- A number after unary promotion. -/
inductive Numeric where
  | int (v : Int32)
  | long (v : Int64)
  | float (v : Float32)
  | double (v : Float)

namespace Numeric

/-- As an `int`: the low bits of an integer, the nearest bound for what does not fit otherwise. -/
def toInt32 : Numeric → Int32
  | int v => v
  | long v => v.toInt32
  | float v => v.toFloat.toInt32
  | double v => v.toInt32

def toInt64 : Numeric → Int64
  | int v => v.toInt64
  | long v => v
  | float v => v.toFloat.toInt64
  | double v => v.toInt64

def toDouble : Numeric → Float
  | int v => v.toFloat
  | long v => v.toFloat
  | float v => v.toFloat
  | double v => v

def toSingle (n : Numeric) : Float32 := n.toDouble.toFloat32

/-- Place among the numeric types, `int` first. -/
def rank : Numeric → Nat
  | int _ => 0
  | long _ => 1
  | float _ => 2
  | double _ => 3

def toRank (n : Numeric) : Nat → Numeric
  | 0 => int n.toInt32
  | 1 => long n.toInt64
  | 2 => float n.toSingle
  | _ => double n.toDouble

/-- Binary promotion: both numbers are brought to the higher of their ranks. -/
def promote (a b : Numeric) : Numeric × Numeric :=
  let rank := max a.rank b.rank
  (a.toRank rank, b.toRank rank)

/-- Equality of numbers after promotion. -/
def same (a b : Numeric) : Bool :=
  match promote a b with
  | (int x, int y) => x == y
  | (long x, long y) => x == y
  | (float x, float y) => x == y
  | (x, y) => x.toDouble == y.toDouble

/-- Order of two numbers; none if one of them is not a number. -/
def compare? (a b : Numeric) : Option Ordering :=
  match promote a b with
  | (int x, int y) => some (if x < y then .lt else if x == y then .eq else .gt)
  | (long x, long y) => some (if x < y then .lt else if x == y then .eq else .gt)
  | (x, y) =>
    let x := x.toDouble
    let y := y.toDouble
    if x < y then some .lt else if x == y then some .eq else if y < x then some .gt else none

end Numeric

inductive Value where
  /-- What a method without result gives. -/
  | void
  | null
  | boolean (b : Bool)
  | char (c : Char)
  /-- Also of the types `byte` and `short`. -/
  | int (v : Int32)
  | long (v : Int64)
  | float (v : Float32)
  | double (v : Float)
  | string (s : String)
  | object (ref : Nat)
  | array (ref : Nat)
  deriving Inhabited

namespace Value

def ofLiteral : Literal → Value
  | .int v => int v
  | .long v => long v
  | .float bits => float (Float32.ofBits bits)
  | .double bits => double (Float.ofBits bits)
  | .char c => char c
  | .string s => string s
  | .boolean b => boolean b
  | .null => null

def ofNumeric : Numeric → Value
  | .int v => int v
  | .long v => long v
  | .float v => float v
  | .double v => double v

def numeric? : Value → Option Numeric
  | char c => some (.int c.toNat.toUInt32.toInt32)
  | int v => some (.int v)
  | long v => some (.long v)
  | float v => some (.float v)
  | double v => some (.double v)
  | _ => none

/-- What a primitive variable holds before anything is stored in it. -/
def default : Option Primitive → Value
  | none => null
  | some .boolean => boolean false
  | some .char => char '\x00'
  | some .byte | some .short | some .int => int 0
  | some .long => long 0
  | some .float => float 0
  | some .double => double 0

/-- The character with a 16 bit code; surrogates are replaced. -/
def charOfCode (code : UInt16) : Char :=
  if code < 0xD800 || 0xDFFF < code then Char.ofNat code.toNat else '\uFFFD'

/-- A number converted to a primitive type; booleans take no numbers. -/
def ofNumericAs (n : Numeric) : Primitive → Value → Value
  | .boolean, v => v
  | .int, _ => int n.toInt32
  | .byte, _ => int n.toInt32.toInt8.toInt32
  | .short, _ => int n.toInt32.toInt16.toInt32
  | .char, _ => char (charOfCode n.toInt32.toInt16.toUInt16)
  | .long, _ => long n.toInt64
  | .float, _ => float n.toSingle
  | .double, _ => double n.toDouble

/-- A value converted for a slot. Slots of reference types and values that are no numbers leave it
as it is. -/
def convert (v : Value) (primitive : Option Primitive) : Value :=
  match primitive, v.numeric? with
  | some p, some n => ofNumericAs n p v
  | _, _ => v

/-- Equality as `==` has it: numbers after promotion, texts by content, references by identity. -/
def same (a b : Value) : Bool :=
  match a, b with
  | void, void | null, null => true
  | boolean x, boolean y => x == y
  | string x, string y => x == y
  | object x, object y => x == y
  | array x, array y => x == y
  | _, _ =>
    match a.numeric?, b.numeric? with
    | some x, some y => x.same y
    | _, _ => false

def primitive? : Value → Option Primitive
  | boolean _ => some .boolean
  | char _ => some .char
  | int _ => some .int
  | long _ => some .long
  | float _ => some .float
  | double _ => some .double
  | _ => none

def isNull : Value → Bool
  | null => true
  | _ => false

def isArrayOrNull : Value → Bool
  | array _ | null => true
  | _ => false

end Value

/-- A variable or field. -/
structure Slot where
  value : Value
  primitive : Option Primitive

namespace Slot

def make (value : Value) (primitive : Option Primitive) : Slot :=
  ⟨value.convert primitive, primitive⟩

def store (s : Slot) (value : Value) : Slot := { s with value := value.convert s.primitive }

end Slot

/-- Slots by name, no name twice. -/
abbrev Scope := List (String × Slot)

namespace Scope

def get? (s : Scope) (name : String) : Option Slot := s.lookup name

def insert (s : Scope) (name : String) (slot : Slot) : Scope :=
  match s with
  | [] => [(name, slot)]
  | (key, old) :: rest =>
    if name == key then (name, slot) :: rest else (key, old) :: Scope.insert rest name slot

end Scope

end JavaEdit
