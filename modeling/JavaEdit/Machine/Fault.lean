import JavaEdit.Node.Variant

/-!
# What can go wrong in a program

A trap is an exception that the machine itself throws; programs can catch it. A fault is something
a compiler would have rejected; it ends the run. Both are worded here.
-/

namespace JavaEdit

inductive Trap where
  | divisionByZero
  | nullMember (member : String)
  | arrayIndex (index : Int32) (length : Nat)
  | negativeSize (size : Int32)
  | badCast (found target : String)
  | textRange (start stop length : Int)
  | textIndex (index : Int32) (length : Nat)
  | notANumber (text : String)
  | stackOverflow
  deriving DecidableEq, Repr

namespace Trap

def className : Trap → String
  | divisionByZero => "ArithmeticException"
  | nullMember _ => "NullPointerException"
  | arrayIndex .. => "ArrayIndexOutOfBoundsException"
  | negativeSize _ => "NegativeArraySizeException"
  | badCast .. => "ClassCastException"
  | textRange .. => "StringIndexOutOfBoundsException"
  | textIndex .. => "StringIndexOutOfBoundsException"
  | notANumber _ => "NumberFormatException"
  | stackOverflow => "StackOverflowError"

def message? : Trap → Option String
  | divisionByZero => some "/ by zero"
  | nullMember member => some ("Cannot invoke \"" ++ member ++ "\" because value is null")
  | arrayIndex index length | textIndex index length =>
    some ("Index " ++ toString index.toInt ++ " out of bounds for length " ++ toString length)
  | negativeSize size => some (toString size.toInt)
  | badCast found target => some ("class " ++ found ++ " cannot be cast to class " ++ target)
  | textRange start stop length =>
    some ("begin " ++ toString start ++ ", end " ++ toString stop ++ ", length "
      ++ toString length)
  | notANumber text => some ("For input string: \"" ++ text ++ "\"")
  | stackOverflow => none

end Trap

/-- What a compiler would have rejected. Types and classes appear by name. -/
inductive Fault where
  | unknownVariable (name : String)
  | unknownStatic (owner name : String)
  | unknownMember (name owner : String)
  | unassignable (owner name : String)
  | badTarget (variant : Variant)
  | arrayRequired (found : String)
  | badIndex
  | undeclared
  | incompatible (found target : String)
  | notIterable (found : String)
  | badElement
  | notAStatement (variant : Variant)
  | notAnExpression (variant : Variant)
  | staticContext (what : String)
  | badOperands (operator : BinaryOperator) (left right : String)
  | badShift (operator : BinaryOperator)
  | badArithmetic (operator : BinaryOperator)
  | badOperand (operator : UnaryOperator) (found : String)
  | unknownMethod (name : String)
  | unknownStaticMethod (owner name : String)
  | unknownMethodOf (name owner : String)
  | arrayMethod (name : String)
  | lateConstructorCall (name : String)
  | voidReceiver
  | incomparable
  | badArguments (method : String)
  | badArgument (method : String)
  | badArgumentType (method found : String)
  | wrongCount (expected found : Nat)
  | abstractCall (owner name : String)
  | strayJump
  | abstractClass (name : String)
  | noTextConstructor (found : String)
  | unknownClass (name : String)
  | noSuchConstructor (name : String)
  | noSuitableConstructor (name : String)
  deriving DecidableEq, Repr

def Fault.message : Fault → String
  | unknownVariable name => "cannot find symbol: variable " ++ name
  | unknownStatic owner name => "cannot find symbol: variable " ++ owner ++ "." ++ name
  | unknownMember name owner => "cannot find symbol: variable " ++ name ++ " in " ++ owner
  | unassignable owner name => "cannot assign a value to " ++ owner ++ "." ++ name
  | badTarget variant => "unexpected assignment target " ++ variant.text
  | arrayRequired found => "array required, but " ++ found ++ " found"
  | badIndex => "array index must be an int"
  | undeclared => "cannot assign a value to an undeclared variable"
  | incompatible found target =>
    "incompatible types: " ++ found ++ " cannot be converted to " ++ target
  | notIterable found => "for-each not applicable to expression type " ++ found
  | badElement => "malformed for-each variable"
  | notAStatement variant => "not a statement: " ++ variant.text
  | notAnExpression variant => "not an expression: " ++ variant.text
  | staticContext what =>
    "non-static " ++ what ++ " cannot be referenced from a static context"
  | badOperands operator left right =>
    "bad operand types for binary operator '" ++ operator.symbol ++ "': " ++ left ++ " and "
      ++ right
  | badShift operator => "bad operand types for shift operator '" ++ operator.symbol ++ "'"
  | badArithmetic operator => "bad operand types for '" ++ operator.symbol ++ "'"
  | badOperand operator found =>
    "bad operand type " ++ found ++ " for unary operator '" ++ operator.symbol ++ "'"
  | unknownMethod name => "cannot find symbol: method " ++ name
  | unknownStaticMethod owner name => "cannot find symbol: method " ++ owner ++ "." ++ name
  | unknownMethodOf name owner => "cannot find symbol: method " ++ name ++ " in " ++ owner
  | arrayMethod name => "cannot find symbol: method " ++ name ++ " on array"
  | lateConstructorCall name => "call to " ++ name ++ " must be first statement in constructor"
  | voidReceiver => "'void' type not allowed here"
  | incomparable => "incomparable types"
  | badArguments method => "bad arguments for " ++ method
  | badArgument method => "bad argument for " ++ method
  | badArgumentType method found => "bad argument for " ++ method ++ ": " ++ found
  | wrongCount expected found =>
    "wrong number of arguments: expected " ++ toString expected ++ ", found " ++ toString found
  | abstractCall owner name => "abstract method " ++ owner ++ "." ++ name ++ " cannot be invoked"
  | strayJump => "break or continue outside of loop"
  | abstractClass name => name ++ " is abstract; cannot be instantiated"
  | noTextConstructor found => "no suitable constructor for String(" ++ found ++ ")"
  | unknownClass name => "cannot find symbol: class " ++ name
  | noSuchConstructor name =>
    "constructor " ++ name ++ " in class " ++ name ++ " cannot be applied to given types"
  | noSuitableConstructor name => "no suitable constructor found for " ++ name

/-- Why an operation on values has no result. -/
inductive Upset where
  | trap (t : Trap)
  | fault (f : Fault)
  deriving DecidableEq, Repr

end JavaEdit
