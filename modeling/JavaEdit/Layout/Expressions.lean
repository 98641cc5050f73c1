import JavaEdit.Layout.Piece

/-!
# Layout of types and expressions
-/

namespace JavaEdit.Layout

def primitiveNames : List String :=
  ["boolean", "byte", "char", "short", "int", "long", "float", "double"]

/-- Whether a node is a primitive type without dimensions. -/
def isPrimitiveType : Kind (Tree (List Comment)) → Bool
  | .typeReference name _ _ dimensions => dimensions == 0 && primitiveNames.contains name
  | _ => false

def brackets (n : UInt8) : String := String.join (List.replicate n.toNat "[]")

def isSigned (text : String) : Bool :=
  match text.toList with
  | '+' :: _ | '-' :: _ => true
  | _ => false

def parenthesizedIf (condition : Bool) (text : String) : String :=
  if condition then "(" ++ text ++ ")" else text

def typeText (name : String) (arguments : List Piece) (diamond : Bool) (dimensions : UInt8)
    (depth : Nat) : String :=
  let list :=
    if diamond then "<>"
    else if arguments.isEmpty then ""
    else "<" ++ Piece.list arguments depth ++ ">"
  name ++ list ++ brackets dimensions

def argumentText (arguments : List Piece) (depth : Nat) : String :=
  "(" ++ Piece.list arguments depth ++ ")"

/-- A unary operation. Two signs in a row are kept apart by parentheses. -/
def unaryText (operator : UnaryOperator) (operand : Piece) (depth : Nat) : String :=
  if operator.isPostfix then operand.operand 14 depth ++ operator.symbol
  else
    let text := operand.operand 13 depth
    operator.symbol ++ parenthesizedIf (isSigned text && isSigned operator.symbol) text

/-- A cast. A sign behind a cast to a reference type would read as a binary operator. -/
def castText (type value : Piece) (depth : Nat) : String :=
  let text := value.operand 13 depth
  "(" ++ type.text depth ++ ") "
    ++ parenthesizedIf (!isPrimitiveType type.tree.kind && isSigned text) text

/-- The right side of a binary operation; types are never put in parentheses. -/
def rightText (operator : BinaryOperator) (right : Piece) (depth : Nat) : String :=
  if right.variant == .typeReference || right.variant == .wildcardType then right.text depth
  else right.operand (operator.precedence + 1) depth

def assignmentText : Option BinaryOperator → String
  | some operator => " " ++ operator.symbol ++ "= "
  | none => " = "

/-- Types, expressions and the parts of declarations that stand in one line. -/
def inlinePart (depth : Nat) : Kind Piece → String
  | .parameter name ms annotations type varargs =>
    String.join (annotations.map fun p => p.only .annotationUse depth ++ " ") ++ modifierText ms
      ++ type.text depth ++ (if varargs then "..." else "") ++ " " ++ name
  | .annotationUse name arguments =>
    "@" ++ name ++ (if arguments.isEmpty then "" else argumentText arguments depth)
  | .typeParameter name bounds =>
    let separator := if bounds.isEmpty then "" else " extends "
    name ++ separator ++ " & ".intercalate (bounds.map fun p => p.text depth)
  | .typeReference name arguments diamond dimensions =>
    typeText name arguments diamond dimensions depth
  | .wildcardType none _ => "?"
  | .wildcardType (some bound) upper =>
    "?" ++ (if upper then " extends " else " super ") ++ bound.text depth
  | .literal value => value.text
  | .name name => name
  | .this => "this"
  | .super => "super"
  | .fieldAccess target name => target.operand 15 depth ++ "." ++ name
  | .invocation none name arguments => name ++ argumentText arguments depth
  | .invocation (some target) name arguments =>
    target.operand 15 depth ++ "." ++ name ++ argumentText arguments depth
  | .new type arguments => "new " ++ type.text depth ++ argumentText arguments depth
  | .newArray element dimensions extra =>
    "new " ++ element.text depth
      ++ String.join (dimensions.map fun p => "[" ++ p.text depth ++ "]") ++ brackets extra
  | .arrayAccess target index => target.operand 15 depth ++ "[" ++ index.text depth ++ "]"
  | .binary operator left right =>
    left.operand operator.precedence depth ++ " " ++ operator.symbol ++ " "
      ++ rightText operator right depth
  | .unary operator operand => unaryText operator operand depth
  | .assignment operator target value =>
    target.operand 14 depth ++ assignmentText operator ++ value.operand 1 depth
  | .conditional condition thenValue elseValue =>
    condition.operand 3 depth ++ " ? " ++ thenValue.operand 1 depth ++ " : "
      ++ elseValue.operand 2 depth
  | .cast type value => castText type value depth
  | _ => ""

end JavaEdit.Layout
