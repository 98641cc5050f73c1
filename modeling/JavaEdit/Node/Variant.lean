import JavaEdit.Node.Operator

/-!
# Node variants

The closed set of things a node can be, without their payload. Filters and messages speak of
variants.
-/

namespace JavaEdit

inductive Variant where
  | compilationUnit | classDecl | interfaceDecl | method | constructor | field | parameter
  | annotationUse | typeParameter | typeReference | wildcardType
  | block | localVariable | expressionStatement | ifElse | whileLoop | doWhile | forLoop | forEach
  | returnStmt | throwStmt | breakStmt | continueStmt | tryStmt | catchClause | empty
  | literal | name | fieldAccess | invocation | new | newArray | arrayAccess | binary | unary
  | assignment | conditional | cast | this | super
  deriving DecidableEq, Repr

namespace Variant

def all : List Variant :=
  [compilationUnit, classDecl, interfaceDecl, method, constructor, field, parameter, annotationUse,
   typeParameter, typeReference, wildcardType, block, localVariable, expressionStatement, ifElse,
   whileLoop, doWhile, forLoop, forEach, returnStmt, throwStmt, breakStmt, continueStmt, tryStmt,
   catchClause, empty, literal, name, fieldAccess, invocation, new, newArray, arrayAccess, binary,
   unary, assignment, conditional, cast, this, super]

def text : Variant → String
  | compilationUnit => "CompilationUnit"
  | classDecl => "Class"
  | interfaceDecl => "Interface"
  | method => "Method"
  | constructor => "Constructor"
  | field => "Field"
  | parameter => "Parameter"
  | annotationUse => "Annotation"
  | typeParameter => "TypeParameter"
  | typeReference => "TypeReference"
  | wildcardType => "WildcardType"
  | block => "Block"
  | localVariable => "LocalVariable"
  | expressionStatement => "ExpressionStatement"
  | ifElse => "If"
  | whileLoop => "While"
  | doWhile => "DoWhile"
  | forLoop => "For"
  | forEach => "ForEach"
  | returnStmt => "Return"
  | throwStmt => "Throw"
  | breakStmt => "Break"
  | continueStmt => "Continue"
  | tryStmt => "Try"
  | catchClause => "Catch"
  | empty => "Empty"
  | literal => "Literal"
  | name => "Name"
  | fieldAccess => "FieldAccess"
  | invocation => "Invocation"
  | new => "New"
  | newArray => "NewArray"
  | arrayAccess => "ArrayAccess"
  | binary => "Binary"
  | unary => "Unary"
  | assignment => "Assignment"
  | conditional => "Conditional"
  | cast => "Cast"
  | this => "This"
  | super => "Super"

/-- The variant with this name, in any case and with blanks around it. -/
def ofText? (text : String) : Option Variant :=
  all.find? fun v => Text.sameLetters v.text (Text.trim text)

def isType : Variant → Bool
  | classDecl | interfaceDecl => true
  | _ => false

/-- What a class body may hold. -/
def isMember : Variant → Bool
  | method | constructor | field | classDecl | interfaceDecl => true
  | _ => false

/-- Statements; catch clauses are parts of one. -/
def isStatement : Variant → Bool
  | block | localVariable | expressionStatement | ifElse | whileLoop | doWhile | forLoop | forEach
  | returnStmt | throwStmt | breakStmt | continueStmt | tryStmt | empty => true
  | _ => false

def isExpression : Variant → Bool
  | literal | name | fieldAccess | invocation | new | newArray | arrayAccess | binary | unary
  | assignment | conditional | cast | this | super => true
  | _ => false

/-- A variant together with a simple name, as messages give it. -/
def describe (v : Variant) : Option String → String
  | some simpleName => v.text ++ " '" ++ simpleName ++ "'"
  | none => v.text

end Variant

end JavaEdit
