import JavaEdit.Node.Literal
import JavaEdit.Node.Modifier
import JavaEdit.Node.Variant

/-!
# Node payloads

`Kind α` is the payload of a node whose children have type `α`: indices in an arena, trees, or
nothing at all. The children of a kind stand in source order; `Kind.map` changes them and keeps
everything else, so `Kind Unit` is the payload with its children forgotten.
-/

namespace JavaEdit

structure Import where
  /-- Dotted path without a trailing star. -/
  path : String
  isStatic : Bool
  wildcard : Bool
  deriving DecidableEq, Repr

/-- Payload of a node over the type of its children. -/
inductive Kind (α : Type) where
  | compilationUnit (package : Option String) (imports : List Import) (types : List α)
  | classDecl (name : String) (modifiers : Modifiers) (annotations typeParameters : List α)
      (superclass : Option α) (interfaces members : List α)
  | interfaceDecl (name : String) (modifiers : Modifiers) (annotations typeParameters : List α)
      (supertypes members : List α)
  | method (name : String) (modifiers : Modifiers) (annotations typeParameters : List α)
      (returnType : α) (parameters thrown : List α) (body : Option α)
  | constructor (name : String) (modifiers : Modifiers) (annotations parameters thrown : List α)
      (body : α)
  | field (name : String) (modifiers : Modifiers) (annotations : List α) (type : α)
      (initializer : Option α)
  | parameter (name : String) (modifiers : Modifiers) (annotations : List α) (type : α)
      (varargs : Bool)
  | annotationUse (name : String) (arguments : List α)
  | typeParameter (name : String) (bounds : List α)
  | typeReference (name : String) (arguments : List α) (diamond : Bool) (dimensions : UInt8)
  /-- `? extends T` when `upper`, else `? super T`. -/
  | wildcardType (bound : Option α) (upper : Bool)
  | block (statements : List α)
  | localVariable (name : String) (modifiers : Modifiers) (type : α) (initializer : Option α)
  | expressionStatement (expression : α)
  | ifElse (condition thenBranch : α) (elseBranch : Option α)
  | whileLoop (condition body : α)
  | doWhile (body condition : α)
  | forLoop (init : List α) (condition : Option α) (update : List α) (body : α)
  | forEach (element iterable body : α)
  | returnStmt (value : Option α)
  | throwStmt (value : α)
  | breakStmt (label : Option String)
  | continueStmt (label : Option String)
  | tryStmt (body : α) (catchers : List α) (finalizer : Option α)
  | catchClause (name : String) (modifiers : Modifiers) (types : List α) (body : α)
  | empty
  | literal (value : Literal)
  | name (name : String)
  | fieldAccess (target : α) (name : String)
  | invocation (target : Option α) (name : String) (arguments : List α)
  | new (type : α) (arguments : List α)
  | newArray (element : α) (dimensions : List α) (extraDimensions : UInt8)
  | arrayAccess (target index : α)
  | binary (operator : BinaryOperator) (left right : α)
  | unary (operator : UnaryOperator) (operand : α)
  /-- Without operator it is the plain `=`. -/
  | assignment (operator : Option BinaryOperator) (target value : α)
  | conditional (condition thenValue elseValue : α)
  | cast (type expression : α)
  | this
  | super
  deriving DecidableEq, Repr

namespace Kind

variable {α β : Type}

def variant : Kind α → Variant
  | compilationUnit .. => .compilationUnit
  | classDecl .. => .classDecl
  | interfaceDecl .. => .interfaceDecl
  | method .. => .method
  | constructor .. => .constructor
  | field .. => .field
  | parameter .. => .parameter
  | annotationUse .. => .annotationUse
  | typeParameter .. => .typeParameter
  | typeReference .. => .typeReference
  | wildcardType .. => .wildcardType
  | block .. => .block
  | localVariable .. => .localVariable
  | expressionStatement .. => .expressionStatement
  | ifElse .. => .ifElse
  | whileLoop .. => .whileLoop
  | doWhile .. => .doWhile
  | forLoop .. => .forLoop
  | forEach .. => .forEach
  | returnStmt .. => .returnStmt
  | throwStmt .. => .throwStmt
  | breakStmt .. => .breakStmt
  | continueStmt .. => .continueStmt
  | tryStmt .. => .tryStmt
  | catchClause .. => .catchClause
  | empty => .empty
  | literal .. => .literal
  | name .. => .name
  | fieldAccess .. => .fieldAccess
  | invocation .. => .invocation
  | new .. => .new
  | newArray .. => .newArray
  | arrayAccess .. => .arrayAccess
  | binary .. => .binary
  | unary .. => .unary
  | assignment .. => .assignment
  | conditional .. => .conditional
  | cast .. => .cast
  | this => .this
  | super => .super

def children : Kind α → List α
  | compilationUnit _ _ types => types
  | classDecl _ _ annotations typeParameters superclass interfaces members =>
    annotations ++ typeParameters ++ superclass.toList ++ interfaces ++ members
  | interfaceDecl _ _ annotations typeParameters supertypes members =>
    annotations ++ typeParameters ++ supertypes ++ members
  | method _ _ annotations typeParameters returnType parameters thrown body =>
    annotations ++ typeParameters ++ [returnType] ++ parameters ++ thrown ++ body.toList
  | constructor _ _ annotations parameters thrown body =>
    annotations ++ parameters ++ thrown ++ [body]
  | field _ _ annotations type initializer => annotations ++ [type] ++ initializer.toList
  | parameter _ _ annotations type _ => annotations ++ [type]
  | annotationUse _ arguments => arguments
  | typeParameter _ bounds => bounds
  | typeReference _ arguments _ _ => arguments
  | wildcardType bound _ => bound.toList
  | block statements => statements
  | localVariable _ _ type initializer => type :: initializer.toList
  | expressionStatement expression => [expression]
  | ifElse condition thenBranch elseBranch => condition :: thenBranch :: elseBranch.toList
  | whileLoop condition body => [condition, body]
  | doWhile body condition => [body, condition]
  | forLoop init condition update body => init ++ condition.toList ++ update ++ [body]
  | forEach element iterable body => [element, iterable, body]
  | returnStmt value => value.toList
  | throwStmt value => [value]
  | breakStmt _ => []
  | continueStmt _ => []
  | tryStmt body catchers finalizer => body :: catchers ++ finalizer.toList
  | catchClause _ _ types body => types ++ [body]
  | empty => []
  | literal _ => []
  | name _ => []
  | fieldAccess target _ => [target]
  | invocation target _ arguments => target.toList ++ arguments
  | new type arguments => type :: arguments
  | newArray element dimensions _ => element :: dimensions
  | arrayAccess target index => [target, index]
  | binary _ left right => [left, right]
  | unary _ operand => [operand]
  | assignment _ target value => [target, value]
  | conditional condition thenValue elseValue => [condition, thenValue, elseValue]
  | cast type expression => [type, expression]
  | this => []
  | super => []

/-- The payload with every child changed by `f`. -/
def map (f : α → β) : Kind α → Kind β
  | compilationUnit package imports types => compilationUnit package imports (types.map f)
  | classDecl n ms annotations typeParameters superclass interfaces members =>
    classDecl n ms (annotations.map f) (typeParameters.map f) (superclass.map f)
      (interfaces.map f) (members.map f)
  | interfaceDecl n ms annotations typeParameters supertypes members =>
    interfaceDecl n ms (annotations.map f) (typeParameters.map f) (supertypes.map f)
      (members.map f)
  | method n ms annotations typeParameters returnType parameters thrown body =>
    method n ms (annotations.map f) (typeParameters.map f) (f returnType) (parameters.map f)
      (thrown.map f) (body.map f)
  | constructor n ms annotations parameters thrown body =>
    constructor n ms (annotations.map f) (parameters.map f) (thrown.map f) (f body)
  | field n ms annotations type initializer =>
    field n ms (annotations.map f) (f type) (initializer.map f)
  | parameter n ms annotations type varargs => parameter n ms (annotations.map f) (f type) varargs
  | annotationUse n arguments => annotationUse n (arguments.map f)
  | typeParameter n bounds => typeParameter n (bounds.map f)
  | typeReference n arguments diamond dimensions =>
    typeReference n (arguments.map f) diamond dimensions
  | wildcardType bound upper => wildcardType (bound.map f) upper
  | block statements => block (statements.map f)
  | localVariable n ms type initializer => localVariable n ms (f type) (initializer.map f)
  | expressionStatement expression => expressionStatement (f expression)
  | ifElse condition thenBranch elseBranch =>
    ifElse (f condition) (f thenBranch) (elseBranch.map f)
  | whileLoop condition body => whileLoop (f condition) (f body)
  | doWhile body condition => doWhile (f body) (f condition)
  | forLoop init condition update body =>
    forLoop (init.map f) (condition.map f) (update.map f) (f body)
  | forEach element iterable body => forEach (f element) (f iterable) (f body)
  | returnStmt value => returnStmt (value.map f)
  | throwStmt value => throwStmt (f value)
  | breakStmt label => breakStmt label
  | continueStmt label => continueStmt label
  | tryStmt body catchers finalizer => tryStmt (f body) (catchers.map f) (finalizer.map f)
  | catchClause n ms types body => catchClause n ms (types.map f) (f body)
  | empty => empty
  | literal value => literal value
  | name n => name n
  | fieldAccess target n => fieldAccess (f target) n
  | invocation target n arguments => invocation (target.map f) n (arguments.map f)
  | new type arguments => new (f type) (arguments.map f)
  | newArray element dimensions extra => newArray (f element) (dimensions.map f) extra
  | arrayAccess target index => arrayAccess (f target) (f index)
  | binary op left right => binary op (f left) (f right)
  | unary op operand => unary op (f operand)
  | assignment op target value => assignment op (f target) (f value)
  | conditional condition thenValue elseValue =>
    conditional (f condition) (f thenValue) (f elseValue)
  | cast type expression => cast (f type) (f expression)
  | this => this
  | super => super

/-- The payload with its children forgotten. -/
def shape (k : Kind α) : Kind Unit := k.map fun _ => ()

/-- Whether two shapes agree: equal, with floating point literals compared as numbers. -/
def shapesAgree : Kind Unit → Kind Unit → Bool
  | literal a, literal b => a.agrees b
  | a, b => a == b

def simpleName? : Kind α → Option String
  | classDecl n .. | interfaceDecl n .. | method n .. | constructor n .. | field n ..
  | parameter n .. | annotationUse n _ | typeParameter n _ | typeReference n ..
  | localVariable n .. | catchClause n .. | name n | fieldAccess _ n | invocation _ n _ => some n
  | _ => none

/-- The payload with another simple name, if it has one. -/
def rename? (new : String) : Kind α → Option (Kind α)
  | classDecl _ ms as ts sup is members => some (classDecl new ms as ts sup is members)
  | interfaceDecl _ ms as ts sups members => some (interfaceDecl new ms as ts sups members)
  | method _ ms as ts r ps th body => some (method new ms as ts r ps th body)
  | constructor _ ms as ps th body => some (constructor new ms as ps th body)
  | field _ ms as type i => some (field new ms as type i)
  | parameter _ ms as type v => some (parameter new ms as type v)
  | annotationUse _ as => some (annotationUse new as)
  | typeParameter _ bs => some (typeParameter new bs)
  | typeReference _ as d n => some (typeReference new as d n)
  | localVariable _ ms type i => some (localVariable new ms type i)
  | catchClause _ ms ts body => some (catchClause new ms ts body)
  | name _ => some (name new)
  | fieldAccess t _ => some (fieldAccess t new)
  | invocation t _ as => some (invocation t new as)
  | _ => none

def modifiers? : Kind α → Option Modifiers
  | classDecl _ ms .. | interfaceDecl _ ms .. | method _ ms .. | constructor _ ms ..
  | field _ ms .. | parameter _ ms .. | localVariable _ ms .. | catchClause _ ms .. => some ms
  | _ => none

def withModifiers? (new : Modifiers) : Kind α → Option (Kind α)
  | classDecl n _ as ts sup is members => some (classDecl n new as ts sup is members)
  | interfaceDecl n _ as ts sups members => some (interfaceDecl n new as ts sups members)
  | method n _ as ts r ps th body => some (method n new as ts r ps th body)
  | constructor n _ as ps th body => some (constructor n new as ps th body)
  | field n _ as type i => some (field n new as type i)
  | parameter n _ as type v => some (parameter n new as type v)
  | localVariable n _ type i => some (localVariable n new type i)
  | catchClause n _ ts body => some (catchClause n new ts body)
  | _ => none

/-- The body of a declaration, a loop or a part of a `try`. -/
def body? : Kind α → Option α
  | method _ _ _ _ _ _ _ body => body
  | constructor _ _ _ _ _ body | whileLoop _ body | doWhile body _ | forLoop _ _ _ body
  | forEach _ _ body | tryStmt body _ _ | catchClause _ _ _ body => some body
  | _ => none

def members : Kind α → List α
  | classDecl _ _ _ _ _ _ members => members
  | interfaceDecl _ _ _ _ _ members => members
  | _ => []

/-- The class or interface with its member list changed by `f`. -/
def mapMembers? (f : List α → List α) : Kind α → Option (Kind α)
  | classDecl n ms as ts sup is members => some (classDecl n ms as ts sup is (f members))
  | interfaceDecl n ms as ts sups members => some (interfaceDecl n ms as ts sups (f members))
  | _ => none

/-- The variant and simple name of a payload, as messages give them. -/
def describe (k : Kind α) : String := k.variant.describe k.simpleName?

end Kind

end JavaEdit
