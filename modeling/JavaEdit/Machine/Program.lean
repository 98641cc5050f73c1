import JavaEdit.Machine.Value
import JavaEdit.Parser.Grammar
import JavaEdit.Text.Split

/-!
# Programs

A program is the classes and interfaces of one unit, by simple name. It is made from the bare tree
of the unit, so it depends on nothing but the structure of the source.
-/

namespace JavaEdit

/-- The part of a dotted name behind its last point. -/
def simpleName (name : String) : String := (Text.split '.' name).getLastD name

/-- A type as it stands in a declaration. -/
structure TypeUse where
  path : String
  dimensions : Nat
  deriving DecidableEq, Repr

namespace TypeUse

def ofTree (t : Tree Unit) : TypeUse :=
  match t.kind with
  | .typeReference name _ _ dimensions => ⟨name, dimensions.toNat⟩
  | _ => ⟨"Object", 0⟩

def name (t : TypeUse) : String := simpleName t.path

def primitive? (t : TypeUse) : Option Primitive :=
  if t.dimensions == 0 then Primitive.ofName? t.path else none

end TypeUse

/-- A parameter of a method or constructor. -/
structure ParameterInfo where
  name : String
  type : TypeUse
  varargs : Bool
  deriving DecidableEq, Repr

def ParameterInfo.ofTree? (t : Tree Unit) : Option ParameterInfo :=
  match t.kind with
  | .parameter name _ _ type varargs => some ⟨name, TypeUse.ofTree type, varargs⟩
  | _ => none

/-- The type of a parameter in a signature; dots count as one dimension. -/
def ParameterInfo.typeText (p : ParameterInfo) : String :=
  p.type.name
    ++ String.join (List.replicate (p.type.dimensions + if p.varargs then 1 else 0) "[]")

def signatureOf (name : String) (parameters : List ParameterInfo) : String :=
  name ++ "(" ++ ",".intercalate (parameters.map ParameterInfo.typeText) ++ ")"

structure FieldInfo where
  name : String
  isStatic : Bool
  type : TypeUse
  initializer : Option (Tree Unit)

structure MethodInfo where
  name : String
  isStatic : Bool
  parameters : List ParameterInfo
  returned : TypeUse
  body : Option (Tree Unit)

/-- A constructor, with the statements of its body. -/
structure ConstructorInfo where
  parameters : List ParameterInfo
  statements : List (Tree Unit)

structure ClassInfo where
  name : String
  superclass : Option String
  interfaces : List String
  outer : Option String
  isInterface : Bool
  isAbstract : Bool
  fields : List FieldInfo
  methods : List MethodInfo
  constructors : List ConstructorInfo

inductive LoadError where
  | unreadable (error : ParseError)
  | duplicateField (name owner : String)
  | duplicateMethod (signature owner : String)
  | duplicateConstructor (signature owner : String)
  | missingBody (owner method : String)
  | notAType
  | duplicateClass (name : String)
  | classNotFound (name : String)
  | noDefaultConstructor (name : String)
  deriving DecidableEq, Repr

/-- What is said of a source that is no program. -/
def LoadError.message : LoadError → String
  | unreadable error => error.message
  | duplicateField name owner => "variable " ++ name ++ " is already defined in class " ++ owner
  | duplicateMethod signature owner =>
    "method " ++ signature ++ " is already defined in " ++ owner
  | duplicateConstructor signature owner =>
    "constructor " ++ signature ++ " is already defined in " ++ owner
  | missingBody owner method => "missing method body in " ++ owner ++ "." ++ method
  | notAType => "expected a class or interface"
  | duplicateClass name => "duplicate class: " ++ name
  | classNotFound name => "class " ++ name ++ " not found in source"
  | noDefaultConstructor name => name ++ " has no no-arg constructor"

namespace ClassInfo

def statementsOf (t : Tree Unit) : List (Tree Unit) :=
  match t.kind with
  | .block statements => statements
  | _ => []

/-- A class with one more member, and the signatures that are taken. Members that are no fields,
methods or constructors do not count. -/
def addMember (c : ClassInfo) (signatures : List String) (t : Tree Unit) :
    Except LoadError (ClassInfo × List String) :=
  match t.kind with
  | .field name ms _ type initializer =>
    if c.fields.any fun f => f.name == name then .error (.duplicateField name c.name)
    else
      let added : FieldInfo := ⟨name, ms.contains .static, TypeUse.ofTree type, initializer⟩
      .ok ({ c with fields := c.fields ++ [added] }, signatures)
  | .method name ms _ _ returned parameters _ body =>
    let parameters := parameters.filterMap ParameterInfo.ofTree?
    let signature := signatureOf name parameters
    if signatures.contains signature then .error (.duplicateMethod signature c.name)
    else if body.isNone && !(c.isInterface || ms.contains .abstract || ms.contains .native) then
      .error (.missingBody c.name name)
    else
      let added : MethodInfo :=
        ⟨name, ms.contains .static, parameters, TypeUse.ofTree returned, body⟩
      .ok ({ c with methods := c.methods ++ [added] }, signature :: signatures)
  | .constructor name _ _ parameters _ body =>
    let parameters := parameters.filterMap ParameterInfo.ofTree?
    let signature := signatureOf name parameters
    if signatures.contains signature then .error (.duplicateConstructor signature c.name)
    else
      let added : ConstructorInfo := ⟨parameters, statementsOf body⟩
      .ok ({ c with constructors := c.constructors ++ [added] }, signature :: signatures)
  | _ => .ok (c, signatures)

def addMembers (c : ClassInfo) (signatures : List String) :
    List (Tree Unit) → Except LoadError ClassInfo
  | [] => .ok c
  | t :: rest =>
    match c.addMember signatures t with
    | .error e => .error e
    | .ok (c, signatures) => c.addMembers signatures rest

/-- The class or interface that a node declares inside another one. -/
def ofTree (outer : Option String) (t : Tree Unit) : Except LoadError ClassInfo :=
  match t.kind with
  | .classDecl name ms _ _ superclass interfaces members =>
    addMembers
      { name, superclass := superclass.map fun s => (TypeUse.ofTree s).name
        interfaces := interfaces.map fun i => (TypeUse.ofTree i).name
        outer, isInterface := false, isAbstract := ms.contains .abstract
        fields := [], methods := [], constructors := [] } [] members
  | .interfaceDecl name ms _ _ supertypes members =>
    addMembers
      { name, superclass := none
        interfaces := supertypes.map fun i => (TypeUse.ofTree i).name
        outer, isInterface := true, isAbstract := ms.contains .abstract
        fields := [], methods := [], constructors := [] } [] members
  | _ => .error .notAType

/-- Whether an object can be made without arguments. -/
def hasDefaultConstructor (c : ClassInfo) : Bool :=
  c.constructors.isEmpty || c.constructors.any fun k =>
    match k.parameters with
    | [] => true
    | [p] => p.varargs
    | _ => false

end ClassInfo

/-- A type declaration with the names of the types around it, innermost first. -/
structure TypeDeclaration where
  around : List String
  tree : Tree Unit

/-- The type declarations below a node, in pre-order. -/
def Tree.typeDeclarations (t : Tree Unit) : List String → List TypeDeclaration :=
  t.combine fun _ (kind : Kind (Tree Unit × (List String → List TypeDeclaration))) around =>
    match kind with
    | .classDecl name .. | .interfaceDecl name .. =>
      ⟨around, .node () (kind.map Prod.fst)⟩
        :: kind.children.flatMap fun child => child.2 (name :: around)
    | _ => kind.children.flatMap fun child => child.2 around

def TypeDeclaration.qualifiedName (package : Option String) (d : TypeDeclaration) : String :=
  ".".intercalate (package.toList ++ d.around.reverse ++ d.tree.kind.simpleName?.toList)

/-- The classes of a unit, in the order of their declaration. -/
structure Program where
  classes : List ClassInfo

namespace Program

def class? (p : Program) (name : String) : Option ClassInfo :=
  p.classes.find? fun c => c.name == name

def addClasses (p : Program) : List TypeDeclaration → Except LoadError Program
  | [] => .ok p
  | d :: rest =>
    match ClassInfo.ofTree d.around.head? d.tree with
    | .error e => .error e
    | .ok c =>
      if (p.class? c.name).isSome then .error (.duplicateClass c.name)
      else addClasses ⟨p.classes ++ [c]⟩ rest

def packageOf (t : Tree Unit) : Option String :=
  match t.kind with
  | .compilationUnit package _ _ => package
  | _ => none

def ofTree (qualifiedName : String) (t : Tree Unit) : Except LoadError Program :=
  let declarations := t.typeDeclarations []
  match addClasses ⟨[]⟩ declarations with
  | .error e => .error e
  | .ok p =>
    if declarations.any fun d => d.qualifiedName (packageOf t) == qualifiedName then .ok p
    else .error (.classNotFound qualifiedName)

def load (qualifiedName source : String) : Except LoadError Program :=
  match Arena.empty.readUnit (simpleName qualifiedName ++ ".java") source with
  | (.error e, _) => .error (.unreadable e)
  | (.ok unit, a) => ofTree qualifiedName (a.bare unit)

end Program

end JavaEdit
