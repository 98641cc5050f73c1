import JavaEdit.Files.Path
import JavaEdit.Fragment.Basic
import JavaEdit.Project.Index

/-!
# Projects

A project is an arena with the units that were read into it and an index of the types they
declare. Input units are printed again; classpath units only take part in look-ups, and a type of
an input unit hides one of the same name in a classpath unit.
-/

namespace JavaEdit

inductive UnitRole where
  | input | classpath
  deriving DecidableEq, Repr

/-- A text to be read as a unit. -/
structure SourceText where
  name : String
  path : Option String
  text : String
  deriving DecidableEq, Repr

structure ProjectUnit where
  name : String
  path : Option String
  root : NodeId
  role : UnitRole
  deriving DecidableEq, Repr

/-- Units with their nodes and types. -/
structure Project where
  arena : Arena
  units : List ProjectUnit
  types : TypeIndex
  deriving Repr

inductive ProjectError where
  | unreadable (error : ParseError)
  | duplicateType (name first second : String)
  deriving DecidableEq, Repr

def ProjectError.message : ProjectError → String
  | unreadable error => error.message
  | duplicateType name first second =>
    "type '" ++ name ++ "' is declared in both " ++ first ++ " and " ++ second

namespace Project

def empty : Project := ⟨.empty, [], .empty⟩

def inputs (p : Project) : List ProjectUnit := p.units.filter fun u => u.role == .input

def unitOf? (p : Project) (id : NodeId) : Option ProjectUnit := do
  let root ← p.arena.unitOf? id
  p.units.find? fun u => u.root == root

/-- Put the declarations of a new unit into the index, one after the other. Those before a
duplicate stay. -/
def register (unitName : String) (role : UnitRole) :
    List NodeId → ExceptT ProjectError (StateM Project) Unit
  | [] => return ()
  | id :: rest => do
    let p ← get
    match p.arena.qualifiedName? id with
    | none => register unitName role rest
    | some name =>
      match p.types.get? name with
      | none =>
        set { p with types := p.types.insert name id }
        register unitName role rest
      | some other =>
        let unit := p.unitOf? other
        if role == .classpath then register unitName role rest
        else if unit.any fun u => u.role == .classpath then
          set { p with types := p.types.insert name id }
          register unitName role rest
        else throw (.duplicateType name ((unit.map fun u => u.name).getD "") unitName)

def addUnit (source : SourceText) (role : UnitRole) :
    ExceptT ProjectError (StateM Project) NodeId := do
  let p ← get
  let (outcome, arena) := p.arena.readUnit source.name source.text
  set { p with arena }
  match outcome with
  | .error e => throw (.unreadable e)
  | .ok root =>
    register source.name role (arena.elements root fun a id => (a.variant id).isType)
    modify fun p => { p with units := p.units ++ [⟨source.name, source.path, root, role⟩] }
    return root

/-- A type by its qualified name, or by its simple name when there is no point in it; the first in
the order of qualified names. -/
def findType? (p : Project) (name : String) : Option NodeId :=
  match p.types.get? name with
  | some id => some id
  | none =>
    if name.toList.contains '.' then none
    else
      (p.types.entries.map fun e => e.2).find? fun id => p.arena.simpleName? id == some name

def lastPart (name : String) : String := (Text.split '.' name).getLastD name

def getType (p : Project) (name : String) : Except QueryError NodeId :=
  match p.findType? name with
  | some id => .ok id
  | none =>
    let candidates := p.types.entries.map fun e => lastPart e.1
    .error (.notFound .classDecl name (Text.closest name candidates))

/-- The first node of a variant and name in the input units. -/
def findNamed? (p : Project) (v : Variant) (name : String) : Option NodeId :=
  p.inputs.findSome? fun u => p.arena.findNamed? u.root v name

/-- Package and imports of the unit of a type, and the type. -/
def standaloneSource (p : Project) (id : NodeId) : String :=
  Fragment.headerOf p.arena id ++ p.arena.text id ++ "\n"

/-- Where a type's unit is written: a folder for each part of the package. -/
def unitPath (package : Option String) (typeName : String) : String :=
  let folders : List String := match package with
    | some name => (Text.split '.' name).filter fun part => !part.isEmpty
    | none => []
  Path.join (folders.foldl Path.join "") (typeName ++ ".java")

/-- Where a unit is written: named after its first public type, its first type, or its file. -/
def relativePath (p : Project) (u : ProjectUnit) : String :=
  match p.arena.kind u.root with
  | .compilationUnit package _ types =>
    let isPublic id := (p.arena.kind id).modifiers?.any fun ms => ms.contains .pub
    let stem := (Path.fileStem? u.name).getD u.name
    let named := ((types.find? isPublic).orElse fun _ => types.head?).bind p.arena.simpleName?
    unitPath package (named.getD stem)
  | _ => u.name

structure PrintedUnit where
  unit : String
  path : String
  text : String
  deriving DecidableEq, Repr

def printedUnits (p : Project) : List PrintedUnit :=
  p.inputs.map fun u => ⟨u.name, p.relativePath u, p.arena.unitText u.root⟩

end Project

end JavaEdit
