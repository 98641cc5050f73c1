import JavaEdit.Machine.Builtin

/-!
# Variables

A name is a local variable, else a field of `this`, else a static field of the class around it,
of its superclasses or of the classes around those. A place is where an assignment stores.
-/

namespace JavaEdit

/-- Where a value is stored. -/
inductive Place where
  | variable (name : String)
  | field (ref : Nat) (name : String)
  | static (className name : String)
  | element (ref index : Nat)
  deriving DecidableEq, Repr

namespace World

def fieldOfThis? (w : World) (name : String) : Option Value :=
  w.frame.this.bind fun ref => w.field? ref name

/-- The class that declares a static field, seen from a class. -/
def staticOwner? (w : World) (p : Program) (className name : String) : Option String :=
  (p.enclosing className).findSome? fun around =>
    ((p.chain around.name).find? fun c => (w.static? c.name name).isSome).map ClassInfo.name

def isVariable (w : World) (p : Program) (name : String) : Bool :=
  (w.frame.slot? name).isSome || (w.fieldOfThis? name).isSome
    || (w.staticOwner? p w.frame.className name).isSome

/-- The class that an expression names in front of a point. -/
def namedClass? (w : World) (p : Program) (t : Tree Unit) : Option String :=
  match t.kind with
  | .name name =>
    if w.isVariable p name then none
    else if (p.class? name).isSome || nativeClasses.contains name
        || (builtinParent? name).isSome then some name
    else none
  | _ => none

end World

namespace Run

def readStatic (className name : String) : Run Value := do
  match (← get).static? className name with
  | some slot => return slot.value
  | none =>
    match Builtin.constant? className name with
    | some value => return value
    | none => fault (.unknownStatic className name)

def readName (p : Program) (name : String) : Run Value := do
  let w ← get
  match w.frame.slot? name with
  | some slot => return slot.value
  | none =>
    match w.fieldOfThis? name with
    | some value => return value
    | none =>
      match w.staticOwner? p w.frame.className name with
      | some owner => readStatic owner name
      | none => fault (.unknownVariable name)

def placeOfName (p : Program) (name : String) : Run Place := do
  let w ← get
  if (w.frame.slot? name).isSome then return .variable name
  else
    match w.frame.this.filter fun ref => (w.field? ref name).isSome with
    | some ref => return .field ref name
    | none =>
      match w.staticOwner? p w.frame.className name with
      | some owner => return .static owner name
      | none => fault (.unknownVariable name)

def element (array index : Value) : Run (Nat × Nat) := do
  match array with
  | .array ref =>
    match index.numeric? with
    | some (.int i) =>
      let length := ((← get).items ref).size
      if 0 ≤ i.toInt && i.toInt < length then return (ref, i.toInt.toNat)
      else trap (.arrayIndex i length)
    | _ => fault .badIndex
  | .null => trap (.nullMember "array access")
  | other => fault (.arrayRequired (← typeName other))

def readPlace (p : Program) : Place → Run Value
  | .variable name => readName p name
  | .field ref name => do
    match (← get).field? ref name with
    | some value => return value
    | none => fault (.unknownVariable name)
  | .static className name => readStatic className name
  | .element ref index => return ((← get).items ref).getD index .null

def storeVariable (name : String) (value : Value) : Run Value := do
  let w ← get
  match w.frame.slot? name with
  | none => fault .undeclared
  | some slot =>
    set { w with frame := { w.frame with scopes := Frame.storeIn name value w.frame.scopes } }
    return (slot.store value).value

def storeField (ref : Nat) (name : String) (value : Value) : Run Value := do
  let w ← get
  match (w.object ref).fields.get? name with
  | none => fault .undeclared
  | some slot =>
    let slot := slot.store value
    set (w.setField ref name slot)
    return slot.value

def storeStatic (className name : String) (value : Value) : Run Value := do
  let w ← get
  match w.static? className name with
  | none => fault .undeclared
  | some slot =>
    let slot := slot.store value
    set (w.setStatic className name slot)
    return slot.value

/-- Store a value in an array; it is converted to the type of the value that was there. -/
def storeElement (ref index : Nat) (value : Value) : Run Value := do
  let old := ((← get).items ref).getD index .null
  let value := value.convert old.primitive?
  modify fun w => { w with arrays := w.arrays.modify ref fun items => items.setIfInBounds index value }
  return value

/-- Store a value; answers what is there afterwards. -/
def writePlace (place : Place) (value : Value) : Run Value :=
  match place with
  | .variable name => storeVariable name value
  | .field ref name => storeField ref name value
  | .static className name => storeStatic className name value
  | .element ref index => storeElement ref index value

end Run

end JavaEdit
