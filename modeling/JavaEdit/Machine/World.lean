import JavaEdit.Machine.Fault
import JavaEdit.Machine.FloatText
import JavaEdit.Machine.Hierarchy

/-!
# The world of a run

What a running program can read and change: the frame of the current call, static fields, the
heap, the printed text and the depth of calls. A run that ends by an exception or a fault leaves
a world behind like any other.
-/

namespace JavaEdit

/-- An object: the fields of its class and of all its superclasses. -/
structure HeapObject where
  className : String
  fields : Scope

/-- The variables of a call. -/
structure Frame where
  this : Option Nat
  className : String
  /-- Blocks around the current place, innermost first. -/
  scopes : List Scope

namespace Frame

def start (this : Option Nat) (className : String) : Frame := ⟨this, className, [[]]⟩

/-- The slot of a local variable; inner blocks come first. -/
def slot? (f : Frame) (name : String) : Option Slot := f.scopes.findSome? fun s => s.get? name

/-- Declare a variable in the innermost block. -/
def declare (f : Frame) (name : String) (slot : Slot) : Frame :=
  match f.scopes with
  | [] => f
  | s :: rest => { f with scopes := s.insert name slot :: rest }

/-- Change the slot of a variable in the first block that declares it. -/
def storeIn (name : String) (value : Value) : List Scope → List Scope
  | [] => []
  | s :: rest =>
    match s.get? name with
    | some slot => s.insert name (slot.store value) :: rest
    | none => s :: storeIn name value rest

end Frame

/-- Everything that a run can change. -/
structure World where
  frame : Frame
  statics : List (String × Scope)
  objects : Array HeapObject
  arrays : Array (Array Value)
  output : String
  depth : Nat

namespace World

def start : World := ⟨Frame.start none "", [], #[], #[], "", 0⟩

def object (w : World) (ref : Nat) : HeapObject := w.objects.getD ref ⟨"Object", []⟩

def classOf (w : World) (ref : Nat) : String := (w.object ref).className

def field? (w : World) (ref : Nat) (name : String) : Option Value :=
  ((w.object ref).fields.get? name).map Slot.value

def items (w : World) (ref : Nat) : Array Value := w.arrays.getD ref #[]

/-- The field that keeps the message of something thrown. -/
def messageField : String := "detailMessage"

def message? (w : World) (ref : Nat) : Option String :=
  match w.field? ref messageField with
  | some (.string text) => some text
  | _ => none

def allocObject (w : World) (o : HeapObject) : Nat × World :=
  (w.objects.size, { w with objects := w.objects.push o })

def allocArray (w : World) (items : Array Value) : Nat × World :=
  (w.arrays.size, { w with arrays := w.arrays.push items })

def setField (w : World) (ref : Nat) (name : String) (slot : Slot) : World :=
  { w with objects := w.objects.modify ref fun o =>
      { o with fields := Scope.insert o.fields name slot } }

def setMessage (w : World) (ref : Nat) (message : Option String) : World :=
  w.setField ref messageField (Slot.make (message.elim .null .string) none)

/-- Put a built-in exception on the heap. -/
def allocThrowable (w : World) (className : String) (message : Option String) : Nat × World :=
  let (ref, w) := w.allocObject ⟨className, []⟩
  (ref, w.setMessage ref message)

def staticsOf (w : World) (className : String) : Scope := (w.statics.lookup className).getD []

def static? (w : World) (className name : String) : Option Slot :=
  (w.staticsOf className).get? name

def setStatic (w : World) (className name : String) (slot : Slot) : World :=
  let change (statics : List (String × Scope)) : List (String × Scope) :=
    if (statics.lookup className).isSome then
      statics.map fun (c, fields) =>
        if c == className then (c, Scope.insert fields name slot) else (c, fields)
    else statics ++ [(className, [(name, slot)])]
  { w with statics := change w.statics }

def typeName (w : World) : Value → String
  | .void => "void"
  | .null => "null"
  | .boolean _ => "boolean"
  | .char _ => "char"
  | .int _ => "int"
  | .long _ => "long"
  | .float _ => "float"
  | .double _ => "double"
  | .string _ => "String"
  | .object ref => w.classOf ref
  | .array _ => "array"

def referenceText (ref : Nat) : String := String.ofList (Nat.toDigits 16 (ref + 1))

/-- The text of an object whose class does not say otherwise. -/
def objectText (w : World) (ref : Nat) : String :=
  let name := w.classOf ref
  if isBuiltinThrowable name then
    "java.lang." ++ name ++ match w.message? ref with
      | some text => ": " ++ text
      | none => ""
  else name ++ "@" ++ referenceText ref

def text (w : World) : Value → String
  | .void => ""
  | .null => "null"
  | .boolean b => if b then "true" else "false"
  | .char c => String.ofList [c]
  | .int v => toString v.toInt
  | .long v => toString v.toInt
  | .float v => Number.singleText v
  | .double v => Number.doubleText v
  | .string s => s
  | .object ref => w.objectText ref
  | .array ref => "[@" ++ referenceText ref

end World

/-- How a run can end without a result. -/
inductive Unwind where
  | thrown (value : Value)
  | fault (f : Fault)
  /-- The bound on steps was reached. -/
  | exhausted

abbrev Run (α : Type) := ExceptT Unwind (StateM World) α

namespace Run

variable {α : Type}

def on (x : Run α) (w : World) : Except Unwind α × World := x.run.run w

def ofFunction (f : World → Except Unwind α × World) : Run α := ExceptT.mk f

def fault (f : Fault) : Run α := throw (.fault f)

def trap (t : Trap) : Run α := do
  let ref ← modifyGet fun w => w.allocThrowable t.className t.message?
  throw (.thrown (.object ref))

def ofExcept : Except Upset α → Run α
  | .ok x => pure x
  | .error (.trap t) => trap t
  | .error (.fault f) => fault f

def attempt (x : Run α) : Run (Except Unwind α) :=
  ofFunction fun w =>
    let (outcome, w) := x.on w
    (.ok outcome, w)

def resume : Except Unwind α → Run α
  | .ok x => pure x
  | .error e => throw e

/-- Run in another frame; the frame of before is back afterwards. -/
def inFrame (frame : Frame) (x : Run α) : Run α :=
  ofFunction fun w =>
    let (outcome, after) := x.on { w with frame }
    (outcome, { after with frame := w.frame })

/-- Run in a block of its own, whose variables are gone afterwards. -/
def inBlock (x : Run α) : Run α :=
  ofFunction fun w =>
    let (outcome, w) := x.on { w with frame := { w.frame with scopes := [] :: w.frame.scopes } }
    (outcome, { w with frame := { w.frame with scopes := w.frame.scopes.tail } })

def callLimit : Nat := 64

def counted (x : Run α) : Run α := do
  if callLimit ≤ (← get).depth then trap .stackOverflow
  else
    ofFunction fun w =>
      let (outcome, w) := x.on { w with depth := w.depth + 1 }
      (outcome, { w with depth := w.depth - 1 })

def declare (name : String) (slot : Slot) : Run Unit :=
  modify fun w => { w with frame := w.frame.declare name slot }

def typeName (v : Value) : Run String := return (← get).typeName v

/-- Repeat something until it gives a result, at most `steps` times. -/
def iterate (x : Run (Option α)) : Nat → Run α
  | 0 => throw .exhausted
  | steps + 1 => do
    match ← x with
    | some result => return result
    | none => iterate x steps

end Run

inductive Flow where
  | normal
  | returned (value : Value)
  | broken (label : Option String)
  | continued (label : Option String)

/-- How the rules of the machine get at each other, and a bound on the steps of loops. -/
structure Calls where
  steps : Nat
  eval : Tree Unit → Run Value
  exec : Tree Unit → Run Flow
  method : Option Nat → String → MethodInfo → List Value → Run Value
  constructor : Nat → String → List Value → Run Unit

end JavaEdit
