import JavaEdit.Machine.Exec

/-!
# Running programs

The rules of the machine are tied together here. A program is compiled by reading it; an instance
of a class keeps its own world, in which its methods are called.
-/

namespace JavaEdit

/-- The machine with a bound on the nesting of rules and on the rounds of each loop. -/
def machine (p : Program) : Nat → Calls
  | 0 =>
    { steps := 0
      eval := fun _ => throw .exhausted
      exec := fun _ => throw .exhausted
      method := fun _ _ _ _ => throw .exhausted
      constructor := fun _ _ _ => throw .exhausted }
  | n + 1 =>
    { steps := n
      eval := fun t => Run.evalRule p (machine p n) t
      exec := fun t => Run.execRule p (machine p n) t
      method := fun receiver owner m args => Run.runMethod (machine p n) receiver owner m args
      constructor := fun ref name args => Run.runConstructor p (machine p n) ref name args }

def machineSteps : Nat := Number.twoPow 60

/-- Why a run has no result. -/
inductive RunError where
  | rejected (error : LoadError)
  | fault (f : Fault)
  | escaped (exception : String) (detail : Option String)
  | exhausted
  deriving DecidableEq, Repr

def RunError.message : RunError → String
  | rejected error => "compilation failed: " ++ error.message
  | fault f => "compilation failed: " ++ f.message
  | escaped exception none => exception
  | escaped exception (some detail) => exception ++ ": " ++ detail
  | exhausted => "step limit reached"

def RunError.ofUnwind (w : World) : Unwind → RunError
  | .thrown (.object ref) =>
    let name := w.classOf ref
    escaped (if isBuiltinThrowable name then "java.lang." ++ name else name) (w.message? ref)
  | .thrown other => escaped (w.typeName other) none
  | .fault f => fault f
  | .exhausted => exhausted

/-- A class that can be instantiated. -/
structure Compiled where
  program : Program
  name : String
  qualifiedName : String

/-- Read a source as a program with a class that needs no arguments. -/
def compile (qualifiedName source : String) : Except RunError Compiled :=
  match Program.load qualifiedName source with
  | .error e => .error (.rejected e)
  | .ok program =>
    let name := simpleName qualifiedName
    if (program.class? name).any ClassInfo.hasDefaultConstructor then
      .ok ⟨program, name, qualifiedName⟩
    else .error (.rejected (.noDefaultConstructor qualifiedName))

/-- Fields of a class that are static; those of interfaces always are. -/
def ClassInfo.staticFields (c : ClassInfo) : List FieldInfo :=
  c.fields.filter fun f => c.isInterface || f.isStatic

def Run.allocStatics (p : Program) : Run Unit :=
  modify fun w => { w with statics := p.classes.map fun info =>
    (info.name, info.staticFields.foldl (fun scope f =>
      Scope.insert scope f.name (Slot.make (.default f.type.primitive?) f.type.primitive?)) []) }

def Run.initStatics (c : Calls) (className : String) : List FieldInfo → Run Unit
  | [] => return ()
  | f :: rest => do
    match f.initializer with
    | none => initStatics c className rest
    | some initializer =>
      let _ ← inFrame (Frame.start none className) do
        writePlace (.static className f.name) (← c.eval initializer)
      initStatics c className rest

/-- Run the initializers of the static fields of some classes. -/
def Run.initAllStatics (c : Calls) : List ClassInfo → Run Unit
  | [] => return ()
  | info :: rest => do
    initStatics c info.name info.staticFields
    initAllStatics c rest

/-- An object with the world it lives in. -/
structure Instance where
  program : Program
  object : Nat
  world : World

namespace Compiled

/-- Start the program and make an object of the class. -/
def instantiate (k : Compiled) : Except RunError Instance :=
  if (k.program.class? k.name).any fun info => info.isInterface || info.isAbstract then
    .error (.escaped "java.lang.InstantiationException" (some k.qualifiedName))
  else
    let calls := machine k.program machineSteps
    let run : Run Nat := do
      Run.allocStatics k.program
      Run.initAllStatics calls k.program.classes
      Run.construct k.program calls k.name []
    match run.on .start with
    | (.ok object, world) => .ok ⟨k.program, object, world⟩
    | (.error e, world) => .error (RunError.ofUnwind world e)

end Compiled

namespace Instance

def invoke (i : Instance) (method : String) (args : List Value) :
    Except RunError Value × Instance :=
  let name := i.world.classOf i.object
  match i.program.findMethod? i.world.classOf name method args with
  | none =>
    let detail := name ++ "." ++ method ++ "()"
    (.error (.escaped "java.lang.NoSuchMethodException" (some detail)), i)
  | some (owner, m) =>
    let calls := machine i.program machineSteps
    match (calls.method (some i.object) owner m args).on { i.world with depth := 0 } with
    | (.ok value, world) => (.ok value, { i with world })
    | (.error e, world) => (.error (RunError.ofUnwind world e), { i with world })

def field? (i : Instance) (name : String) : Option Value := i.world.field? i.object name

def fieldPath? (i : Instance) : Value → List String → Option Value
  | value, [] => some value
  | .object ref, name :: rest =>
    (i.world.field? ref name).bind fun value => i.fieldPath? value rest
  | _, _ :: _ => none

/-- What has been printed since this was last asked. -/
def takeOutput (i : Instance) : String × Instance :=
  (i.world.output, { i with world := { i.world with output := "" } })

def makeArray (i : Instance) (items : List Value) : Value × Instance :=
  let (ref, world) := i.world.allocArray items.toArray
  (.array ref, { i with world })

end Instance

/-- Compile a source, make an object and call a method once: its result and what was printed. -/
def runOnce (qualifiedName source method : String) :
    Except RunError (Value × String × World) := do
  let k ← compile qualifiedName source
  let i ← k.instantiate
  let (result, i) := i.invoke method []
  return (← result, i.world.output, i.world)

end JavaEdit
