import JavaEdit.Machine.Variables

/-!
# Calls

Methods and constructors get their arguments in a frame of their own. A constructor runs the one
it calls first, then the initializers of the fields of its class, then its statements.
-/

namespace JavaEdit.Run

/-- The method that a call on an object of a class runs. -/
def findMethod (p : Program) (className name : String) (args : List Value) :
    Run (Option (String × MethodInfo)) := do
  let w ← get
  return p.findMethod? w.classOf className name args

/-- The text of a value; an object may say itself what that is. -/
def stringify (p : Program) (c : Calls) (value : Value) : Run String := do
  match value with
  | .object ref =>
    match ← findMethod p ((← get).classOf ref) "toString" [] with
    | some (owner, method) =>
      let result ← c.method (some ref) owner method []
      return (← get).text result
    | none => return (← get).text value
  | _ => return (← get).text value

/-- Arguments with those for the dots put into an array, unless they are one already. -/
def packArguments (parameters : List ParameterInfo) (args : List Value) : Run (List Value) := do
  let fixed := parameters.length - 1
  let isPacked := args.length == parameters.length && (args.getLast?.any Value.isArrayOrNull)
  if (parameters.getLast?.any fun q => q.varargs) && !isPacked && fixed ≤ args.length then
    let ref ← modifyGet fun w => w.allocArray (args.drop fixed).toArray
    return args.take fixed ++ [.array ref]
  else return args

def declareAll : List (ParameterInfo × Value) → Run Unit
  | [] => return ()
  | (q, arg) :: rest => do
    declare q.name (Slot.make arg q.type.primitive?)
    declareAll rest

def bindParameters (parameters : List ParameterInfo) (args : List Value) : Run Unit := do
  let args ← packArguments parameters args
  if args.length != parameters.length then
    fault (.wrongCount parameters.length args.length)
  else declareAll (parameters.zip args)

def runMethod (c : Calls) (receiver : Option Nat) (owner : String) (m : MethodInfo)
    (args : List Value) : Run Value :=
  match m.body with
  | none => fault (.abstractCall owner m.name)
  | some body =>
    inFrame (Frame.start (if m.isStatic then none else receiver) owner) do
      bindParameters m.parameters args
      match ← counted (c.exec body) with
      | .returned value => return value.convert m.returned.primitive?
      | .normal => return .void
      | .broken _ | .continued _ => fault .strayJump

/-- Run statements one after the other, up to the first that jumps. -/
def execAll (c : Calls) : List (Tree Unit) → Run Flow
  | [] => return .normal
  | t :: rest => do
    match ← c.exec t with
    | .normal => execAll c rest
    | jump => return jump

/-- Values of expressions, from left to right. -/
def evalAll (c : Calls) : List (Tree Unit) → Run (List Value)
  | [] => return []
  | t :: rest => do
    let value ← c.eval t
    return value :: (← evalAll c rest)

/-- The message that the first argument of a throwable's constructor gives. -/
def messageOf (p : Program) (c : Calls) : List Value → Run (Option String)
  | [] | .null :: _ => return none
  | .string text :: _ => return some text
  | cause :: _ => some <$> stringify p c cause

/-- Run the initializers of the fields of a class on an object. -/
def initFields (c : Calls) (ref : Nat) (className : String) : List FieldInfo → Run Unit
  | [] => return ()
  | f :: rest => do
    match if f.isStatic then none else f.initializer with
    | none => initFields c ref className rest
    | some initializer =>
      let _ ← inFrame (Frame.start (some ref) className) do
        writePlace (.field ref f.name) (← c.eval initializer)
      initFields c ref className rest

def superConstructor (p : Program) (c : Calls) (ref : Nat) (info : ClassInfo)
    (args : List Value) : Run Unit := do
  match info.superclass with
  | none => return ()
  | some parent =>
    match p.class? parent with
    | some up => c.constructor ref up.name args
    | none =>
      if isBuiltinThrowable parent then
        let message ← messageOf p c args
        modify fun w => w.setMessage ref message

/-- The constructor call that statements start with: its keyword and arguments. -/
def explicitCall? : List (Tree Unit) → Option (String × List (Tree Unit))
  | [] => none
  | first :: _ =>
    match first.kind with
    | .expressionStatement e =>
      match e.kind with
      | .invocation none name arguments =>
        if name == "this" || name == "super" then some (name, arguments) else none
      | _ => none
    | _ => none

def constructorStart (p : Program) (c : Calls) (ref : Nat) (info : ClassInfo) :
    Option (String × List (Tree Unit)) → Run Unit
  | some (keyword, arguments) => do
    let args ← evalAll c arguments
    if keyword == "this" then c.constructor ref info.name args
    else
      superConstructor p c ref info args
      initFields c ref info.name info.fields
  | none => do
    superConstructor p c ref info []
    initFields c ref info.name info.fields

def constructorBody (p : Program) (c : Calls) (ref : Nat) (info : ClassInfo)
    (statements : List (Tree Unit)) : Run Unit := do
  let explicit := explicitCall? statements
  constructorStart p c ref info explicit
  let rest := if explicit.isSome then statements.tail else statements
  match ← inBlock (execAll c rest) with
  | .normal | .returned _ => return ()
  | .broken _ | .continued _ => fault .strayJump

/-- The constructor of a class that arguments select; a class without constructors has one that
takes none. -/
def selectConstructor (p : Program) (info : ClassInfo) (args : List Value) :
    Run ConstructorInfo := do
  if info.constructors.isEmpty then
    if args.isEmpty then return ⟨[], []⟩ else fault (.noSuchConstructor info.name)
  else
    let w ← get
    match p.select? w.classOf ConstructorInfo.parameters info.constructors args with
    | some k => return k
    | none => fault (.noSuitableConstructor info.name)

def runConstructor (p : Program) (c : Calls) (ref : Nat) (className : String)
    (args : List Value) : Run Unit := do
  match p.class? className with
  | none => fault (.unknownClass className)
  | some info =>
    let k ← selectConstructor p info args
    inFrame (Frame.start (some ref) info.name) do
      bindParameters k.parameters args
      counted (constructorBody p c ref info k.statements)

/-- The fields of a new object of a class; those of superclasses hide those of subclasses. -/
def blankFields (p : Program) (className : String) : Scope :=
  (p.chain className).foldl (fun scope info =>
    if info.isInterface then scope
    else
      (info.fields.filter fun f => !f.isStatic).foldl (fun scope f =>
        Scope.insert scope f.name (Slot.make (.default f.type.primitive?) f.type.primitive?))
        scope) []

def construct (p : Program) (c : Calls) (className : String) (args : List Value) : Run Nat := do
  let ref ← modifyGet fun w => w.allocObject ⟨className, blankFields p className⟩
  c.constructor ref className args
  return ref

/-- Make an object of any class, also a built-in one. -/
def instantiate (p : Program) (c : Calls) (className : String) (args : List Value) :
    Run Value := do
  match p.class? className with
  | some info =>
    if info.isInterface || info.isAbstract then fault (.abstractClass className)
    else return .object (← construct p c info.name args)
  | none =>
    if isBuiltinThrowable className then
      let message ← messageOf p c args
      return .object (← modifyGet fun w => w.allocThrowable className message)
    else if className == "Object" then
      return .object (← modifyGet fun w => w.allocObject ⟨"Object", []⟩)
    else if className == "String" then
      match args with
      | [] => return .string ""
      | .string text :: _ => return .string text
      | other :: _ => fault (.noTextConstructor (← typeName other))
    else fault (.unknownClass className)

def describe (p : Program) (w : World) (ref : Nat) : String :=
  let name := w.classOf ref
  if p.isSubtype name "Throwable" && !isBuiltinThrowable name then
    name ++ match w.message? ref with
      | some text => ": " ++ text
      | none => ""
  else w.objectText ref

def objectMethod (p : Program) (ref : Nat) (name : String) (args : List Value) : Run Value := do
  let w ← get
  let isThrowable := p.isSubtype (w.classOf ref) "Throwable"
  match name, args with
  | "toString", [] => return .string (describe p w ref)
  | "hashCode", [] => return .int (Int32.ofNat (ref + 1))
  | "equals", [other] => return .boolean (Value.same other (.object ref))
  | _, _ =>
    if isThrowable && args.isEmpty && (name == "getMessage" || name == "getLocalizedMessage") then
      return (w.message? ref).elim .null .string
    else fault (.unknownMethodOf name (w.classOf ref))

def callOn (p : Program) (c : Calls) (receiver : Value) (name : String) (args : List Value) :
    Run Value := do
  match receiver with
  | .object ref =>
    match ← findMethod p ((← get).classOf ref) name args with
    | some (owner, method) => c.method (some ref) owner method args
    | none => objectMethod p ref name args
  | .string text => ofExcept (Builtin.onText text name args)
  | .null => trap (.nullMember (name ++ "()"))
  | .array _ => fault (.arrayMethod name)
  | .void => fault .voidReceiver
  | boxed => ofExcept (Builtin.onBox (← get) boxed name args)

def callStatic (p : Program) (c : Calls) (className name : String) (args : List Value) :
    Run Value := do
  if (p.class? className).isSome then
    match ← findMethod p className name args with
    | some (owner, method) =>
      if method.isStatic then c.method none owner method args
      else fault (.staticContext ("method " ++ name))
    | none => fault (.unknownStaticMethod className name)
  else
    match Builtin.static? (← get) className name args with
    | some result => ofExcept result
    | none =>
      if Builtin.isTextOf className name args then
        return .string (← stringify p c (args.headD .null))
      else fault (.unknownStaticMethod className name)

/-- A static method with a name in the classes around a class. -/
def findOuter (p : Program) (name : String) (args : List Value) :
    List ClassInfo → Run (Option (String × MethodInfo))
  | [] => return none
  | around :: rest => do
    match ← findMethod p around.name name args with
    | some (owner, method) =>
      if method.isStatic then return some (owner, method) else findOuter p name args rest
    | none => findOuter p name args rest

def callByName (p : Program) (c : Calls) (name : String) (args : List Value) : Run Value := do
  let w ← get
  let frame := w.frame
  let first := frame.this.elim frame.className w.classOf
  let own ← findMethod p frame.className name args
  match (← findMethod p first name args).orElse fun _ => own with
  | some (owner, method) =>
    if method.isStatic then c.method none owner method args
    else if frame.this.isSome then c.method frame.this owner method args
    else fault (.staticContext ("method " ++ name))
  | none =>
    match ← findOuter p name args (p.enclosing frame.className).tail with
    | some (owner, method) => c.method none owner method args
    | none =>
      match frame.this with
      | some ref => objectMethod p ref name args
      | none => fault (.unknownMethod name)

end JavaEdit.Run
