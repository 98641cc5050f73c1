import JavaEdit.Machine.Eval

/-!
# Statements
-/

namespace JavaEdit.Run

/-- What a loop makes of the end of its body; none to go on. -/
def afterBody : Flow → Option Flow
  | .normal | .continued none => none
  | .broken none => some .normal
  | jump => some jump

def loopBody (c : Calls) (body : Tree Unit) : Run (Option Flow) := do
  return afterBody (← c.exec body)

def whileRound (c : Calls) (test body : Tree Unit) : Run (Option Flow) := do
  if ← condition c test then loopBody c body else return some .normal

def doRound (c : Calls) (body test : Tree Unit) : Run (Option Flow) := do
  match ← loopBody c body with
  | some flow => return some flow
  | none => if ← condition c test then return none else return some .normal

def forRound (c : Calls) (test : Option (Tree Unit)) (updates : List (Tree Unit))
    (body : Tree Unit) : Run (Option Flow) := do
  let goesOn ← match test with
    | some t => condition c t
    | none => pure true
  if goesOn then
    match ← loopBody c body with
    | some flow => return some flow
    | none =>
      let _ ← evalAll c updates
      return none
  else return some .normal

/-- Statements in front of a `for`; their jumps are dropped. -/
def execInit (c : Calls) : List (Tree Unit) → Run Unit
  | [] => return ()
  | t :: rest => do
    let _ ← c.exec t
    execInit c rest

def forItems (c : Calls) (name : String) (primitive : Option Primitive) (body : Tree Unit) :
    List Value → Run Flow
  | [] => return .normal
  | item :: rest => do
    let flow ← inBlock do
      declare name (Slot.make item primitive)
      loopBody c body
    match flow with
    | some flow => return flow
    | none => forItems c name primitive body rest

/-- An enhanced `for`. It runs over the elements that the array has when it starts. -/
def forEach (c : Calls) (element iterable body : Tree Unit) : Run Flow := do
  match ← c.eval iterable with
  | .array ref =>
    let items := ((← get).items ref).toList
    match element.kind with
    | .localVariable name _ type _ => forItems c name (TypeUse.ofTree type).primitive? body items
    | _ => fault .badElement
  | .null => trap (.nullMember "iterator()")
  | other => fault (.notIterable (← typeName other))

def throwValue (p : Program) (value : Value) : Run Flow := do
  match value with
  | .object ref =>
    let name := (← get).classOf ref
    if p.isSubtype name "Throwable" then throw (.thrown value)
    else fault (.incompatible name "Throwable")
  | .null => trap (.nullMember "throw")
  | other => fault (.incompatible (← typeName other) "Throwable")

/-- The first catch clause that takes an exception: its variable and body. -/
def catcher? (p : Program) (w : World) (exception : Value) :
    List (Tree Unit) → Option (String × Tree Unit)
  | [] => none
  | t :: rest =>
    match t.kind with
    | .catchClause name _ types body =>
      if types.any fun type => p.isInstance w.classOf exception (TypeUse.ofTree type).name then
        some (name, body)
      else catcher? p w exception rest
    | _ => catcher? p w exception rest

/-- A body, and the catch clause that takes its exception. -/
def guarded (p : Program) (c : Calls) (body : Tree Unit) (catchers : List (Tree Unit)) :
    Run Flow := do
  match ← attempt (c.exec body) with
  | .error (.thrown exception) =>
    match catcher? p (← get) exception catchers with
    | some (name, handler) =>
      inBlock do
        declare name (Slot.make exception none)
        c.exec handler
    | none => throw (.thrown exception)
  | outcome => resume outcome

/-- A `finally` block behind an outcome. A jump out of it drops the outcome. -/
def finalize (c : Calls) (last : Option (Tree Unit)) (outcome : Except Unwind Flow) :
    Run Flow := do
  match last, outcome with
  | none, _ => resume outcome
  | _, .error .exhausted => throw .exhausted
  | some block, _ =>
    match ← c.exec block with
    | .normal => resume outcome
    | jump => return jump

def declareLocal (c : Calls) (name : String) (type : TypeUse) (initializer : Option (Tree Unit)) :
    Run Flow := do
  let value ← match initializer with
    | some t => c.eval t
    | none => pure (Value.default type.primitive?)
  declare name (Slot.make value type.primitive?)
  return .normal

def execRule (p : Program) (c : Calls) (t : Tree Unit) : Run Flow := do
  match t.kind with
  | .block statements => inBlock (execAll c statements)
  | .localVariable name _ type initializer =>
    declareLocal c name (TypeUse.ofTree type) initializer
  | .expressionStatement value =>
    let _ ← c.eval value
    return .normal
  | .ifElse test thenBranch elseBranch =>
    if ← condition c test then c.exec thenBranch
    else
      match elseBranch with
      | some branch => c.exec branch
      | none => return .normal
  | .whileLoop test body => iterate (whileRound c test body) c.steps
  | .doWhile body test => iterate (doRound c body test) c.steps
  | .forLoop init test updates body =>
    inBlock do
      execInit c init
      iterate (forRound c test updates body) c.steps
  | .forEach element iterable body => forEach c element iterable body
  | .returnStmt none => return .returned .void
  | .returnStmt (some value) => .returned <$> c.eval value
  | .throwStmt value => throwValue p (← c.eval value)
  | .breakStmt label => return .broken label
  | .continueStmt label => return .continued label
  | .tryStmt body catchers last =>
    finalize c last (← attempt (guarded p c body catchers))
  | .empty => return .normal
  | kind => fault (.notAStatement kind.variant)

end JavaEdit.Run
