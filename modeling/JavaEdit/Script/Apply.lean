import JavaEdit.Fragment.Graft
import JavaEdit.Project.Basic
import JavaEdit.Script.Basic

/-!
# Making the changes of a script

Transforms are made one after the other in a project; one that fails does not stop those behind
it. A second run of a transform finds nothing left to do.
-/

namespace JavaEdit

inductive TransformResult where
  | applied (changes : Nat)
  | alreadyApplied
  /-- Some declarations of the text were left out. -/
  | partly (changes : Nat) (skipped : List Skipped)
  deriving DecidableEq, Repr

def TransformResult.message : TransformResult → String
  | applied changes => "Applied (" ++ toString changes ++ " changes)"
  | alreadyApplied => "Already applied"
  | partly changes skipped =>
    "Partially applied (" ++ toString changes ++ " changes, " ++ toString skipped.length ++ " skipped)"

/-- Why a transform fails. -/
inductive TransformError where
  | missingClass (id : String)
  | unknownOperator (trimmed : String)
  | query (error : QueryError)
  | edit (error : EditError)
  | fragment (error : FragmentError)
  deriving DecidableEq, Repr

def TransformError.message : TransformError → String
  | missingClass id => "transform '" ++ id ++ "' does not name a class"
  | unknownOperator trimmed => BinaryOperator.unknownMessage trimmed
  | query error => "lookup failed: " ++ error.message
  | edit error => "mutation failed: " ++ error.message
  | fragment error => "merge failed: " ++ error.message

abbrev Change (α : Type) := ExceptT TransformError (StateM Project) α

namespace Change

def on {α : Type} (change : Change α) (p : Project) : Except TransformError α × Project :=
  change.run.run p

def ofExcept {ε α : Type} (wrap : ε → TransformError) (step : Except ε α) : Change α :=
  match step with
  | .ok a => pure a
  | .error e => throw (wrap e)

def onArena {ε α : Type} (wrap : ε → TransformError) (action : ExceptT ε (StateM Arena) α) :
    Change α := do
  let p ← get
  let (outcome, arena) := action.run.run p.arena
  set { p with arena }
  ofExcept wrap outcome

end Change

def TransformResult.counted (changes : Nat) : TransformResult :=
  if changes == 0 then alreadyApplied else applied changes

def TransformResult.ofReport (changes : Nat) (report : Report) : TransformResult :=
  if report.isClean then counted changes else partly changes report.skipped

namespace Transform

def target (t : Transform) : Change NodeId := do
  match t.className with
  | none => throw (.missingClass t.id)
  | some name => Change.ofExcept .query ((← get).getType name)

/-- The nodes that a sweep over operators starts at: a class, or all input units. -/
def sweepRoots (t : Transform) : Change (List NodeId) := do
  match t.className with
  | some name => return [← Change.ofExcept .query ((← get).getType name)]
  | none => return (← get).inputs.map fun u => u.root

/-- The uses of an operator below some roots that come from a source; grafted code is left as it
was written. -/
def operatorUses (a : Arena) (roots : List NodeId) (operator : BinaryOperator) : List NodeId :=
  (roots.flatMap fun root => a.elements root (Arena.isOperation operator)).filter fun id =>
    (a.position id).isReal

def apply (t : Transform) : Change TransformResult := do
  match t.operation with
  | .replaceOperator old new =>
    let old ← Change.ofExcept .unknownOperator (BinaryOperator.read old)
    let new ← Change.ofExcept .unknownOperator (BinaryOperator.read new)
    let roots ← t.sweepRoots
    let targets := operatorUses (← get).arena roots old
    modify fun p => { p with arena := Edit.sweep new targets p.arena }
    return .counted targets.length
  | .deleteMethod name =>
    let target ← t.target
    let deleted ← Change.onArena .edit (Edit.deleteMethods target name)
    return .counted deleted
  | .addMembers code =>
    let target ← t.target
    let report ← Change.onArena .fragment (Fragment.addMissingCode target code)
    return .ofReport report.added.length report
  | .replaceBody method body =>
    let target ← t.target
    let report ← Change.onArena .fragment (Fragment.replaceMethodBody target method body)
    return .ofReport report.replaced.length report

end Transform

/-- What came of a transform, success or failure, with its name. -/
structure TransformOutcome where
  id : String
  result : Except TransformError TransformResult

def applyAll : List Transform → StateM Project (List TransformOutcome)
  | [] => return []
  | t :: rest => do
    let result ← t.apply.run
    return ⟨t.id, result⟩ :: (← applyAll rest)

def Script.apply (s : Script) : StateM Project (List TransformOutcome) := applyAll s.transforms

end JavaEdit
