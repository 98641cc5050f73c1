import JavaEdit.Console.Apply
import JavaEdit.Console.Command
import JavaEdit.Console.Query

/-!
# Running commands

Every command reads its sources, does its work and answers a reply; the only thing it does to
files is to write units.
-/

namespace JavaEdit.Console

variable {m : Type → Type} [Monad m] [FileSystem m]

def withProject (sources : ProjectSources) (use : Project → m Reply) : m Reply := do
  match ← sources.build with
  | .error e =>
    return Failure.reply { message := "failed to load sources", causes := sourcesCauses e } {}
  | .ok p => use p

def printCommand (inputs : List String) (output : Option String) (classpath : List String) :
    m Reply :=
  withProject { inputs, classpath } fun p => do
    match output with
    | none => return { out := String.join (p.printedUnits.map fun u => u.text) }
    | some _ =>
      match ← p.write output with
      | .error e => return (writeFailure e).reply {}
      | .ok outcomes => return outcomes.foldl (fun r o => r.line (writeLine o)) {}

def queryCommand (inputs : List String) (kind : String) (name : Option String) (json : Bool) :
    m Reply :=
  match Variant.ofText? kind with
  | none => return (unknownKind kind).reply {}
  | some v =>
    withProject { inputs } fun p =>
      let found := rows p v name
      return Reply.line {} (if json then jsonRows v found else plainRows v found)

def runMethod (p : Project) (className method : String) : Reply :=
  match p.getType className with
  | .error e => Failure.reply { message := e.message } {}
  | .ok type =>
    let qualified := (p.arena.qualifiedName? type).getD className
    match runOnce qualified (p.standaloneSource type) method with
    | .error e =>
      Failure.reply
        { message := qualified ++ "." ++ method ++ "() failed", causes := [e.message] } {}
    | .ok (value, output, w) => Reply.line { out := output } ("=> " ++ w.text value)

def perform : Command → m Reply
  | .apply config dryRun showDiff noVerify => applyCommand config dryRun showDiff noVerify
  | .print inputs output classpath => printCommand inputs output classpath
  | .query inputs kind name json => queryCommand inputs kind name json
  | .run inputs classpath className method =>
    withProject { inputs, classpath } fun p => return runMethod p className method

def answer (args : List String) : m Reply :=
  match Command.read? args with
  | none => return .usage
  | some command => perform command

end JavaEdit.Console
