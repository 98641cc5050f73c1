import JavaEdit.Console.Reply
import JavaEdit.Project.Output
import JavaEdit.Project.Sources
import JavaEdit.Script.Apply
import JavaEdit.Script.Expect
import JavaEdit.Script.Load
import JavaEdit.Text.LineDiff

/-!
# Applying a script

The account that the console gives of a script: each transform with what came of it, the changes
line by line if they are asked for, the files that were written, the expectations, and a summary.
-/

namespace JavaEdit.Console

/-- How many transforms ended in which way. -/
structure Tally where
  applied : Nat := 0
  already : Nat := 0
  partly : Nat := 0
  failed : Nat := 0
  deriving DecidableEq, Repr

/-- What is said of a declaration that was left out. -/
def skippedLine (s : Skipped) : String :=
  "  - " ++ s.variant.text ++ " " ++ s.name.getD "<unnamed>" ++ ": " ++ s.reason.message

def reportTransform (state : Reply × Tally) (o : TransformOutcome) : Reply × Tally :=
  let (r, t) := state
  match o.result with
  | .ok (.applied changes) =>
    (r.line ("✓ " ++ o.id ++ ": " ++ toString changes ++ " change(s)"),
      { t with applied := t.applied + 1 })
  | .ok .alreadyApplied =>
    (r.line ("⊙ " ++ o.id ++ ": Already applied"), { t with already := t.already + 1 })
  | .ok (.partly changes skipped) =>
    let head := "⊘ " ++ o.id ++ ": " ++ toString changes ++ " change(s), " ++
      toString skipped.length ++ " skipped"
    (skipped.foldl (fun r s => r.line (skippedLine s)) (r.line head),
      { t with partly := t.partly + 1 })
  | .error e =>
    let r := r.errorLine ("✗ " ++ o.id ++ ": Error - " ++ e.message)
    let r := match e with
      | .query q => (r.errorLine "  CONFLICT: target not found").errorLine ("  " ++ q.message)
      | _ => r
    (r, { t with failed := t.failed + 1 })

def diffLine (mark : Char) (line : String) : String :=
  let isEnded := match line.toList.getLast? with
    | some c => c == '\n' || c == '\r'
    | none => false
  String.ofList [mark] ++ line ++ (if isEnded then "" else "\n")

/-- Report how the text of a unit changed. -/
def reportDiff (r : Reply) (path old new : String) : Reply :=
  let r := (r.line ("\n--- " ++ path ++ " (original)")).line ("+++ " ++ path ++ " (transformed)")
  { r with out := r.out ++ String.join ((Text.lineDiff old new).map fun (m, l) => diffLine m l) }

/-- Report how the units changed. Of units with one path, the last counts as what was there. -/
def reportDiffs (before : List Project.PrintedUnit) :
    List Project.PrintedUnit → Reply → Reply
  | [], r => r
  | unit :: rest, r =>
    let old := match before.reverse.find? fun u => u.path == unit.path with
      | some u => u.text
      | none => ""
    reportDiffs before rest (if old == unit.text then r else reportDiff r unit.path old unit.text)

def writeLine : WriteOutcome → String
  | .written path bytes => "✓ wrote " ++ path ++ " (" ++ toString bytes ++ " bytes)"
  | .unchanged path => "⊙ unchanged " ++ path

def writeFailure (e : WriteError) : Failure :=
  { message := e.message
    causes := match e with
      | .noOutputFolder => []
      | .file _ error => [error.message] }

/-- The causes of a project that cannot be read. -/
def sourcesCauses : SourcesError → List String
  | .file path error => [(SourcesError.file path error).message, error.message]
  | e => [e.message]

/-- Report an expectation, and count it if it does not hold. -/
def reportExpectation (state : Reply × Nat) (o : ExpectationOutcome) : Reply × Nat :=
  let call := o.className ++ "." ++ o.method ++ "()"
  match o.failure with
  | none => (state.1.line ("✓ " ++ call), state.2)
  | some failure => (state.1.errorLine ("✗ " ++ call ++ ": " ++ failure.message), state.2 + 1)

/-- The summary of a script; expectations count only when they were checked. -/
def reportSummary (r : Reply) (t : Tally) (expectations : Option Nat) : Reply :=
  let lines := ["", "Summary:", "  " ++ toString t.applied ++ " applied",
    "  " ++ toString t.already ++ " already applied", "  " ++ toString t.partly ++ " partial",
    "  " ++ toString t.failed ++ " failed"]
  let more := match expectations with
    | some failed => ["  " ++ toString failed ++ " expectation(s) failed"]
    | none => []
  let r := (lines ++ more).foldl Reply.line r
  if t.failed == 0 && expectations.getD 0 == 0 then r else { r with code := 1 }

def scriptFailure (path : String) (e : ScriptError) : Failure :=
  { message := e.message (some path)
    causes := match e with
      | .malformed => []
      | .invalid issues => [ScriptIssue.messages issues] }

/-- The files and folders a script names, seen from the folder it stands in. -/
def scriptSources (base : String) (s : Script) : ProjectSources :=
  { inputs := s.info.inputs.map (Path.join base)
    classpath := s.info.classpath.map (Path.join base) }

variable {m : Type → Type} [Monad m] [FileSystem m]

def loadScript (path : String) : m (Except Failure Script) := do
  match ← FileSystem.read path with
  | .error e =>
    return .error
      { message := "failed to read transformation script from " ++ path ++ ": " ++ e.message
        causes := [e.message] }
  | .ok text => return (Script.load text).mapError (scriptFailure path)

/-- Write the changed units, unless nothing is to be written. -/
def writeChanges (p : Project) (folder : Option String) (dryRun : Bool) (r : Reply) :
    m (Reply × Option Failure) := do
  if dryRun then return (r, none)
  else
    match folder with
    | none =>
      return (r.line "No output_dir in [meta]; printed units were not written", none)
    | some _ =>
      let r := r.line ""
      match ← p.write folder with
      | .error e => return (r, some (writeFailure e))
      | .ok outcomes => return (outcomes.foldl (fun r o => r.line (writeLine o)) r, none)

def checkExpectations (s : Script) (p : Project) (noVerify : Bool) (r : Reply) :
    Reply × Option Nat :=
  if noVerify || s.expectations.isEmpty then (r, none)
  else
    let r := (r.line "").line "Expectations:"
    let (r, failed) := (s.check p).foldl reportExpectation (r, 0)
    (r, some failed)

def applyScript (s : Script) (p : Project) (config : String) (outputFolder : Option String)
    (dryRun showDiff noVerify : Bool) : m Reply := do
  let r : Reply := {}
  let r := if s.info.name.isEmpty then r else r.line ("Script: " ++ s.info.name)
  let r := r.line ("Loaded " ++ toString p.inputs.length ++ " input unit(s) from " ++ config)
  let r := if dryRun then r.line "  [DRY RUN - nothing will be written]" else r
  let r := r.line ""
  let (outcomes, changed) := s.apply.run p
  let (r, tally) := outcomes.foldl reportTransform (r, {})
  let r := if showDiff then reportDiffs p.printedUnits changed.printedUnits r else r
  let (r, failure) ← writeChanges changed outputFolder dryRun r
  match failure with
  | some f => return f.reply r
  | none =>
    let (r, failed) := checkExpectations s changed noVerify r
    return reportSummary r tally failed

def applyCommand (config : String) (dryRun showDiff noVerify : Bool) : m Reply := do
  match ← loadScript config with
  | .error f => return f.reply {}
  | .ok s =>
    let base := Path.parent config
    match ← (scriptSources base s).build with
    | .error e =>
      let message := "failed to load inputs of " ++ config
      return Failure.reply { message, causes := sourcesCauses e } {}
    | .ok p =>
      applyScript s p config (s.info.outputDir.map (Path.join base)) dryRun showDiff noVerify

end JavaEdit.Console
