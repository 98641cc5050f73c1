import JavaEdit.Files.System
import JavaEdit.Project.Basic

/-!
# Writing projects to files

Every input unit is written below an output folder; files that already hold the text are left
alone. The first file that cannot be written ends the writing.
-/

namespace JavaEdit

/-- What became of a file. -/
inductive WriteOutcome where
  | written (path : String) (bytes : Nat)
  | unchanged (path : String)
  deriving DecidableEq, Repr

inductive WriteError where
  | noOutputFolder
  | file (path : String) (error : FileError)
  deriving DecidableEq, Repr

/-- What is said of a project that is not written. -/
def WriteError.message : WriteError → String
  | noOutputFolder => "no output directory configured"
  | file path error => "cannot write " ++ path ++ ": " ++ error.message

variable {m : Type → Type} [Monad m] [FileSystem m]

/-- Write a text, unless the file holds it already. -/
def writeText (path text : String) : m (Except WriteError WriteOutcome) := do
  match ← FileSystem.read path with
  | .ok old => if old == text then return .ok (.unchanged path) else store
  | .error _ => store
where
  store : m (Except WriteError WriteOutcome) := do
    match ← FileSystem.write path text with
    | .ok () => return .ok (.written path text.utf8ByteSize)
    | .error e => return .error (.file path e)

def writeUnits (folder : String) :
    List Project.PrintedUnit → m (Except WriteError (List WriteOutcome))
  | [] => return .ok []
  | unit :: rest => do
    match ← writeText (Path.join folder unit.path) unit.text with
    | .error e => return .error e
    | .ok outcome =>
      return (← writeUnits folder rest).map fun outcomes => outcome :: outcomes

def Project.write (p : Project) (folder : Option String) :
    m (Except WriteError (List WriteOutcome)) :=
  match folder with
  | none => return .error .noOutputFolder
  | some folder => writeUnits folder p.printedUnits

end JavaEdit
