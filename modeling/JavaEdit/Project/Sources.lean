import JavaEdit.Files.System
import JavaEdit.Project.Basic

/-!
# Reading projects from files

A project is read from files and folders, texts without a file, and a classpath, in this order. In
a folder every file with the extension `java` counts.
-/

namespace JavaEdit

structure ProjectSources where
  inputs : List String := []
  virtualFiles : List SourceText := []
  classpath : List String := []
  deriving DecidableEq, Repr

/-- Why a project cannot be read. -/
inductive SourcesError where
  | file (path : String) (error : FileError)
  | unit (error : ProjectError)
  deriving DecidableEq, Repr

/-- What is said of a project that cannot be read. -/
def SourcesError.message : SourcesError → String
  | file path error => "cannot read " ++ path ++ ": " ++ error.message
  | unit error => error.message

abbrev Building (m : Type → Type) (α : Type) := ExceptT SourcesError (StateT Project m) α

namespace Building

variable {m : Type → Type} [Monad m] [FileSystem m]

def readSource (path : String) : Building m SourceText := do
  match ← (FileSystem.read path : m (Except FileError String)) with
  | .ok text => return ⟨path, some path, text⟩
  | .error e => throw (.file path e)

def discover (path : String) : Building m (List SourceText) := do
  if ← (FileSystem.isFolder path : m Bool) then
    let files ← (FileSystem.filesBelow path : m (List String))
    (files.filter fun f => Path.extension? f == some "java").mapM readSource
  else return [← readSource path]

def addSources (role : UnitRole) : List SourceText → Building m Unit
  | [] => return ()
  | source :: rest => do
    let (outcome, p) := (Project.addUnit source role).run.run (← get)
    set p
    match outcome with
    | .ok _ => addSources role rest
    | .error e => throw (.unit e)

/-- Take what some paths lead to into the project. -/
def addPaths (role : UnitRole) : List String → Building m Unit
  | [] => return ()
  | path :: rest => do
    addSources role (← discover path)
    addPaths role rest

end Building

def ProjectSources.build {m : Type → Type} [Monad m] [FileSystem m] (s : ProjectSources) :
    m (Except SourcesError Project) := do
  let building : Building m Unit := do
    Building.addPaths .input s.inputs
    Building.addSources .input s.virtualFiles
    Building.addPaths .classpath s.classpath
  let (outcome, p) ← building.run.run .empty
  return outcome.map fun () => p

end JavaEdit
