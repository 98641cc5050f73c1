import JavaEdit.Console.Arguments

/-!
# Commands

The commands of the console and the arguments they take.
-/

namespace JavaEdit.Console

/-- What the console is asked to do. -/
inductive Command where
  | apply (config : String) (dryRun showDiff noVerify : Bool)
  /-- Print sources, into a folder or to the console. -/
  | print (inputs : List String) (output : Option String) (classpath : List String)
  | query (inputs : List String) (kind : String) (name : Option String) (json : Bool)
  | run (inputs classpath : List String) (className method : String)
  deriving DecidableEq, Repr

namespace Command

/-- The option that all commands take; it says how much is logged. -/
def verbose : OptionSpec := ⟨"verbose", some 'v', .counter⟩

def applyOptions : List OptionSpec :=
  [verbose, ⟨"config", some 'c', .path⟩, ⟨"dry-run", some 'n', .flag⟩, ⟨"diff", some 'd', .flag⟩,
    ⟨"no-verify", none, .flag⟩]

def printOptions : List OptionSpec :=
  [verbose, ⟨"output", some 'o', .path⟩, ⟨"classpath", none, .paths⟩,
    ⟨"no-validate", none, .flag⟩]

def queryOptions : List OptionSpec :=
  [verbose, ⟨"kind", some 'k', .text⟩, ⟨"name", none, .text⟩, ⟨"json", none, .flag⟩]

def runOptions : List OptionSpec :=
  [verbose, ⟨"class", some 'c', .text⟩, ⟨"method", some 'm', .text⟩, ⟨"classpath", none, .paths⟩]

/-- Operands that are paths: at least one, none of them empty. -/
def inputs? (a : Arguments) : Option (List String) :=
  if a.operands.isEmpty || a.operands.any String.isEmpty then none else some a.operands

def readApply? (args : List String) : Option Command := do
  let a ← takeArguments applyOptions {} args
  if a.operands.isEmpty then
    return apply (← a.value? "config") (a.has "dry-run") (a.has "diff") (a.has "no-verify")
  else none

def readPrint? (args : List String) : Option Command := do
  let a ← takeArguments printOptions {} args
  return print (← inputs? a) (a.value? "output") (a.values "classpath")

def readQuery? (args : List String) : Option Command := do
  let a ← takeArguments queryOptions {} args
  return query (← inputs? a) (← a.value? "kind") (a.value? "name") (a.has "json")

def readRun? (args : List String) : Option Command := do
  let a ← takeArguments runOptions {} args
  return run (← inputs? a) (a.values "classpath") (← a.value? "class") (← a.value? "method")

/-- Whether an argument in front of the command only says how much is logged. -/
def isVerbose (arg : String) : Bool :=
  arg == "--verbose" ||
    match arg.toList with
    | '-' :: c :: cs => (c :: cs).all (· == 'v')
    | _ => false

def read? : List String → Option Command
  | [] => none
  | "apply" :: args => readApply? args
  | "print" :: args => readPrint? args
  | "query" :: args => readQuery? args
  | "run" :: args => readRun? args
  | arg :: args => if isVerbose arg then read? args else none

end Command

end JavaEdit.Console
