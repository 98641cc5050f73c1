import JavaEdit.Text.Split

/-!
# Replies of the console

A command ends with a code and two texts, one for results and one for errors. An error that ends
a command is shown with its causes, from the outermost to the innermost.
-/

namespace JavaEdit.Console

/-- How a command ends. -/
structure Reply where
  code : Nat := 0
  out : String := ""
  err : String := ""
  deriving DecidableEq, Repr

/-- An error with its causes. -/
structure Failure where
  message : String
  causes : List String := []
  deriving DecidableEq, Repr

namespace Failure

/-- Lines of a cause: the first behind `start`, the others behind `indent`. -/
def indented (start indent text : String) : String :=
  start ++ ("\n" ++ indent).intercalate (Text.split '\n' text)

def numbered : Nat → List String → List String
  | _, [] => []
  | n, cause :: rest =>
    let number := toString n
    let start := String.ofList (List.replicate (5 - number.length) ' ') ++ number ++ ": "
    indented start "       " cause :: numbered (n + 1) rest

/-- The causes of an error, numbered when there are several. -/
def causeLines : List String → List String
  | [cause] => [indented "    " "    " cause]
  | causes => numbered 0 causes

def text (f : Failure) : String :=
  let causes := if f.causes.isEmpty then "" else
    "\n\nCaused by:\n" ++ "\n".intercalate (causeLines f.causes)
  "Error: " ++ f.message ++ causes ++ "\n"

/-- The reply that an error ends with, behind what was said before it. -/
def reply (f : Failure) (before : Reply) : Reply :=
  { before with code := 1, err := before.err ++ f.text }

end Failure

/-- The reply to arguments that make no command. -/
def Reply.usage : Reply :=
  { code := 2
    err := "usage: apply -c SCRIPT [-n] [-d] [--no-verify]\n" ++
      "       print INPUT... [-o DIR] [--classpath DIR] [--no-validate]\n" ++
      "       query INPUT... -k KIND [--name NAME] [--json]\n" ++
      "       run INPUT... -c CLASS -m METHOD [--classpath DIR]\n" }

def Reply.line (r : Reply) (text : String) : Reply := { r with out := r.out ++ text ++ "\n" }

def Reply.errorLine (r : Reply) (text : String) : Reply := { r with err := r.err ++ text ++ "\n" }

end JavaEdit.Console
