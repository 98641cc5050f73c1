import JavaEdit.Script.Validate
import JavaEdit.Toml.Document

/-!
# Loading scripts

A script is written as a TOML document and is only taken when nothing is wrong with it. Where a
list stands for a record of a document, what it holds beyond the record is passed over.
-/

namespace JavaEdit

inductive ScriptError where
  /-- It is no document, or does not have the form of a script. -/
  | malformed
  | invalid (issues : List ScriptIssue)
  deriving DecidableEq, Repr

/-- What is said of a refused script, with the path it was read from. -/
def ScriptError.message (path : Option String) : ScriptError → String
  | malformed => "failed to parse transformation script TOML" ++ place path
  | invalid issues => "invalid transformation script" ++ place path ++ ": " ++
      ScriptIssue.messages issues
where
  place : Option String → String
    | some path => " (" ++ path ++ ")"
    | none => ""

/-- A script, unless something is wrong with it. -/
def Script.checked (s : Script) : Except ScriptError Script :=
  match s.issues with
  | [] => .ok s
  | issues => .error (.invalid issues)

def Script.load (text : String) : Except ScriptError Script :=
  match (Toml.read? text).bind (ofData? true) with
  | some s => s.checked
  | none => .error .malformed

end JavaEdit
