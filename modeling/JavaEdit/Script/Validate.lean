import JavaEdit.Node.Operator
import JavaEdit.Script.Basic

/-!
# Checking scripts

A script may be read and still make no sense. `Script.issues` lists everything that is wrong with
one, in the order in which it is written; a script without issues is valid.
-/

namespace JavaEdit

inductive ExpectationIssue where
  | missingClass | missingMethod | returnsAndThrows
  deriving DecidableEq, Repr

def ExpectationIssue.message : ExpectationIssue → String
  | missingClass => "missing class"
  | missingMethod => "missing method"
  | returnsAndThrows => "returns and throws cannot both be set"

inductive ScriptIssue where
  | noTransforms
  /-- A field outside of the transforms, or the name of one, is not there. -/
  | missing (field : String)
  | missingIn (id field : String)
  | duplicateId (id : String)
  | unknownOperator (id operator : String)
  | sameOperator (id : String)
  | expectation (number : Nat) (issue : ExpectationIssue)
  deriving DecidableEq, Repr

def ScriptIssue.message : ScriptIssue → String
  | noTransforms => "transformation script contains no transforms"
  | missing field => "missing required field '" ++ field ++ "'"
  | missingIn id field => "transform '" ++ id ++ "' missing required field '" ++ field ++ "'"
  | duplicateId id => "transform id '" ++ id ++ "' is used twice"
  | unknownOperator id operator =>
    "transform '" ++ id ++ "' names unknown operator '" ++ operator ++ "'"
  | sameOperator id =>
    "transform '" ++ id ++ "' has invalid configuration: " ++
      "replace-operator from and to are the same operator"
  | expectation number issue =>
    "expectation #" ++ toString number ++ " is invalid: " ++ issue.message

def ScriptIssue.messages (issues : List ScriptIssue) : String :=
  "\n".intercalate (issues.map message)

def requireText (text : String) (issue : ScriptIssue) : List ScriptIssue :=
  if Text.isBlankText text then [issue] else []

def operatorIssues (id old new : String) : List ScriptIssue :=
  match BinaryOperator.read old, BinaryOperator.read new with
  | .ok a, .ok b => if a == b then [.sameOperator id] else []
  | .error _, .ok _ => [.unknownOperator id old]
  | .ok _, .error _ => [.unknownOperator id new]
  | .error _, .error _ => [.unknownOperator id old, .unknownOperator id new]

def Operation.issues (id : String) : Operation → List ScriptIssue
  | replaceOperator old new => operatorIssues id old new
  | deleteMethod name => requireText name (.missingIn id "operation.name")
  | addMembers code => requireText code (.missingIn id "operation.code")
  | replaceBody method _ => requireText method (.missingIn id "operation.method")

/-- Whether a change is made to one class only. -/
def Operation.needsClass : Operation → Bool
  | replaceOperator .. => false
  | _ => true

/-- Issues of the name of a transform, given the names in front of it. -/
def idIssues (seen : List String) (id : String) : List ScriptIssue :=
  if Text.isBlankText id then [.missing "id"]
  else if seen.contains id then [.duplicateId id]
  else []

def Transform.issues (seen : List String) (t : Transform) : List ScriptIssue :=
  let classIssues :=
    if t.operation.needsClass && t.className.all Text.isBlankText then
      [.missingIn t.id "class"]
    else []
  idIssues seen t.id ++ classIssues ++ t.operation.issues t.id

/-- Issues of transforms, given the names in front of them. -/
def transformIssues : List String → List Transform → List ScriptIssue
  | _, [] => []
  | seen, t :: rest => t.issues seen ++ transformIssues (t.id :: seen) rest

def Expectation.issues (e : Expectation) : List ExpectationIssue :=
  (if Text.isBlankText e.className then [.missingClass] else []) ++
  (if Text.isBlankText e.method then [.missingMethod] else []) ++
  (if e.returns.isSome && e.throws.isSome then [.returnsAndThrows] else [])

/-- Issues of expectations, the first of them with the given number. -/
def expectationIssues : Nat → List Expectation → List ScriptIssue
  | _, [] => []
  | number, e :: rest => e.issues.map (.expectation number) ++ expectationIssues (number + 1) rest

def Script.issues (s : Script) : List ScriptIssue :=
  (if s.transforms.isEmpty then [.noTransforms] else []) ++
  (if s.info.inputs.isEmpty then [.missing "meta.inputs"] else []) ++
  transformIssues [] s.transforms ++ expectationIssues 1 s.expectations

end JavaEdit
