import JavaEdit.Arena.Walk
import JavaEdit.Text.Similarity

/-!
# Looking for nodes by name

A search that finds nothing names the most similar element there is.
-/

namespace JavaEdit

inductive QueryError where
  | notFound (variant : Variant) (name : String) (suggestion : Option String)
  | unknownVariant (text : String)
  deriving DecidableEq, Repr

def QueryError.message : QueryError → String
  | notFound variant name suggestion =>
    let hint := match suggestion with
      | some other => " (did you mean '" ++ other ++ "'?)"
      | none => ""
    "no " ++ variant.text ++ " named '" ++ name ++ "' found" ++ hint
  | unknownVariant text => "unknown node kind '" ++ text ++ "'"

def Variant.read (text : String) : Except QueryError Variant :=
  match Variant.ofText? text with
  | some v => .ok v
  | none => .error (.unknownVariant text)

namespace Arena

/-- The simple name most similar to `name` among nodes of a variant. -/
def suggest (a : Arena) (root : NodeId) (v : Variant) (name : String) : Option String :=
  Text.closest name ((a.elements root (isVariant v)).filterMap a.simpleName?)

def findFirst (a : Arena) (root : NodeId) (v : Variant) (name : String) :
    Except QueryError NodeId :=
  match a.findNamed? root v name with
  | some id => .ok id
  | none => .error (.notFound v name (a.suggest root v name))

end Arena

end JavaEdit
