import JavaEdit.Arena.Edit
import JavaEdit.Arena.Query
import JavaEdit.Layout.Page
import JavaEdit.Parser.Grammar

/-!
# Members given as text

A snippet of member declarations is read where it will stand: at the end of the printed type, in
an arena of its own. The members that start inside the snippet are then copied over, detached.
-/

namespace JavaEdit

inductive FragmentError where
  | unreadable (typeName : String) (error : ParseError)
  | query (error : QueryError)
  | edit (error : EditError)
  deriving DecidableEq, Repr

def FragmentError.message : FragmentError → String
  | unreadable typeName error =>
    "fragment for '" ++ typeName ++ "' does not parse: " ++ error.message
  | query error => error.message
  | edit error => error.message

/-- A change of an arena by source text. -/
abbrev Graft (α : Type) := ExceptT FragmentError (StateM Arena) α

namespace Graft

/-- Run a change: its outcome and the arena behind it. -/
def on {α : Type} (graft : Graft α) (a : Arena) : Except FragmentError α × Arena :=
  graft.run.run a

def ofEdit {α : Type} (edit : Edit α) : Graft α := edit.adapt .edit

end Graft

namespace Fragment

/-- A printed type that is still open: without its last brace and the blanks behind it. -/
def openText (printed : String) : String :=
  match (Text.trimEnd printed.toList).reverse with
  | '\x7d' :: rest => String.ofList rest.reverse
  | cs => String.ofList cs.reverse

/-- Package and imports of the unit a node belongs to. -/
def headerOf (a : Arena) (id : NodeId) : String :=
  match a.unitOf? id with
  | some unit => (a.commented unit).headerText
  | none => ""

/-- The text around a snippet: what stands before it. -/
def textBefore (a : Arena) (type : NodeId) : String := headerOf a type ++ openText (a.text type)

/-- Whether a node is a field, method or constructor that starts between two places. -/
def isSelected (a : Arena) (start stop : Nat) (id : NodeId) : Bool :=
  [Variant.field, .method, .constructor].contains (a.variant id)
    && match a.position id with
      | .real _ place _ => start ≤ place.offset && place.offset < stop
      | .synthetic => false

/-- Members that a snippet adds to the type `name`, in an arena of their own. -/
def readMembers (before snippet : String) (variant : Variant) (name : String) :
    Except FragmentError (Arena × List NodeId) :=
  match Arena.empty.readUnit (name ++ ".java") (before ++ snippet ++ "\n\x7d\n") with
  | (.error e, _) => .error (.unreadable name e)
  | (.ok unit, scratch) =>
    match scratch.findFirst unit variant name with
    | .error e => .error (.query e)
    | .ok type =>
      let start := before.utf8ByteSize
      let stop := start + snippet.utf8ByteSize
      .ok (scratch, (scratch.members type).filter (isSelected scratch start stop))

def importAll (source : Arena) : List NodeId → StateM Arena (List NodeId)
  | [] => return []
  | id :: rest => do
    let copy ← modifyGet fun a => a.importFrom source id
    return copy :: (← importAll source rest)

/-- The fields, methods and constructors that a snippet declares, as detached copies in the order
of the text. -/
def extract (type : NodeId) (snippet : String) : Graft (List NodeId) := do
  let a ← get
  let variant := a.variant type
  if !variant.isType then Graft.ofEdit (Edit.refuseVariant type "Class or Interface")
  else
    match readMembers (textBefore a type) snippet variant ((a.simpleName? type).getD "") with
    | .error e => throw e
    | .ok (scratch, members) => monadLift (importAll scratch members)

end Fragment

end JavaEdit
