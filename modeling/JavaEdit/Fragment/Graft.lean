import JavaEdit.Fragment.Basic

/-!
# Adding and replacing members

What a snippet declares is added where that is possible; the report says of each declaration what
became of it.
-/

namespace JavaEdit

/-- Why a declaration of a snippet was left out. -/
inductive SkipReason where
  | refused (error : EditError)
  | unknownChange (variant : Variant)
  | noBody
  deriving DecidableEq, Repr

def SkipReason.message : SkipReason → String
  | refused error => error.message
  | unknownChange variant => "unknown change of type " ++ variant.text
  | noBody => "replacement has no body"

/-- A declaration that was left out. -/
structure Skipped where
  variant : Variant
  name : Option String
  reason : SkipReason
  deriving DecidableEq, Repr

/-- What became of the declarations of a snippet. -/
structure Report where
  added : List NodeId := []
  /-- Methods with another body than before. -/
  replaced : List NodeId := []
  /-- Members of the type that said the same already. -/
  present : List NodeId := []
  skipped : List Skipped := []
  deriving DecidableEq, Repr

namespace Report

def isClean (r : Report) : Bool := r.skipped.isEmpty

/-- The report with one more declaration left out. -/
def skip (r : Report) (a : Arena) (id : NodeId) (reason : SkipReason) : Report :=
  { r with skipped := r.skipped ++ [⟨a.variant id, a.simpleName? id, reason⟩] }

end Report

namespace Fragment

def parameterType (a : Arena) (id : NodeId) : String :=
  match a.kind id with
  | .parameter _ _ _ type _ => a.text type
  | _ => ""

/-- What tells members of one variant apart: a field's name, a method's name and parameter
types. -/
def signature? (a : Arena) (id : NodeId) : Option String :=
  match a.kind id with
  | .field name .. => some name
  | .method name _ _ _ _ parameters _ _ | .constructor name _ _ parameters _ _ =>
    some (name ++ "(" ++ ",".intercalate (parameters.map (parameterType a)) ++ ")")
  | _ => none

/-- The member of a type that a declaration repeats. -/
def existing? (a : Arena) (type change : NodeId) : Option NodeId :=
  (a.members type).find? fun member =>
    a.variant member == a.variant change && signature? a member == signature? a change

def addOne (type change : NodeId) (r : Report) : StateM Arena Report := do
  let variant := (← get).variant change
  if variant == .field || variant == .method then
    match ← (Edit.addMember type change).run with
    | .ok _ => return { r with added := r.added ++ [change] }
    | .error e => return r.skip (← get) change (.refused e)
  else return r.skip (← get) change (.unknownChange variant)

/-- Add declarations, those that repeat a member only if `again`. -/
def addAll (type : NodeId) (again : Bool) : List NodeId → Report → StateM Arena Report
  | [], r => return r
  | change :: rest, r => do
    let a ← get
    match if again then none else existing? a type change with
    | some member => addAll type again rest { r with present := r.present ++ [member] }
    | none => addAll type again rest (← addOne type change r)

def addCode (type : NodeId) (snippet : String) : Graft Report := do
  let changes ← extract type snippet
  monadLift (addAll type true changes {})

/-- Add the fields and methods of a snippet that a type does not declare already. -/
def addMissingCode (type : NodeId) (snippet : String) : Graft Report := do
  let changes ← extract type snippet
  monadLift (addAll type false changes {})

/-- Whether a member is a method or constructor with this name. -/
def isCallable (a : Arena) (name : String) (id : NodeId) : Bool :=
  (a.variant id == .method || a.variant id == .constructor) && a.simpleName? id == some name

/-- Give a method the body of one that was read. -/
def replaceOne (method change : NodeId) (r : Report) : Graft Report := do
  let a ← get
  if a.variant change != a.variant method then
    return r.skip a change (.unknownChange (a.variant change))
  else
    match (a.kind change).body? with
    | none => return r.skip a change .noBody
    | some body =>
      if (a.kind method).body?.any fun old => a.structurallyEqual old a body then
        return { r with present := r.present ++ [method] }
      else
        let _ ← Graft.ofEdit (Edit.detach body)
        let _ ← Graft.ofEdit (Edit.replaceBody method body)
        return { r with replaced := r.replaced ++ [method] }

/-- Give a method the bodies of those that were read, one behind the other. -/
def replaceAll (method : NodeId) : List NodeId → Report → Graft Report
  | [], r => return r
  | change :: rest, r => do replaceAll method rest (← replaceOne method change r)

/-- Give the first method or constructor with a name the statements of a text as its body. They
are read behind the head of the method. -/
def replaceMethodBody (type : NodeId) (name body : String) : Graft Report := do
  let a ← get
  match (a.members type).find? (isCallable a name) with
  | none => throw (.query (.notFound .method name (a.suggest type .method name)))
  | some method =>
    let head := (a.commented method).signatureText
    let changes ← extract type (head ++ " \x7b\n" ++ body ++ "\n\x7d")
    replaceAll method changes {}

end Fragment

end JavaEdit
