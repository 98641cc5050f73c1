import JavaEdit.Arena.Compare

/-!
# Edits

Operations that change an arena and keep it single-owner: a node gets a parent only while it is
detached, and loses it when it is unlinked. An edit leaves an arena behind also when it is
refused, so its effect in that case can be spoken about.
-/

namespace JavaEdit

/-- What can be wrong with one node's place. -/
inductive IntegrityFault where
  | foreignHandle
  | linkFault (fault : LinkFault)
  | unlinked (parent : NodeId)
  /-- A node would become part of itself. -/
  | cycle (variant target : Variant)
  deriving DecidableEq, Repr

def IntegrityFault.message : IntegrityFault → String
  | foreignHandle => "handle does not belong to this arena"
  | linkFault fault => fault.message
  | unlinked parent => "parent #" ++ toString parent ++ " does not link back"
  | cycle variant target =>
    "grafting " ++ variant.text ++ " under its own descendant " ++ target.text

/-- Why an edit is refused. Nodes appear as variant and name. -/
inductive EditError where
  | unsupportedMember (variant : Variant) (name : Option String)
  | alreadyAttached (variant : Variant) (name : Option String)
  | notAChild (child : Variant) (childName : Option String) (parent : Variant)
      (parentName : Option String)
  | unexpectedVariant (expected : String) (found : Variant) (name : Option String)
  | requiredChild (variant : Variant) (name : Option String) (parent : Variant)
  | integrity (node : NodeId) (fault : IntegrityFault)
  deriving DecidableEq, Repr

def EditError.message : EditError → String
  | unsupportedMember variant name =>
    "cannot add " ++ variant.describe name ++ " as a member: only fields and methods can be added"
  | alreadyAttached variant name =>
    variant.describe name ++ " is already attached to a parent; detach or clone it first"
  | notAChild child childName parent parentName =>
    child.describe childName ++ " is not a child of " ++ parent.describe parentName
  | unexpectedVariant expected found name =>
    "expected " ++ expected ++ ", found " ++ found.describe name
  | requiredChild variant name parent =>
    variant.describe name ++ " occupies a required slot of " ++ parent.text
      ++ " and cannot be removed"
  | integrity node fault => "integrity violation at #" ++ toString node ++ ": " ++ fault.message

abbrev Edit (α : Type) := ExceptT EditError (StateM Arena) α

namespace Edit

def on {α : Type} (edit : Edit α) (a : Arena) : Except EditError α × Arena := edit.run.run a

def refuseAttached {α : Type} (id : NodeId) : Edit α := do
  let a ← get
  throw (.alreadyAttached (a.variant id) (a.simpleName? id))

def refuseVariant {α : Type} (id : NodeId) (expected : String) : Edit α := do
  let a ← get
  throw (.unexpectedVariant expected (a.variant id) (a.simpleName? id))

/-- The children of a new node must be in the arena, detached and different. -/
def checkNewChildren : List NodeId → List NodeId → Edit Unit
  | _, [] => pure ()
  | seen, child :: rest => do
    let a ← get
    if a.size ≤ child then throw (.integrity child .foreignHandle)
    else if !a.isDetached child || seen.contains child then refuseAttached child
    else checkNewChildren (child :: seen) rest

def create (kind : Kind NodeId) : Edit NodeId := do
  checkNewChildren [] kind.children
  modifyGet fun a => a.alloc kind .synthetic []

def setOperator (id : NodeId) (operator : BinaryOperator) : Edit Unit := do
  match (← get).kind id with
  | .binary _ left right => modify fun a => a.setKind id (.binary operator left right)
  | _ => refuseVariant id "Binary"

/-- Give some binary expressions another operator. -/
def sweep (operator : BinaryOperator) : List NodeId → Arena → Arena
  | [], a => a
  | id :: rest, a =>
    match a.kind id with
    | .binary _ left right => sweep operator rest (a.setKind id (.binary operator left right))
    | _ => sweep operator rest a

/-- Replace one operator by another below a root; answers how often. -/
def replaceOperator (root : NodeId) (old new : BinaryOperator) : Edit Nat := do
  let targets := (← get).elements root (Arena.isOperation old)
  modify (sweep new targets)
  return targets.length

/-- Take a node out of its parent; `false` when it has none. -/
def detach (id : NodeId) : Edit Bool := do
  let a ← get
  match a.parent id with
  | none => return false
  | some parent =>
    match (a.kind parent).removeChild id with
    | .removed kind =>
      set ((a.setKind parent kind).setParent id none)
      return true
    | .required =>
      throw (.requiredChild (a.variant id) (a.simpleName? id) (a.variant parent))
    | .notFound => throw (.integrity id (.unlinked parent))

/-- Take a member out of a class or interface; `false` when it has no parent. -/
def deleteMember (container member : NodeId) : Edit Bool := do
  let a ← get
  if !(a.variant container).isType then refuseVariant container "Class or Interface"
  else
    match a.parent member with
    | none => return false
    | some parent =>
      if parent == container then detach member
      else
        throw (.notAChild (a.variant member) (a.simpleName? member) (a.variant container)
          (a.simpleName? container))

def deleteMembers (container : NodeId) : List NodeId → Edit Unit
  | [] => pure ()
  | member :: rest => do
    let _ ← deleteMember container member
    deleteMembers container rest

/-- Take out all methods with a name; answers how many. -/
def deleteMethods (container : NodeId) (name : String) : Edit Nat := do
  let a ← get
  let doomed := (a.members container).filter (Arena.isNamed .method name a)
  deleteMembers container doomed
  return doomed.length

def refuseCycle {α : Type} (id target : NodeId) : Edit α := do
  let a ← get
  throw (.integrity id (.cycle (a.variant id) (a.variant target)))

/-- Put a detached node in another one's place. Nothing happens to a node without parent. -/
def replaceNode (old new : NodeId) : Edit Unit := do
  let a ← get
  if !a.isDetached new then refuseAttached new
  else
    match a.parent old with
    | none => return ()
    | some parent =>
      if a.isWithin parent new then refuseCycle new parent
      else if !(a.children parent).contains old then throw (.integrity old (.unlinked parent))
      else
        set (((a.setKind parent ((a.kind parent).replaceChild old new)).setParent new
          (some parent)).setParent old none)

/-- Give a method or constructor another body; answers the old one, which is detached then. -/
def replaceBody (method block : NodeId) : Edit (Option NodeId) := do
  let a ← get
  if a.variant block != .block then refuseVariant block "Block"
  else if !a.isDetached block then refuseAttached block
  else
    match a.kind method with
    | .method n ms as ts r ps th none =>
      set ((a.setKind method (.method n ms as ts r ps th (some block))).setParent block
        (some method))
      return none
    | .method _ _ _ _ _ _ _ (some old) | .constructor _ _ _ _ _ old =>
      replaceNode old block
      return some old
    | _ => refuseVariant method "Method or Constructor"

/-- Add a detached field or method behind the members of a class or interface. -/
def addMember (container member : NodeId) : Edit Unit := do
  let a ← get
  let variant := a.variant member
  if variant != .field && variant != .method then
    throw (.unsupportedMember variant (a.simpleName? member))
  else if !a.isDetached member then refuseAttached member
  else if a.isWithin container member then refuseCycle member container
  else
    match (a.kind container).mapMembers? (· ++ [member]) with
    | some kind => set ((a.setKind container kind).setParent member (some container))
    | none => refuseVariant container "Class or Interface"

def setName (id : NodeId) (name : String) : Edit Unit := do
  match ((← get).kind id).rename? name with
  | some kind => modify fun a => a.setKind id kind
  | none => refuseVariant id "named node"

def setModifiers (id : NodeId) (modifiers : Modifiers) : Edit Unit := do
  match ((← get).kind id).withModifiers? modifiers with
  | some kind => modify fun a => a.setKind id kind
  | none => refuseVariant id "declaration with modifiers"

/-- Refuse when the links below a root are faulty. -/
def checkIntegrity (root : NodeId) : Edit Unit := do
  match (← get).linkFault? root with
  | some (node, fault) => throw (.integrity node (.linkFault fault))
  | none => return ()

end Edit

end JavaEdit
