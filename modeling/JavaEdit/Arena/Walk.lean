import JavaEdit.Arena.Basic

/-!
# Traversal

A walk visits the nodes below a root one at a time, in pre-order; what is still to be visited is a
stack. `Arena.elements` runs a walk to its end and keeps the nodes that a filter accepts.
-/

namespace JavaEdit

namespace Arena

def next? (a : Arena) : List NodeId → Option (NodeId × List NodeId)
  | [] => none
  | id :: rest => some (id, a.children id ++ rest)

/-- At most `fuel` nodes of a walk. -/
def walk (a : Arena) : Nat → List NodeId → List NodeId
  | 0, _ => []
  | fuel + 1, stack =>
    match a.next? stack with
    | none => []
    | some (id, rest) => id :: a.walk fuel rest

/-- Nodes from `root` on that a filter accepts, in pre-order. The walk visits each node of the
tree below the root once. -/
def elements (a : Arena) (root : NodeId) (accepts : Arena → NodeId → Bool) : List NodeId :=
  (a.walk (a.tree root).size [root]).filter (accepts a)

def isVariant (v : Variant) (a : Arena) (id : NodeId) : Bool := a.variant id == v

/-- Filter: nodes of a variant with a simple name. -/
def isNamed (v : Variant) (name : String) (a : Arena) (id : NodeId) : Bool :=
  a.variant id == v && a.simpleName? id == some name

def isOperation (op : BinaryOperator) (a : Arena) (id : NodeId) : Bool :=
  match a.kind id with
  | .binary operator _ _ => operator == op
  | _ => false

def findNamed? (a : Arena) (root : NodeId) (v : Variant) (name : String) : Option NodeId :=
  (a.elements root (isNamed v name)).head?

/-- Nodes above a node, nearest first, at most `fuel` of them. -/
def ancestorsWithin (a : Arena) : Nat → NodeId → List NodeId
  | 0, _ => []
  | fuel + 1, id =>
    match a.parent id with
    | none => []
    | some up => up :: a.ancestorsWithin fuel up

/-- Nodes above a node, nearest first. -/
def ancestors (a : Arena) (id : NodeId) : List NodeId := a.ancestorsWithin a.size id

/-- Whether a node is `ancestor` or lies below it. -/
def isWithin (a : Arena) (id ancestor : NodeId) : Bool :=
  id == ancestor || (a.ancestors id).contains ancestor

def unitOf? (a : Arena) (id : NodeId) : Option NodeId :=
  (id :: a.ancestors id).find? (isVariant .compilationUnit a)

/-- The nearest class or interface around a node. -/
def enclosingType? (a : Arena) (id : NodeId) : Option NodeId :=
  (a.ancestors id).find? fun up => (a.variant up).isType

def packageOf? (a : Arena) (id : NodeId) : Option String := do
  match a.kind (← a.unitOf? id) with
  | .compilationUnit package _ _ => package
  | _ => none

/-- The qualified name of a class or interface: package, enclosing types and its own name. -/
def qualifiedName? (a : Arena) (id : NodeId) : Option String :=
  if (a.variant id).isType then
    let types := (id :: a.ancestors id).filter fun n => (a.variant n).isType
    let names := types.filterMap a.simpleName? ++ (a.packageOf? id).toList
    some (".".intercalate names.reverse)
  else none

end Arena

end JavaEdit
