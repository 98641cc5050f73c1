import JavaEdit.Source.Location
import JavaEdit.Tree.Basic

/-!
# The arena

Nodes live in an arena and name each other by index. A node knows its payload, whose children are
indices, and its parent; a node without parent is detached. `Arena.alloc` makes its children's
parent links, and `Arena.tree` reads the tree below a node.
-/

namespace JavaEdit

abbrev NodeId := Nat

structure Node where
  kind : Kind NodeId
  parent : Option NodeId
  position : Position
  comments : List Comment
  deriving DecidableEq, Repr

/-- What stands for a node that an arena does not hold. -/
def Node.blank : Node := ⟨.empty, none, .synthetic, []⟩

/-- Nodes in the order of their making. -/
structure Arena where
  nodes : Array Node
  deriving DecidableEq, Repr

namespace Arena

def empty : Arena := ⟨#[]⟩

def size (a : Arena) : Nat := a.nodes.size

def node (a : Arena) (id : NodeId) : Node := a.nodes.getD id .blank

def kind (a : Arena) (id : NodeId) : Kind NodeId := (a.node id).kind

def parent (a : Arena) (id : NodeId) : Option NodeId := (a.node id).parent

def position (a : Arena) (id : NodeId) : Position := (a.node id).position

def comments (a : Arena) (id : NodeId) : List Comment := (a.node id).comments

def variant (a : Arena) (id : NodeId) : Variant := (a.kind id).variant

def simpleName? (a : Arena) (id : NodeId) : Option String := (a.kind id).simpleName?

def children (a : Arena) (id : NodeId) : List NodeId := (a.kind id).children

def members (a : Arena) (id : NodeId) : List NodeId := (a.kind id).members

def isDetached (a : Arena) (id : NodeId) : Bool := (a.parent id).isNone

/-- Variant and name of a node, as messages give them. -/
def describe (a : Arena) (id : NodeId) : String := (a.kind id).describe

def modify (a : Arena) (id : NodeId) (f : Node → Node) : Arena := ⟨a.nodes.modify id f⟩

def setKind (a : Arena) (id : NodeId) (kind : Kind NodeId) : Arena :=
  a.modify id fun n => { n with kind }

def setParent (a : Arena) (id : NodeId) (parent : Option NodeId) : Arena :=
  a.modify id fun n => { n with parent }

def addComment (a : Arena) (id : NodeId) (comment : Comment) : Arena :=
  a.modify id fun n => { n with comments := n.comments ++ [comment] }

def clearComments (a : Arena) (id : NodeId) : Arena :=
  a.modify id fun n => { n with comments := [] }

/-- Make a detached node, which becomes the parent of its children. -/
def alloc (a : Arena) (kind : Kind NodeId) (position : Position) (comments : List Comment) :
    NodeId × Arena :=
  let id := a.size
  let adopted := kind.children.foldl (fun a child => a.setParent child (some id)) a
  (id, ⟨adopted.nodes.push ⟨kind, none, position, comments⟩⟩)

/-- The tree below a node, labelled with indices, to a depth of `fuel` nodes. -/
def unfold (a : Arena) : Nat → NodeId → Tree NodeId
  | 0, id => .node id .empty
  | fuel + 1, id => .node id ((a.kind id).map (a.unfold fuel))

/-- The tree below a node. No path without a cycle is longer than the arena. -/
def tree (a : Arena) (id : NodeId) : Tree NodeId := a.unfold a.size id

def commented (a : Arena) (id : NodeId) : Tree (List Comment) :=
  (a.tree id).mapLabels a.comments

def bare (a : Arena) (id : NodeId) : Tree Unit := (a.tree id).bare

end Arena

end JavaEdit
