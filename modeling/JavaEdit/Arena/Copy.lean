import JavaEdit.Arena.Basic

/-!
# Copies

A tree is put into an arena from its leaves up, children in source order. Copying a subtree reads
it as a tree and puts that back: the copy is detached, holds no position and shares no node with
what it was copied from.
-/

namespace JavaEdit.Arena

def make (kind : Kind NodeId) (position : Position) (comments : List Comment) :
    StateM Arena NodeId :=
  fun a => a.alloc kind position comments

/-- Put a tree into the arena; its root is detached. -/
def plant (t : Tree (List Comment)) : StateM Arena NodeId :=
  t.fold fun comments (kind : Kind (StateM Arena NodeId)) => do
    let kind ← kind.mapM id
    make kind .synthetic comments

def copy (a : Arena) (id : NodeId) : NodeId × Arena :=
  (plant (a.commented id)).run a

def importFrom (a source : Arena) (id : NodeId) : NodeId × Arena :=
  (plant (source.commented id)).run a

end JavaEdit.Arena
