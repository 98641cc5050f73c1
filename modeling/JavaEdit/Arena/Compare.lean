import JavaEdit.Arena.Walk

/-!
# Structural comparison and integrity

Two subtrees agree when their payloads agree node by node, wherever they were read from. An arena
is sound below a root when every node there hangs in exactly one slot and knows its parent.
-/

namespace JavaEdit

/-- What can be wrong with the links below a root. -/
inductive LinkFault where
  /-- A node hangs in two slots. -/
  | reachedTwice (variant : Variant)
  /-- A node in a slot of `owner` records another parent. -/
  | wrongParent (variant ownerVariant : Variant) (owner : NodeId) (recorded : Option NodeId)
  deriving DecidableEq, Repr

def LinkFault.message : LinkFault → String
  | reachedTwice variant => variant.text ++ " is reachable twice"
  | wrongParent variant ownerVariant owner recorded =>
    let seen := match recorded with
      | some id => "Some(NodeId(" ++ toString id ++ "))"
      | none => "None"
    variant.text ++ " under " ++ ownerVariant.text ++ " #" ++ toString owner ++ " records parent "
      ++ seen

namespace Arena

/-- Whether pairs of nodes of two arenas agree, with everything below them, looking at no more
than `fuel` pairs. -/
def pairsAgree (a b : Arena) : Nat → List (NodeId × NodeId) → Bool
  | _, [] => true
  | 0, _ :: _ => false
  | fuel + 1, (left, right) :: rest =>
    let l := a.kind left
    let r := b.kind right
    Kind.shapesAgree l.shape r.shape && l.children.length == r.children.length
      && a.pairsAgree b fuel (l.children.zip r.children ++ rest)

/-- Whether the subtrees below two nodes are the same but for positions and comments. -/
def structurallyEqual (a : Arena) (left : NodeId) (b : Arena) (right : NodeId) : Bool :=
  a.pairsAgree b (a.tree left).size [(left, right)]

/-- The links from `owner` to its children, in order. Answers the first fault with its node, or
the nodes seen so far. -/
def checkChildren (a : Arena) (owner : NodeId) :
    List NodeId → List NodeId → Except (NodeId × LinkFault) (List NodeId)
  | seen, [] => .ok seen
  | seen, child :: rest =>
    if seen.contains child then .error (child, .reachedTwice (a.variant child))
    else if a.parent child != some owner then
      .error (child, .wrongParent (a.variant child) (a.variant owner) owner (a.parent child))
    else a.checkChildren owner (child :: seen) rest

/-- The links below the nodes of a stack; the last child of a node is looked at first. -/
def checkLinks (a : Arena) : Nat → List NodeId → List NodeId → Option (NodeId × LinkFault)
  | 0, _, _ => none
  | _ + 1, _, [] => none
  | fuel + 1, seen, id :: rest =>
    match a.checkChildren id seen (a.children id) with
    | .error fault => some fault
    | .ok seen => a.checkLinks fuel seen ((a.children id).reverse ++ rest)

/-- The first fault among the links below a root. No node is looked at twice. -/
def linkFault? (a : Arena) (root : NodeId) : Option (NodeId × LinkFault) :=
  a.checkLinks (a.size + 1) [root] [root]

end Arena

end JavaEdit
