import JavaEdit.Proofs.Arena.Frame
import JavaEdit.Proofs.Arena.Shown
import JavaEdit.Layout.Page

/-!
# Copies are faithful, fresh and independent

In a linked arena without cycles the tree below a node is whole, and what holds of a node whenever it
holds of its children holds of all (`Linked.tree_eq`, `Linked.induct`). Planting a tree makes one new node for each of its nodes and shows the tree
(`Planted`). So a copy is the tree that was copied, in nodes of its own; from then on neither can be
reached from the other (`Proofs/Arena/Frame`).

There is one thing a copy may not be: structurally equal to what was copied. Literals are compared
as numbers, and a literal that is not a number is not even equal to itself.
-/

namespace JavaEdit

/-- Whether a literal is not a number. -/
def Literal.isNaN : Literal → Bool
  | float bits => Number.Format.single.isNaN bits.toNat
  | double bits => Number.Format.double.isNaN bits.toNat
  | _ => false

theorem Literal.agrees_self (value : Literal) : value.agrees value = !value.isNaN := by
  cases value with
  | float bits | double bits => simp [agrees, isNaN, Number.Format.sameNumber]
  | _ => simp [agrees, isNaN]

theorem Kind.shapesAgree_self_iff {α : Type} (k : Kind α) :
    shapesAgree k.shape k.shape ↔ ∀ value, k = .literal value → value.isNaN = false := by
  cases k <;> simp [shape, map, shapesAgree, Literal.agrees_self]

/-- A property of payloads that their shapes decide, at the nodes of a tree and of its bare form. -/
theorem Tree.every_bare_iff {ι : Type} {P : Kind Unit → Prop} (t : Tree ι) :
    (t.bare.Every fun k => P k.shape) ↔ t.Every fun k => P k.shape := by
  induction t using Tree.induct with
  | step label kind ih =>
    have here : ((kind.map bare).shape : Kind Unit) = kind.shape := Kind.shape_map ..
    rw [bare_node]
    constructor
    · rintro ⟨top, below⟩
      refine .node (here ▸ top) fun t mem => (ih t mem).mp (below _ ?_)
      rw [Kind.children_map]
      exact List.mem_map_of_mem mem
    · rintro ⟨top, below⟩
      refine .node (here.symm ▸ top) fun t mem => ?_
      rw [Kind.children_map] at mem
      obtain ⟨s, inside, rfl⟩ := List.mem_map.mp mem
      exact (ih s inside).mpr (below s inside)

end JavaEdit

namespace JavaEdit.Arena

open List Kind Tree

/-! ## Trees are whole -/

section Whole

variable {a : Arena}

theorem Linked.induct (linked : Linked a) (acyclic : Acyclic a) {P : NodeId → Prop}
    (step : ∀ id, (∀ c ∈ a.children id, P c) → P id) (id : NodeId) : P id :=
  (linked.acyclicBelow acyclic id).shallow.rec_children step

theorem Linked.tree_eq (linked : Linked a) (acyclic : Acyclic a) (id : NodeId) :
    a.tree id = .node id ((a.kind id).map a.tree) := (linked.acyclicBelow acyclic id).tree_eq

theorem Linked.preorder_eq (linked : Linked a) (acyclic : Acyclic a) (id : NodeId) :
    (a.tree id).preorder = id :: (a.children id).flatMap fun c => (a.tree c).preorder :=
  (linked.acyclicBelow acyclic id).preorder_eq

/-- All payloads of the bare tree agree with themselves exactly if no literal below the node is not
a number. -/
theorem Linked.agrees_iff (linked : Linked a) (acyclic : Acyclic a) (id : NodeId) :
    (a.bare id).Every Tree.AgreesWithItself ↔
      ∀ x ∈ (a.tree id).preorder, ∀ value, a.kind x = .literal value → value.isNaN = false := by
  unfold bare
  refine Iff.trans (b := (a.tree id).Every fun k => Kind.shapesAgree k.shape k.shape)
    (every_bare_iff (P := fun k => Kind.shapesAgree k k) _) ?_
  induction id using linked.induct acyclic with
  | step id ih =>
    rw [linked.preorder_eq acyclic, forall_mem_cons, ← shapesAgree_self_iff, linked.tree_eq acyclic]
    have here : ((a.kind id).map a.tree).shape = (a.kind id).shape := shape_map ..
    constructor
    · rintro ⟨top, below⟩
      refine ⟨here ▸ top, fun x inside => ?_⟩
      obtain ⟨c, child, inside⟩ := mem_flatMap.mp inside
      refine (ih c child).mp (below _ ?_) x inside
      rw [children_map]
      exact mem_map_of_mem child
    · rintro ⟨top, below⟩
      refine .node (here.symm ▸ top) fun t mem => ?_
      rw [children_map] at mem
      obtain ⟨c, child, rfl⟩ := mem_map.mp mem
      exact (ih c child).mpr fun x inside => below x (mem_flatMap.mpr ⟨c, child, inside⟩)

end Whole

/-! ## Planting -/

/-- The nodes `ids` of `b` show the trees `ts`, and `b` has one node for each of theirs more than
`a`. -/
structure Planted (a : Arena) (ts : List (Tree (List Comment))) (ids : List NodeId) (b : Arena) :
    Prop where
  grown : Extends a b
  shown : ShowsAll b ids ts
  size : b.size = a.size + (ts.map Tree.size).sum
  position : ∀ x, b.position x = if x < a.size then a.position x else .synthetic
  /-- The new nodes are those below `ids`, each of them once. -/
  nodes : (ids.flatMap fun id => (b.tree id).preorder).Perm
    (List.range' a.size (ts.map Tree.size).sum)

section Planted

variable {a b c : Arena} {ts us : List (Tree (List Comment))} {ids held : List NodeId}

theorem Planted.nil (a : Arena) : Planted a [] [] a where
  grown := .refl a
  shown := .nil a
  size := rfl
  position x := by
    split
    · rfl
    · rename_i outside
      rw [Arena.position, node_of_le (Nat.le_of_not_lt outside)]
      rfl
  nodes := .refl _

theorem Planted.append (h : Planted a ts ids b) (h' : Planted b us held c) : Planted a (ts ++ us) (ids ++ held) c where
  grown := h.grown.trans h'.grown
  shown := by
    have kept := h.shown.extends h'.grown
    exact ⟨forall_mem_append.mpr ⟨kept.1, h'.shown.1⟩, by rw [map_append, kept.2, h'.shown.2]⟩
  size := by rw [h'.size, h.size, map_append, sum_append, Nat.add_assoc]
  position x := by
    have more := h.grown.size_le
    rw [h'.position, h.position]
    split
    · rfl
    · rw [if_neg (by lia)]
  nodes := by
    have first : (ids.flatMap fun id => (c.tree id).preorder) = ids.flatMap fun id => (b.tree id).preorder := by
      rw [flatMap_def, flatMap_def]
      refine congrArg _ (map_congr_left fun id mem => ?_)
      rw [(h.shown.1 id mem).tree_extends h'.grown]
    rw [flatMap_append, first, map_append, sum_append, ← range'_append_1, ← h.size]
    exact h.nodes.append h'.nodes

theorem Planted.alloc {k : Kind NodeId} {kind : Kind (Tree (List Comment))}
    (h : Planted a kind.children k.children b) (shape : k.shape = kind.shape) (cs : List Comment) :
    Planted a [.node cs kind] [b.size] (b.alloc k .synthetic cs).2 := by
  have payload : k.map b.commented = kind := by
    refine eq_of_shape_eq (by rw [shape_map, shape]) ?_
    rw [children_map]
    exact h.shown.2
  have shown := Shows.alloc h.shown.1 payload .synthetic cs
  have extended := extends_alloc b k .synthetic cs
  have total : ([Tree.node cs kind].map Tree.size).sum = (kind.children.map Tree.size).sum + 1 := by
    rw [map_singleton, sum_singleton, size_node, Nat.add_comm]
  refine ⟨h.grown.trans extended, .cons shown (.nil _), ?_, fun x => ?_, ?_⟩
  · rw [size_alloc, h.size, total, Nat.add_assoc]
  · have kept := h.position x
    have more := h.grown.size_le
    rw [Arena.position, node_alloc]
    split
    · rw [if_neg (by lia)]
    · split
      · exact kept
      · exact kept
  · have below : (k.children.flatMap fun id => ((b.alloc k .synthetic cs).2.tree id).preorder) =
        k.children.flatMap fun id => (b.tree id).preorder := by
      rw [flatMap_def, flatMap_def]
      refine congrArg _ (map_congr_left fun id mem => ?_)
      rw [(h.shown.1 id mem).tree_extends extended]
    have root : ((b.alloc k .synthetic cs).2.tree b.size).preorder =
        b.size :: k.children.flatMap fun id => (b.tree id).preorder := by
      rw [shown.1.acyclicBelow.tree_eq, kind_alloc, if_pos rfl, preorder_node, children_map, flatMap_map, ← below]
    rw [flatMap_singleton, root, total, range'_1_concat, ← h.size]
    exact (h.nodes.cons b.size).trans (perm_append_singleton b.size _).symm

end Planted

theorem Plants.planted {a b : Arena} {ts : List (Tree (List Comment))} {ids : List NodeId} (h : Plants a ts ids b) :
    Planted a ts ids b := by
  induction h with
  | nil a => exact .nil a
  | cons cs _ shape _ parts others => exact (parts.alloc shape cs).append others

theorem planted_plant (t : Tree (List Comment)) (a : Arena) :
    Planted a [t] [((plant t).run a).1] ((plant t).run a).2 := (plants_plant t (.nil _)).planted

/-! ## Copies -/

/-- The node `root` of `b` is a copy of the node `id` of `source`, made in the arena `a`. -/
structure IsCopy (a source : Arena) (id root : NodeId) (b : Arena) : Prop where
  old : ∀ x, x < a.size → b.node x = a.node x
  /-- There is one new node for each node that was copied. -/
  size : b.size = a.size + (source.tree id).size
  detached : b.isDetached root = true
  /-- The copy consists of the new nodes, each of them once. -/
  nodes : (b.tree root).preorder.Perm (List.range' a.size (source.tree id).size)
  synthetic : ∀ x ∈ (b.tree root).preorder, b.position x = .synthetic
  /-- Payloads and comments are the same, node for node. -/
  commented : b.commented root = source.commented id
  text : b.text root = source.text id
  /-- Only a literal that is not a number keeps the copy from being equal. -/
  equal : source.structurallyEqual id b root = true ↔
    ∀ x ∈ (source.tree id).preorder, ∀ value, source.kind x = .literal value → value.isNaN = false
  /-- What is done to new nodes does not reach the old ones. -/
  independent : ∀ acts : List Action, (∀ act ∈ acts, ∀ x ∈ act.handles, a.size ≤ x) →
    ∀ x, x < a.size → (b.perform acts).node x = a.node x

theorem isCopy_importFrom (a : Arena) {source : Arena} (linked : Linked source)
    (acyclic : Acyclic source) (id : NodeId) :
    IsCopy a source id (a.importFrom source id).1 (a.importFrom source id).2 := by
  have owns := owns_importFrom (.start a) source id
  have planted := planted_plant (source.commented id) a
  have total : ([source.commented id].map Tree.size).sum = (source.tree id).size := by
    rw [map_singleton, sum_singleton, ← size_bare, commented, bare_mapLabels, size_bare]
  have shown : Shows (a.importFrom source id).2 (a.importFrom source id).1 (source.commented id) :=
    ⟨planted.shown.1 _ (mem_singleton.mpr rfl), singleton_inj.mp planted.shown.2⟩
  have nodes := planted.nodes
  rw [flatMap_singleton, total] at nodes
  have old : ∀ x, x < a.size → (a.importFrom source id).2.node x = a.node x := fun x before => owns.grown.node_eq before
  refine ⟨old, ?_, ?_, nodes, fun x mem => ?_, shown.2, ?_, ?_, fun _ new x before => ?_⟩
  · rw [← total]
    exact planted.size
  · rw [isDetached, (owns.fresh _ (.head _)).2.2]
    rfl
  · have new := left_le_of_mem_range' (nodes.mem_iff.mp mem)
    exact (planted.position x).trans (if_neg (Nat.not_lt.mpr new))
  · rw [Arena.text, shown.2, Arena.text]
  · have same : (source.commented id).bare = source.bare id := bare_mapLabels ..
    have held := shown.1.holds
    rw [shown.2, same] at held
    rw [structurallyEqual_iff (linked.acyclicBelow acyclic id).holds_bare (size_bare _).symm held,
      alike_self_iff, linked.agrees_iff acyclic]
  · rw [(framed_perform owns.grown.apart new).old x (Nat.not_le.mpr before)]
    exact old x before

/-- An arena that holds the literal whose bits are the quiet NaN. -/
def loneNaN : Arena := (empty.alloc (.literal (.double 0x7ff8000000000000)) .synthetic []).2

end JavaEdit.Arena
