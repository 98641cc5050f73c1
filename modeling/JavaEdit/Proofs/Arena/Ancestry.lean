import JavaEdit.Proofs.Arena.Copies

/-!
# Ancestors and walks

Parents are followed and trees are walked within bounds. In a linked arena without cycles no bound
is met: the ancestors of a node are its parent and the ancestors of that
(`ancestors_of_parent`), and a walk visits the tree below its root in pre-order (`elements_eq`). So
every node below a unit belongs to it (`HeadsUnit.unitOf?`), and what is found above and below a node
stays the same while the arena grows.
-/

namespace JavaEdit.Arena

open Relation List

variable {a b : Arena}
variable {root x : NodeId}

/-! ## Ancestors -/

/-- More fuel than there are links above a node finds no more ancestors. -/
theorem ancestorsWithin_of_climb {n m : Nat} (ends : a.climb n x = none) (le : n ≤ m) :
    a.ancestorsWithin m x = a.ancestorsWithin n x := by
  induction n generalizing m x with
  | zero => cases ends
  | succ n ih =>
    obtain _ | m := m
    · omega
    rw [ancestorsWithin, ancestorsWithin]
    cases up : a.parent x with
    | none => rfl
    | some p =>
      rw [climb, up] at ends
      exact congrArg _ (ih ends (by omega))

theorem ancestors_of_detached (top : a.parent x = none) : a.ancestors x = [] := by
  unfold ancestors
  cases a.size with
  | zero => rfl
  | succ n => rw [ancestorsWithin, top]

theorem ancestors_of_parent (linked : Linked a) (acyclic : Acyclic a) {p : NodeId}
    (up : a.parent x = some p) : a.ancestors x = p :: a.ancestors p := by
  have inside : x < a.size := linked.child_lt ((linked.parent_iff x p).mp up)
  unfold ancestors
  rw [← ancestorsWithin_of_climb (acyclic.climb_size linked inside) (Nat.le_succ _), ancestorsWithin, up]

theorem ancestorsWithin_congr {P : NodeId → Prop} (closed : ∀ x, P x → ∀ p, a.parent x = some p → P p)
    (same : ∀ x, P x → b.parent x = a.parent x) (n : Nat) (start : P x) :
    b.ancestorsWithin n x = a.ancestorsWithin n x ∧ ∀ y ∈ a.ancestorsWithin n x, P y := by
  induction n generalizing x with
  | zero => exact ⟨rfl, forall_mem_nil _⟩
  | succ n ih =>
    rw [ancestorsWithin, ancestorsWithin, same x start]
    cases up : a.parent x with
    | none => exact ⟨rfl, forall_mem_nil _⟩
    | some p =>
      have above := closed x start p up
      obtain ⟨rest, all⟩ := ih above
      exact ⟨congrArg _ rest, forall_mem_cons.mpr ⟨above, all⟩⟩

/-! ## Walks -/

theorem elements_eq (linked : Linked a) (acyclic : Acyclic a) (root : NodeId) (accepts : Arena → NodeId → Bool) :
    a.elements root accepts = (a.tree root).preorder.filter (accepts a) :=
  (linked.acyclicBelow acyclic root).elements_eq accepts

variable {accepts : Arena → NodeId → Bool}

theorem mem_preorder_of_mem_elements (linked : Linked a) (acyclic : Acyclic a)
    (found : x ∈ a.elements root accepts) : x ∈ (a.tree root).preorder := by
  rw [elements_eq linked acyclic] at found
  exact mem_of_mem_filter found

/-! ## Paths -/

theorem mem_preorder_iff (linked : Linked a) (acyclic : Acyclic a) : x ∈ (a.tree root).preorder ↔ a.Reaches root x :=
  (linked.acyclicBelow acyclic root).mem_preorder_iff

section Reaches

variable {root x y z : NodeId}

theorem Linked.reaches_lt (linked : Linked a) (inside : root < a.size) (reached : a.Reaches root x) : x < a.size := by
  induction reached with
  | refl => exact inside
  | tail _ child _ => exact linked.child_lt child

/-- A detached node lies in no tree but its own. -/
theorem Linked.not_reaches_of_detached (linked : Linked a) (detached : a.parent x = none)
    (other : x ≠ root) : ¬ a.Reaches root x := by
  intro reached
  cases reached with
  | refl => exact other rfl
  | tail _ child => exact linked.not_mem_of_detached detached _ child

theorem Linked.reaches_total (linked : Linked a) : a.Reaches y x → a.Reaches z x → a.Reaches y z ∨ a.Reaches z y :=
  Arena.reaches_total fun p q c _ _ child child' =>
    Option.some.inj (((linked.parent_iff c p).mpr child).symm.trans ((linked.parent_iff c q).mpr child'))

/-- What is above a node, and not the node, is above its parent. -/
theorem Linked.reaches_parent (linked : Linked a) (h : a.Reaches y x) (other : y ≠ x) (child : x ∈ a.children z) :
    a.Reaches y z := by
  cases h with
  | refl => exact absurd rfl other
  | tail above held =>
    have up := (linked.parent_iff x z).mpr child
    have up' := (linked.parent_iff x _).mpr held
    exact Option.some.inj (up'.symm.trans up) ▸ above

theorem Linked.below_of_reaches (linked : Linked a) (h : a.Reaches root x) : a.Below x root := by
  induction h with
  | refl => exact .refl
  | tail _ child ih => exact .head ((linked.parent_iff _ _).mpr child) ih

theorem Acyclic.not_reaches_parent (acyclic : Acyclic a) (linked : Linked a) (child : x ∈ a.children y) :
    ¬ a.Reaches x y := fun above =>
  acyclic x (.head' ((linked.parent_iff x y).mpr child) (linked.below_of_reaches above))

theorem Linked.nodup_preorder (linked : Linked a) (acyclic : Acyclic a) (root : NodeId) :
    (a.tree root).preorder.Nodup := by
  refine (linked.acyclicBelow acyclic root).nodup_preorder fun p reached =>
    ⟨nodup_iff_count_le_one.mpr (linked.once p), fun c child => ⟨?_, (linked.parent_iff c p).mpr child⟩⟩
  rintro rfl
  exact acyclic.not_reaches_parent linked child reached

end Reaches

/-! ## Units -/

/-- A node that heads a unit: a detached one with no unit below it. -/
structure HeadsUnit (a : Arena) (root : NodeId) : Prop where
  inside : root < a.size
  detached : a.parent root = none
  isUnit : a.variant root = .compilationUnit
  /-- No other unit is part of it. -/
  inner : ∀ p x, p ∈ (a.tree root).preorder → x ∈ a.children p → a.variant x ≠ .compilationUnit

theorem HeadsUnit.unitOf? (h : HeadsUnit a root) (linked : Linked a)
    (acyclic : Acyclic a) (below : x ∈ (a.tree root).preorder) : a.unitOf? x = some root := by
  have reached := (mem_preorder_iff linked acyclic).mp below
  clear below
  induction reached with
  | refl =>
    unfold Arena.unitOf?
    rw [List.find?_cons_of_pos (by simp [isVariant, h.isUnit])]
  | @tail p x reached child ih =>
    have other := h.inner p x ((mem_preorder_iff linked acyclic).mpr reached) child
    have up : a.parent x = some p := (linked.parent_iff x p).mpr child
    unfold Arena.unitOf? at ih ⊢
    rw [List.find?_cons_of_neg (by simp [isVariant, other]), ancestors_of_parent linked acyclic up, ih]

/-! ## Growth -/

/-- The arena `b` has all nodes of `a` as they were, and both are in order. -/
structure Retains (a b : Arena) : Prop where
  linked : Linked a
  acyclic : Acyclic a
  linked' : Linked b
  acyclic' : Acyclic b
  size_le : a.size ≤ b.size
  node_eq : ∀ x, x < a.size → b.node x = a.node x

theorem Grown.retains (h : Grown a b) (linked : Linked a) (acyclic : Acyclic a) : Retains a b where
  linked := linked
  acyclic := acyclic
  linked' := h.linked linked
  acyclic' := h.acyclic acyclic
  size_le := h.size_le
  node_eq _ := h.node_eq

namespace Retains

variable (h : Retains a b) {x : NodeId} (old : x < a.size)
include h old

theorem kind_eq : b.kind x = a.kind x := congrArg Node.kind (h.node_eq x old)

theorem variant_eq : b.variant x = a.variant x := congrArg Kind.variant (h.kind_eq old)

theorem children_eq : b.children x = a.children x := congrArg Kind.children (h.kind_eq old)

theorem simpleName?_eq : b.simpleName? x = a.simpleName? x := congrArg Kind.simpleName? (h.kind_eq old)

theorem ancestors_eq : b.ancestors x = a.ancestors x ∧ ∀ y ∈ x :: a.ancestors x, y < a.size := by
  have closed : ∀ x, x < a.size → ∀ p, a.parent x = some p → p < a.size := fun x _ p up =>
    Linked.parent_lt ((h.linked.parent_iff x p).mp up)
  have same : ∀ x, x < a.size → b.parent x = a.parent x := fun x inside =>
    congrArg Node.parent (h.node_eq x inside)
  unfold ancestors
  rw [(ancestorsWithin_congr closed same b.size old).1,
    ancestorsWithin_of_climb (h.acyclic.climb_size h.linked old) h.size_le]
  exact ⟨rfl, forall_mem_cons.mpr ⟨old, (ancestorsWithin_congr closed same a.size old).2⟩⟩

theorem unitOf?_eq : b.unitOf? x = a.unitOf? x := by
  obtain ⟨same, inside⟩ := h.ancestors_eq old
  unfold Arena.unitOf?
  rw [same, ← List.head?_filter, ← List.head?_filter]
  refine congrArg List.head? (filter_congr fun y mem => ?_)
  rw [isVariant, isVariant, h.variant_eq (inside y mem)]

theorem packageOf?_eq : b.packageOf? x = a.packageOf? x := by
  obtain ⟨-, inside⟩ := h.ancestors_eq old
  unfold packageOf?
  rw [h.unitOf?_eq old]
  cases found : a.unitOf? x with
  | none => rfl
  | some unit =>
    have here : unit < a.size := inside unit (mem_of_find?_eq_some found)
    simp only [Option.bind_eq_bind, Option.bind_some, h.kind_eq here]

theorem qualifiedName?_eq : b.qualifiedName? x = a.qualifiedName? x := by
  obtain ⟨same, here⟩ := h.ancestors_eq old
  have types : ((x :: a.ancestors x).filter fun n => (b.variant n).isType) =
      (x :: a.ancestors x).filter fun n => (a.variant n).isType :=
    filter_congr fun y mem => by rw [h.variant_eq (here y mem)]
  have names : ((x :: a.ancestors x).filter fun n => (a.variant n).isType).filterMap b.simpleName? =
      ((x :: a.ancestors x).filter fun n => (a.variant n).isType).filterMap a.simpleName? :=
    filterMap_congr fun y mem => h.simpleName?_eq (here y (mem_of_mem_filter mem))
  unfold qualifiedName?
  simp only [h.variant_eq old, same, types, names, h.packageOf?_eq old]

omit old in
theorem tree_eq (x : NodeId) (old : x < a.size) : b.tree x = a.tree x ∧ ∀ y ∈ (a.tree x).preorder, y < a.size := by
  induction x using h.linked.induct h.acyclic with
  | step x ih =>
    have below := fun c child => ih c child (h.linked.child_lt child)
    constructor
    · rw [h.linked'.tree_eq h.acyclic', h.linked.tree_eq h.acyclic, h.kind_eq old]
      exact congrArg _ (Kind.map_congr fun c child => (below c child).1)
    · rw [h.linked.preorder_eq h.acyclic]
      refine forall_mem_cons.mpr ⟨old, fun y mem => ?_⟩
      obtain ⟨c, child, inside⟩ := mem_flatMap.mp mem
      exact (below c child).2 y inside

theorem elements_eq
    (same : ∀ y, y < a.size → accepts b y = accepts a y) : b.elements x accepts = a.elements x accepts := by
  obtain ⟨tree, inside⟩ := h.tree_eq x old
  rw [Arena.elements_eq h.linked' h.acyclic', Arena.elements_eq h.linked h.acyclic, tree]
  exact filter_congr fun y mem => same y (inside y mem)

theorem headsUnit (unit : HeadsUnit a x) : HeadsUnit b x where
  inside := Nat.lt_of_lt_of_le old h.size_le
  detached := (congrArg Node.parent (h.node_eq x old)).trans unit.detached
  isUnit := (h.variant_eq old).trans unit.isUnit
  inner p y below child := by
    obtain ⟨tree, inside⟩ := h.tree_eq x old
    rw [tree] at below
    have there := inside p below
    rw [h.children_eq there] at child
    rw [h.variant_eq (h.linked.child_lt child)]
    exact unit.inner p y below child

end Retains

end JavaEdit.Arena
