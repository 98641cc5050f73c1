import JavaEdit.Arena.Compare
import JavaEdit.Proofs.Arena.Acyclic
import JavaEdit.Proofs.Tree.Induction
import Mathlib.Algebra.GroupWithZero.Nat

/-!
# Below a node

Trees are read and walked along the child slots, within bounds. Where no chain of slots below a root
leads back to where it started, no bound is met, whatever the parent links say and however many slots
a node stands in. The tree below the root is whole (`AcyclicBelow.tree_eq`), and what holds of a node
whenever it holds of its children holds of the root (`AcyclicBelow.induct`). A walk keeps what is still
to be visited on a stack; it ends, and what it has visited then is the trees of its stack in pre-order
(`visits_preorder`).
-/

namespace JavaEdit.Tree

variable {ι : Type}

theorem size_node (label : ι) (kind : Kind (Tree ι)) : size (.node label kind) = 1 + (kind.children.map size).sum := by
  have total : ∀ (ns : List Nat) (m : Nat), ns.foldl (· + ·) m = m + ns.sum := by
    intro ns
    induction ns with
    | nil => simp
    | cons n ns ih =>
      intro m
      rw [List.foldl_cons, ih, List.sum_cons]
      omega
  unfold size
  rw [fold_node, Kind.children_map, total]

theorem preorder_node (label : ι) (kind : Kind (Tree ι)) :
    preorder (.node label kind) = label :: kind.children.flatMap preorder := by
  unfold preorder
  rw [fold_node, Kind.children_map, List.flatMap_def]

theorem length_preorder (t : Tree ι) : t.preorder.length = t.size := by
  induction t using Tree.induct with
  | step label kind ih =>
    rw [preorder_node, size_node, List.length_cons, List.length_flatMap, List.map_congr_left ih, Nat.add_comm]

end JavaEdit.Tree

namespace JavaEdit.Arena

open Relation List

variable {a : Arena} {root x : NodeId}

/-- The node `id` is `root` or lies below it, following the child slots. -/
def Reaches (a : Arena) (root id : NodeId) : Prop := ReflTransGen (fun p c => c ∈ a.children p) root id

/-- No chain of child slots below a root leads back to where it started. -/
def AcyclicBelow (a : Arena) (root : NodeId) : Prop :=
  ∀ x, a.Reaches root x → ¬ TransGen (fun p c => c ∈ a.children p) x x

theorem AcyclicBelow.reached (h : AcyclicBelow a root) (reached : a.Reaches root x) : AcyclicBelow a x :=
  fun y further => h y (reached.trans further)

theorem AcyclicBelow.child (h : AcyclicBelow a root) (child : x ∈ a.children root) : AcyclicBelow a x :=
  h.reached (.single child)

theorem AcyclicBelow.not_reaches_owner {c : NodeId} (h : AcyclicBelow a root) (reached : a.Reaches root x)
    (child : c ∈ a.children x) : ¬ a.Reaches c x := fun back =>
  h x reached (.head' child back)

/-- Where children are older than what they stand in, there is no cycle. -/
theorem acyclicBelow_of_older (older : ∀ p, a.Reaches root p → ∀ c ∈ a.children p, c < p) : AcyclicBelow a root := by
  have descends : ∀ x y, a.Reaches root x → TransGen (fun p c => c ∈ a.children p) x y → y < x := by
    intro x y reached path
    induction path with
    | single child => exact older x reached _ child
    | tail path child lower => exact Nat.lt_trans (older _ (reached.trans path.to_reflTransGen) _ child) lower
  exact fun x reached cycle => Nat.lt_irrefl x (descends x x reached cycle)

theorem Linked.acyclicBelow (linked : Linked a) (acyclic : Acyclic a) (root : NodeId) : AcyclicBelow a root :=
  fun x _ cycle => acyclic x (TransGen.swap x x (TransGen.mono (fun p c => (linked.parent_iff c p).mpr) x x cycle))

/-! ## Trees are whole -/

/-- Every chain of `n` slots from a node leads out of the arena. -/
def Shallow (a : Arena) : Nat → NodeId → Prop
  | 0, x => a.size ≤ x
  | n + 1, x => ∀ c ∈ a.children x, a.Shallow n c

theorem Shallow.unfold_eq {n : Nat} (h : a.Shallow n x) (more : Nat) : a.unfold (n + more) x = a.unfold n x := by
  induction n generalizing x with
  | zero =>
    cases more with
    | zero => rfl
    | succ more =>
      rw [Nat.zero_add, unfold, unfold, kind_of_le h]
      rfl
  | succ n ih =>
    rw [Nat.add_right_comm, unfold, unfold]
    exact congrArg _ (Kind.map_congr fun c child => ih (h c child))

theorem Shallow.rec_children {P : NodeId → Prop} (step : ∀ x, (∀ c ∈ a.children x, P c) → P x) {n : Nat}
    (h : a.Shallow n x) : P x := by
  induction n generalizing x with
  | zero =>
    refine step x fun c child => ?_
    rw [children_of_le h] at child
    exact absurd child not_mem_nil
  | succ n ih => exact step x fun c child => ih (h c child)

/-- A chain of slots without a cycle is no longer than the arena. -/
theorem AcyclicBelow.shallow (h : AcyclicBelow a root) : a.Shallow a.size root := by
  -- `path` holds the nodes passed on the way to `x`, different ones of the arena; `n` are left
  have passed : ∀ n (path : List NodeId) x, path.length + n = a.size → path.Nodup → a.Reaches root x →
      (∀ y ∈ path, y < a.size ∧ TransGen (fun p c => c ∈ a.children p) y x) → a.Shallow n x := by
    intro n
    induction n with
    | zero =>
      intro path x full once reached above
      by_contra inside
      have new : x ∉ path := fun again => h x reached (above x again).2
      have within : x :: path ⊆ range a.size := cons_subset.mpr
        ⟨mem_range.mpr (Nat.lt_of_not_le inside), fun y mem => mem_range.mpr (above y mem).1⟩
      have := ((nodup_cons.mpr ⟨new, once⟩).subperm within).length_le
      simp only [length_cons, length_range] at this
      omega
    | succ n ih =>
      intro path x left once reached above c child
      have new : x ∉ path := fun again => h x reached (above x again).2
      refine ih (x :: path) c (by rw [length_cons]; omega) (nodup_cons.mpr ⟨new, once⟩) (reached.tail child) ?_
      exact forall_mem_cons.mpr ⟨⟨Linked.parent_lt child, .single child⟩,
        fun y mem => ⟨(above y mem).1, (above y mem).2.tail child⟩⟩
  exact passed a.size [] root (Nat.zero_add _) nodup_nil .refl nofun

/-- What passes from the children of a node to the node holds of a root without cycles below it. -/
theorem AcyclicBelow.induct {P : NodeId → Prop} (h : AcyclicBelow a root)
    (step : ∀ x, AcyclicBelow a x → (∀ c ∈ a.children x, P c) → P x) : P root :=
  h.shallow.rec_children (P := fun x => AcyclicBelow a x → P x)
    (fun x ih acyclic => step x acyclic fun c child => ih c child (acyclic.child child)) h

/-- The tree below a node is its payload over the trees below its children. -/
theorem AcyclicBelow.tree_eq (h : AcyclicBelow a x) : a.tree x = .node x ((a.kind x).map a.tree) :=
  (h.shallow.unfold_eq 1).symm

theorem AcyclicBelow.preorder_eq (h : AcyclicBelow a x) :
    (a.tree x).preorder = x :: (a.children x).flatMap fun c => (a.tree c).preorder := by
  rw [h.tree_eq, Tree.preorder_node, Kind.children_map, flatMap_map]
  rfl

/-- The nodes of the tree below a root are those that a path of child slots leads to. -/
theorem AcyclicBelow.mem_preorder_iff (h : AcyclicBelow a root) : x ∈ (a.tree root).preorder ↔ a.Reaches root x := by
  refine h.induct (P := fun root => x ∈ (a.tree root).preorder ↔ a.Reaches root x) fun root acyclic ih => ?_
  rw [acyclic.preorder_eq, mem_cons, mem_flatMap]
  constructor
  · rintro (rfl | ⟨c, child, inside⟩)
    · exact .refl
    · exact .head child ((ih c child).mp inside)
  · intro reached
    rcases reached.cases_head with same | ⟨c, child, below⟩
    · exact .inl same.symm
    · exact .inr ⟨c, child, (ih c child).mpr below⟩

/-! ## Walks -/

/-- A walk from a stack comes to its end, having visited some nodes. -/
inductive Visits (a : Arena) : List NodeId → List NodeId → Prop
  | done {stack : List NodeId} : a.next? stack = none → Visits a stack []
  | next {stack rest ids : List NodeId} {id : NodeId} : a.next? stack = some (id, rest) → Visits a rest ids →
      Visits a stack (id :: ids)

/-- A walk visits the trees on its stack one after the other. -/
theorem visits_preorder {stack : List NodeId} (acyclic : ∀ x ∈ stack, AcyclicBelow a x) :
    Visits a stack (stack.flatMap fun x => (a.tree x).preorder) := by
  -- a node in front of a stack is visited with all that is below it, before the stack is
  have front : ∀ x, AcyclicBelow a x → ∀ rest ids, Visits a rest ids →
      Visits a (x :: rest) ((a.tree x).preorder ++ ids) := by
    intro x acyclic
    refine acyclic.induct (P := fun x => ∀ rest ids, Visits a rest ids →
      Visits a (x :: rest) ((a.tree x).preorder ++ ids)) fun x acyclic ih rest ids behind => ?_
    rw [acyclic.preorder_eq]
    rw [cons_append]
    refine .next rfl ?_
    generalize a.children x = cs at ih
    induction cs with
    | nil => exact behind
    | cons c cs each =>
      rw [flatMap_cons, append_assoc]
      exact ih c (.head _) _ _ (each fun c' child => ih c' (.tail _ child))
  induction stack with
  | nil => exact .done rfl
  | cons x rest ih => exact front x (acyclic x (.head _)) _ _ (ih fun y mem => acyclic y (.tail _ mem))

theorem Visits.walk_eq {stack ids : List NodeId} (h : Visits a stack ids) {fuel : Nat} (enough : ids.length ≤ fuel) :
    a.walk fuel stack = ids := by
  induction h generalizing fuel with
  | done empty =>
    cases fuel with
    | zero => rfl
    | succ fuel => rw [walk, empty]
  | next more _ ih =>
    obtain ⟨fuel, rfl⟩ : ∃ left, fuel = left + 1 := ⟨fuel - 1, by rw [length_cons] at enough; omega⟩
    rw [walk, more]
    exact congrArg _ (ih (Nat.le_of_succ_le_succ enough))

theorem AcyclicBelow.visits (h : AcyclicBelow a root) : Visits a [root] (a.tree root).preorder := by
  have all : ∀ x ∈ [root], AcyclicBelow a x := by simpa using h
  simpa using visits_preorder all

theorem AcyclicBelow.elements_eq (h : AcyclicBelow a root) (accepts : Arena → NodeId → Bool) :
    a.elements root accepts = (a.tree root).preorder.filter (accepts a) := by
  unfold elements
  rw [h.visits.walk_eq (Nat.le_of_eq (Tree.length_preorder _))]

/-! ## Nodes in one slot -/

/-- Below a root every node but the root stands in one child slot, the root stands in none, and nodes
know in whose slot they stand. -/
structure WellLinked (a : Arena) (root : NodeId) : Prop where
  top : ∀ p (i : Nat), a.Reaches root p → (a.children p)[i]? ≠ some root
  single : ∀ c, a.Reaches root c → c ≠ root →
    ∃! slot : NodeId × Nat, a.Reaches root slot.1 ∧ (a.children slot.1)[slot.2]? = some c
  parent : ∀ p (i : Nat) c, a.Reaches root p → (a.children p)[i]? = some c → a.parent c = some p

/-- The children of a node are different, none is the root, and all have the node for parent. -/
def LinksWell (a : Arena) (root p : NodeId) : Prop :=
  (a.children p).Nodup ∧ ∀ c ∈ a.children p, c ≠ root ∧ a.parent c = some p

/-- An arena is well linked below a root exactly if all nodes there link well. -/
theorem wellLinked_iff : WellLinked a root ↔ ∀ p, a.Reaches root p → a.LinksWell root p := by
  constructor
  · intro h p reached
    refine ⟨nodup_iff_getElem?_ne_getElem?.mpr fun i j lt inside same => ?_, fun c mem => ?_⟩
    · -- a child that stands there twice stands in two slots
      have there : (a.children p)[j]? = some (a.children p)[j] := getElem?_eq_getElem inside
      have other : (a.children p)[j] ≠ root := fun isRoot => h.top p j reached (isRoot ▸ there)
      have one : (p, i) = (p, j) := (h.single _ (reached.tail (getElem_mem inside)) other).unique
        ⟨reached, same.trans there⟩ ⟨reached, there⟩
      exact absurd (Prod.mk.inj one).2 (Nat.ne_of_lt lt)
    · obtain ⟨i, there⟩ := mem_iff_getElem?.mp mem
      exact ⟨fun isRoot => h.top p i reached (isRoot ▸ there), h.parent p i c reached there⟩
  · intro h
    have parent : ∀ p (i : Nat) c, a.Reaches root p → (a.children p)[i]? = some c → a.parent c = some p :=
      fun p i c reached there => ((h p reached).2 c (mem_of_getElem? there)).2
    refine ⟨fun p i reached there => ((h p reached).2 root (mem_of_getElem? there)).1 rfl, fun c reached other => ?_,
      parent⟩
    obtain same | ⟨p, above, child⟩ := reached.cases_tail
    · exact absurd same.symm other.symm
    obtain ⟨i, there⟩ := mem_iff_getElem?.mp child
    refine ⟨(p, i), ⟨above, there⟩, ?_⟩
    rintro ⟨q, j⟩ ⟨above', there'⟩
    obtain rfl : q = p := Option.some.inj ((parent q j c above' there').symm.trans (parent p i c above there))
    have inside := (List.getElem?_eq_some_iff.mp there).1
    rw [(getElem?_inj inside (h q above).1).mp (there.trans there'.symm)]

/-- Of two nodes above a third one, one is above the other, where nodes stand in slots of one node. -/
theorem reaches_total {y z : NodeId}
    (owner : ∀ p q c, a.Reaches y p → a.Reaches z q → c ∈ a.children p → c ∈ a.children q → p = q)
    (h : a.Reaches y x) (h' : a.Reaches z x) : a.Reaches y z ∨ a.Reaches z y := by
  induction h with
  | refl => exact .inr h'
  | tail above child ih =>
    cases h' with
    | refl => exact .inl (above.tail child)
    | tail above' child' => exact ih (owner _ _ _ above above' child child' ▸ above')

/-- A walk over well linked nodes comes to each of them once. -/
theorem AcyclicBelow.nodup_preorder (h : AcyclicBelow a root) (links : ∀ p, a.Reaches root p → a.LinksWell root p) :
    (a.tree root).preorder.Nodup := by
  have owner : ∀ p q c, a.Reaches root p → a.Reaches root q → c ∈ a.children p → c ∈ a.children q → p = q := by
    intro p q c above above' child child'
    exact Option.some.inj (((links p above).2 c child).2.symm.trans ((links q above').2 c child').2)
  refine h.induct (P := fun x => a.Reaches root x → (a.tree x).preorder.Nodup) (fun x acyclic ih reached => ?_) .refl
  rw [acyclic.preorder_eq, nodup_cons, nodup_flatMap]
  -- the trees of two children have a node in common only if one child is below the other
  have apart : ∀ y ∈ a.children x, ∀ z ∈ a.children x, y ≠ z → ¬ a.Reaches y z := by
    intro y left z right differ above
    obtain same | ⟨p, below, child⟩ := above.cases_tail
    · exact differ same.symm
    · have := owner p x z ((reached.tail left).trans below) reached child right
      exact acyclic.not_reaches_owner .refl left (this ▸ below)
  refine ⟨fun again => ?_, fun c child => ih c child (reached.tail child),
    (links x reached).1.pairwise_of_forall_ne fun y left z right differ => disjoint_left.mpr fun n inside inside' => ?_⟩
  · obtain ⟨c, child, inside⟩ := mem_flatMap.mp again
    exact acyclic.not_reaches_owner .refl child ((acyclic.child child).mem_preorder_iff.mp inside)
  · have total := reaches_total (fun p q c above above' =>
      owner p q c ((reached.tail left).trans above) ((reached.tail right).trans above'))
      ((acyclic.child left).mem_preorder_iff.mp inside) ((acyclic.child right).mem_preorder_iff.mp inside')
    exact total.elim (apart y left z right differ) (apart z right y left differ.symm)

/-- Where there is no cycle, the nodes that a filter accepts are answered in pre-order: a node before its
children, children in the order of their slots. The walk over them ends, and in a well linked tree it
comes to no node twice. The node of a variant and name that is found is the first one, and there is none
exactly if nothing is found. -/
theorem elements_follow_preorder (a : Arena) (root : NodeId) (acyclic : AcyclicBelow a root) :
    (∀ x, a.Reaches root x → (a.tree x).preorder = x :: (a.children x).flatMap fun c => (a.tree c).preorder) ∧
    Visits a [root] (a.tree root).preorder ∧
    (∀ accepts, a.elements root accepts = (a.tree root).preorder.filter (accepts a)) ∧
    (WellLinked a root → (a.tree root).preorder.Nodup) ∧
    ∀ v name, a.findNamed? root v name = (a.tree root).preorder.find? (isNamed v name a) ∧
      (a.findNamed? root v name = none ↔
        ∀ x, a.Reaches root x → ¬ (a.variant x = v ∧ a.simpleName? x = some name)) := by
  refine ⟨fun x reached => (acyclic.reached reached).preorder_eq, acyclic.visits, acyclic.elements_eq,
    fun linked => acyclic.nodup_preorder (wellLinked_iff.mp linked), fun v name => ?_⟩
  have first : a.findNamed? root v name = (a.tree root).preorder.find? (isNamed v name a) := by
    rw [findNamed?, acyclic.elements_eq, head?_filter]
  refine ⟨first, ?_⟩
  rw [first, find?_eq_none]
  simp [acyclic.mem_preorder_iff, isNamed]

/-- A sum whose two operands are one node. -/
def sharedOperand : Arena := ((empty.alloc (.name "x") .synthetic []).2.alloc (.binary .plus 0 0) .synthetic []).2

theorem acyclicBelow_sharedOperand : AcyclicBelow sharedOperand 1 := by
  refine acyclicBelow_of_older fun p _ c child => ?_
  have older : ∀ p < 2, ∀ c ∈ sharedOperand.children p, c < p := by decide
  exact older p (Linked.parent_lt child) c child

/-- The shared operand is visited twice. -/
theorem elements_follow_preorder_shared :
    AcyclicBelow sharedOperand 1 ∧ sharedOperand.elements 1 (isNamed .name "x") = [0, 0] ∧
      sharedOperand.findNamed? 1 .name "x" = some 0 := by
  obtain ⟨-, -, elements, -, found⟩ := elements_follow_preorder _ _ acyclicBelow_sharedOperand
  exact ⟨acyclicBelow_sharedOperand, (elements _).trans (by decide), (found _ _).1.trans (by decide)⟩

end JavaEdit.Arena
