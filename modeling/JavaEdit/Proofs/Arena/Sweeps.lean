import Mathlib.Data.Set.Card
import JavaEdit.Proofs.Arena.Actions
import JavaEdit.Proofs.Arena.Ancestry

/-!
# Exchanging operators

A sweep gives some binary expressions another operator and leaves all else alone (`node_sweep`). The ones it is made
to are found by a walk, which meets each use of the old operator below the root once, so that the answer counts them
(`replaceOperator_counts_what_it_changes`).
-/

namespace JavaEdit

open Arena List

/-! ## Uses of an operator -/

/-- The payload with another operator, if it has one. -/
def Kind.withOperator {α : Type} (op : BinaryOperator) : Kind α → Kind α
  | .binary _ left right => .binary op left right
  | k => k

theorem Kind.withOperator_twice {α : Type} (op : BinaryOperator) (k : Kind α) :
    (k.withOperator op).withOperator op = k.withOperator op := by
  cases k <;> rfl

variable {op : BinaryOperator}

theorem Kind.withOperator_eq_binary {α : Type} {op' : BinaryOperator} {k : Kind α} {left right : α} :
    k.withOperator op' = .binary op left right ↔ op = op' ∧ ∃ old, k = .binary old left right := by
  unfold withOperator
  split
  · simp [eq_comm]
  · rename_i other
    exact ⟨fun same => (other _ _ _ same).elim, fun ⟨_, _, same⟩ => (other _ _ _ same).elim⟩

namespace Arena

/-- A node at or below some roots that combines values with an operator. -/
def Uses (a : Arena) (roots : List NodeId) (op : BinaryOperator) (x : NodeId) : Prop :=
  (∃ root ∈ roots, a.Reaches root x) ∧ ∃ left right, a.kind x = .binary op left right

theorem node_sweep (op : BinaryOperator) (ids : List NodeId) (a : Arena) (x : NodeId) : (Edit.sweep op ids a).node x =
      if x ∈ ids then { a.node x with kind := (a.kind x).withOperator op } else a.node x := by
  induction ids generalizing a with
  | nil => rfl
  | cons id rest ih =>
    -- the first step, whether or not there is an operator at `id`
    have first : ∃ b, Edit.sweep op (id :: rest) a = Edit.sweep op rest b ∧
        ∀ y, b.node y = if y = id then { a.node y with kind := (a.kind y).withOperator op } else a.node y := by
      rw [Edit.sweep]
      split
      · rename_i left right binary
        have inside : id < a.size := lt_of_variant_ne (by rw [Arena.variant, binary]; rintro ⟨⟩)
        refine ⟨_, rfl, fun y => ?_⟩
        rw [Arena.setKind, node_modify]
        simp only [inside, and_true]
        refine ite_congr rfl (fun here => ?_) fun _ => rfl
        rw [here, binary]
        rfl
      · rename_i other
        refine ⟨a, rfl, fun y => ?_⟩
        split
        · rename_i here
          have same : (a.kind y).withOperator op = a.kind y := by
            unfold Kind.withOperator
            split
            · rename_i found
              exact absurd (here ▸ found) (other _ _ _)
            · rfl
          rw [same, Arena.kind]
        · rfl
    obtain ⟨b, run, step⟩ := first
    rw [run, ih]
    by_cases here : x = id
    · have kind : b.kind x = (a.kind x).withOperator op := by rw [Arena.kind, step, if_pos here]
      rw [if_pos (mem_cons.mpr (.inl here)), step, if_pos here, kind, Kind.withOperator_twice, ite_self]
    · have same : b.node x = a.node x := by rw [step, if_neg here]
      simp only [Arena.kind, same, mem_cons, here, false_or]

/-- The uses of an operator behind a sweep: those that it passed over, and all that it was made to if it put the
operator there. -/
theorem uses_sweep {a : Arena} {ids roots : List NodeId} {op' : BinaryOperator} {x : NodeId} :
    (Edit.sweep op' ids a).Uses roots op x ↔
      a.Uses roots op x ∧ x ∉ ids ∨ (∃ old, a.Uses roots old x) ∧ x ∈ ids ∧ op = op' := by
  obtain ⟨-, children, -⟩ := Edit.links_sweep op' ids a
  have reaches : ∀ root, (Edit.sweep op' ids a).Reaches root x ↔ a.Reaches root x := fun root => by
    unfold Arena.Reaches
    simp only [children]
  unfold Uses
  simp only [reaches]
  unfold Arena.kind
  rw [node_sweep]
  by_cases member : x ∈ ids
  · simp only [member, if_true, not_true, and_false, false_or, true_and, Kind.withOperator_eq_binary]
    exact ⟨fun ⟨root, left, right, put, old, kind⟩ => ⟨⟨old, root, left, right, kind⟩, put⟩,
      fun ⟨⟨old, root, left, right, kind⟩, put⟩ => ⟨root, left, right, put, old, kind⟩⟩
  · simp [member]

theorem isOperation_iff {a : Arena} {x : NodeId} :
    isOperation op a x ↔ ∃ left right, a.kind x = .binary op left right := by
  unfold isOperation
  split
  · rename_i other left right kind
    simp [kind]
  · rename_i other
    simpa using fun left right => other op left right

section Operations

variable {a : Arena} (linked : Linked a) (acyclic : Acyclic a)
include linked acyclic

theorem mem_operations_iff {root x : NodeId} :
    x ∈ a.elements root (isOperation op) ↔ a.Uses [root] op x := by
  rw [elements_eq linked acyclic, mem_filter, mem_preorder_iff linked acyclic, isOperation_iff]
  simp only [Uses, mem_singleton, exists_eq_left]

theorem nodup_operations (root : NodeId) (op : BinaryOperator) : (a.elements root (isOperation op)).Nodup := by
  rw [elements_eq linked acyclic]
  exact (linked.nodup_preorder acyclic root).filter _

theorem ncard_uses (root : NodeId) (op : BinaryOperator) :
    {x | a.Uses [root] op x}.Finite ∧ {x | a.Uses [root] op x}.ncard = (a.elements root (isOperation op)).length := by
  have found : {x | a.Uses [root] op x} = ((a.elements root (isOperation op)).toFinset : Set NodeId) := by
    ext x
    simp [mem_operations_iff linked acyclic]
  rw [found, Set.ncard_coe_finset, toFinset_card_of_nodup (nodup_operations linked acyclic root op)]
  exact ⟨Finset.finite_toSet _, rfl⟩

end Operations

/-- Replacing an operator below a root answers how many uses of it there are, and changes nothing but the operator
of each of them. If the new operator is another one, no use of the old one is left below the root, there are so many
more uses of the new one, and doing it again changes nothing. -/
theorem replaceOperator_counts_what_it_changes {a : Arena} (linked : Linked a) (acyclic : Acyclic a) (root : NodeId)
    (old new : BinaryOperator) :
    ∃ b, (Edit.replaceOperator root old new).on a = (.ok {x | a.Uses [root] old x}.ncard, b) ∧ b.size = a.size ∧
      (∀ x, a.Uses [root] old x → b.node x = { a.node x with kind := (a.kind x).withOperator new }) ∧
      (∀ x, ¬ a.Uses [root] old x → b.node x = a.node x) ∧
      (old ≠ new → (∀ x, ¬ b.Uses [root] old x) ∧
        {x | b.Uses [root] new x}.ncard = {x | a.Uses [root] new x}.ncard + {x | a.Uses [root] old x}.ncard ∧
        (Edit.replaceOperator root old new).on b = (.ok 0, b)) := by
  let found := a.elements root (isOperation old)
  have mem : ∀ x, x ∈ found ↔ a.Uses [root] old x := fun x => mem_operations_iff linked acyclic
  obtain ⟨size, children, parent⟩ := Edit.links_sweep new found a
  refine ⟨Edit.sweep new found a, ?_, size, fun x use => ?_, fun x other => ?_, fun differ => ?_⟩
  · rw [(ncard_uses linked acyclic root old).2]
    rfl
  · rw [node_sweep, if_pos ((mem x).mpr use)]
  · rw [node_sweep, if_neg (mt (mem x).mp other)]
  · have none : ∀ x, ¬ (Edit.sweep new found a).Uses [root] old x := fun x use => by
      simp only [uses_sweep, differ, and_false, or_false, mem] at use
      exact use.2 use.1
    refine ⟨none, ?_, ?_⟩
    · have both : {x | (Edit.sweep new found a).Uses [root] new x} =
          {x | a.Uses [root] new x} ∪ {x | a.Uses [root] old x} := by
        ext x
        simp only [Set.mem_ofPred_eq, Set.mem_union, uses_sweep, mem, and_true]
        constructor
        · rintro (⟨use, -⟩ | ⟨-, use⟩)
          · exact .inl use
          · exact .inr use
        · rintro (use | use)
          · refine .inl ⟨use, fun use' => ?_⟩
            obtain ⟨-, left, right, kind⟩ := use
            obtain ⟨-, left', right', kind'⟩ := use'
            exact differ (Kind.binary.inj (kind'.symm.trans kind)).1
          · exact .inr ⟨⟨old, use⟩, use⟩
      rw [both, Set.ncard_union_eq ?_ (ncard_uses linked acyclic root new).1 (ncard_uses linked acyclic root old).1]
      refine Set.disjoint_left.mpr ?_
      rintro x ⟨-, left, right, kind⟩ ⟨-, left', right', kind'⟩
      exact differ (Kind.binary.inj (kind'.symm.trans kind)).1
    · have linked' := linked.congr size children parent
      have acyclic' : Acyclic (Edit.sweep new found a) := acyclic.mono fun x y up => by rw [← parent x]; exact up
      have nothing : (Edit.sweep new found a).elements root (isOperation old) = [] :=
        List.eq_nil_iff_forall_not_mem.mpr fun x member => none x ((mem_operations_iff linked' acyclic').mp member)
      show (Except.ok ((Edit.sweep new found a).elements root (isOperation old)).length,
        Edit.sweep new ((Edit.sweep new found a).elements root (isOperation old)) _) = _
      rw [nothing]
      rfl

/-- The expression `1 + 2 + x`. -/
def sums : List Action :=
  [.create (.literal (.int 1)), .create (.literal (.int 2)), .create (.binary .plus 0 1), .create (.name "x"),
   .create (.binary .plus 2 3)]

theorem replaceOperator_counts_what_it_changes_sums : Allowed empty sums ∧
    ∃ b, (Edit.replaceOperator 4 .plus .minus).on (empty.perform sums) = (.ok 2, b) ∧
      (∀ x, ¬ b.Uses [4] .plus x) ∧ {x | b.Uses [4] .minus x}.ncard = 2 ∧
      (Edit.replaceOperator 4 .plus .minus).on b = (.ok 0, b) := by
  have allowed : Allowed empty sums := by decide
  obtain ⟨linked, acyclic⟩ := linked_acyclic_perform linked_empty acyclic_empty allowed
  have before := fun op => (ncard_uses linked acyclic 4 op).2
  obtain ⟨b, run, -, -, -, apart⟩ := replaceOperator_counts_what_it_changes linked acyclic 4 .plus .minus
  obtain ⟨none, more, again⟩ := apart (by decide)
  refine ⟨allowed, b, ?_, none, ?_, again⟩
  · have twice : ((empty.perform sums).elements 4 (isOperation .plus)).length = 2 := by decide
    rw [run, before, twice]
  · rw [more, before, before]
    decide

end Arena

end JavaEdit
