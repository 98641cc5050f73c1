import JavaEdit.Proofs.Arena.Descent

/-!
# The integrity check

The check goes over the nodes below a root with a stack of those to look at and a list of those seen.
Along it, every node that was seen hangs in a slot of a node that is done, and the nodes that are done
link well (`Checking`). So a child that was seen before hangs in a second slot, and when the stack is
empty everything below the root has been looked at. Shared nodes and cycles do not keep the check from
its end: a node that is put on the stack is a new one of the arena.
-/

namespace JavaEdit.Arena

open Relation List

variable {a : Arena} {root id : NodeId} {seen rest stack : List NodeId}

/-- The check of a node's children passes exactly if they are new and different and record the node. -/
theorem checkChildren_eq_ok_iff {owner : NodeId} {cs seen' : List NodeId} : a.checkChildren owner seen cs = .ok seen' ↔
      cs.Nodup ∧ (∀ c ∈ cs, c ∉ seen ∧ a.parent c = some owner) ∧ cs.reverse ++ seen = seen' := by
  induction cs generalizing seen with
  | nil => simp [checkChildren]
  | cons c cs ih =>
    rw [checkChildren]
    by_cases old : c ∈ seen
    · simp [old]
    by_cases up : a.parent c = some owner
    · rw [if_neg (by simpa using old), if_neg (by simpa using up), ih, nodup_cons, forall_mem_cons]
      simp only [mem_cons, not_or, reverse_cons, append_assoc, singleton_append]
      constructor
      · rintro ⟨once, each, same⟩
        exact ⟨⟨fun again => (each c again).1.1 rfl, once⟩, ⟨⟨old, up⟩, fun x mem =>
          ⟨(each x mem).1.2, (each x mem).2⟩⟩, same⟩
      · rintro ⟨⟨first, once⟩, ⟨-, each⟩, same⟩
        exact ⟨once, fun x mem => ⟨⟨fun again => first (again ▸ mem), (each x mem).1⟩, (each x mem).2⟩, same⟩
    · simp [old, up]

/-- What holds along the check. -/
structure Checking (a : Arena) (root : NodeId) (seen stack : List NodeId) : Prop where
  once : seen.Nodup
  stacked : stack.Nodup
  known : stack ⊆ seen
  start : root ∈ seen
  reached : ∀ x ∈ seen, a.Reaches root x
  /-- A node that was seen hangs in a slot of one that is done. -/
  held : ∀ x ∈ seen, x = root ∨ ∃ p ∈ seen, p ∉ stack ∧ x ∈ a.children p
  /-- Nodes that are done link well, and their children were seen. -/
  done : ∀ p ∈ seen, p ∉ stack → a.LinksWell root p ∧ a.children p ⊆ seen

theorem checking_start (a : Arena) (root : NodeId) : Checking a root [root] [root] where
  once := nodup_singleton root
  stacked := nodup_singleton root
  known := fun _ => id
  start := mem_singleton.mpr rfl
  reached _ mem := mem_singleton.mp mem ▸ .refl
  held _ mem := .inl (mem_singleton.mp mem)
  done _ mem off := absurd mem off

/-- One round: the children of the node on top have passed, and take its place. -/
theorem Checking.next (h : Checking a root seen (id :: rest))
    (passed : (a.children id).Nodup ∧ ∀ c ∈ a.children id, c ∉ seen ∧ a.parent c = some id) :
    Checking a root ((a.children id).reverse ++ seen) ((a.children id).reverse ++ rest) := by
  obtain ⟨once, each⟩ := passed
  obtain ⟨notAgain, stacked⟩ := nodup_cons.mp h.stacked
  have idSeen := h.known (.head _)
  -- what was done stays done, and the node on top is done now
  have isDone : ∀ p ∈ seen, (p ∉ (a.children id).reverse ++ rest ↔ p = id ∨ p ∉ id :: rest) := by
    intro p old
    have notChild : p ∉ a.children id := fun child => (each p child).1 old
    by_cases same : p = id
    · subst same
      simp [notChild, notAgain]
    · simp [same, notChild]
  constructor
  · exact nodup_append.mpr ⟨nodup_reverse.mpr once, h.once, fun c new x old same =>
      (each c (mem_reverse.mp new)).1 (same ▸ old)⟩
  · exact nodup_append.mpr ⟨nodup_reverse.mpr once, stacked, fun c new x old same =>
      (each c (mem_reverse.mp new)).1 (same ▸ h.known (.tail _ old))⟩
  · exact append_subset.mpr ⟨subset_append_left _ _, fun x old => mem_append_right _ (h.known (.tail _ old))⟩
  · exact mem_append_right _ h.start
  · exact forall_mem_append.mpr ⟨fun x new => (h.reached id idSeen).tail (mem_reverse.mp new), h.reached⟩
  · intro x mem
    rcases mem_append.mp mem with new | old
    · exact .inr ⟨id, mem_append_right _ idSeen, (isDone id idSeen).mpr (.inl rfl), mem_reverse.mp new⟩
    · refine (h.held x old).imp_right ?_
      rintro ⟨p, pSeen, off, child⟩
      exact ⟨p, mem_append_right _ pSeen, (isDone p pSeen).mpr (.inr off), child⟩
  · intro p mem off
    rcases mem_append.mp mem with new | old
    · exact absurd (mem_append_left _ new) off
    · rcases (isDone p old).mp off with rfl | done
      · refine ⟨⟨once, fun c child => ⟨fun isRoot => (each c child).1 (isRoot ▸ h.start), (each c child).2⟩⟩, ?_⟩
        exact fun c child => mem_append_left _ (mem_reverse.mpr child)
      · obtain ⟨links, within⟩ := h.done p old done
        exact ⟨links, fun c child => mem_append_right _ (within child)⟩

/-- Where everything links well, the children of the node on top pass. -/
theorem Checking.passes (h : Checking a root seen (id :: rest)) (links : ∀ p, a.Reaches root p → a.LinksWell root p) :
    (a.children id).Nodup ∧ ∀ c ∈ a.children id, c ∉ seen ∧ a.parent c = some id := by
  obtain ⟨once, each⟩ := links id (h.reached id (h.known (.head _)))
  refine ⟨once, fun c child => ⟨fun old => ?_, (each c child).2⟩⟩
  rcases h.held c old with isRoot | ⟨p, pSeen, off, other⟩
  · exact (each c child).1 isRoot
  · -- the slot in which it was seen is one of a node that is done
    have same := ((h.done p pSeen off).1.2 c other).2.symm.trans (each c child).2
    exact off (Option.some.inj same ▸ .head _)

/-- With an empty stack everything below the root is done. -/
theorem Checking.links (h : Checking a root seen []) (p : NodeId) (reached : a.Reaches root p) : a.LinksWell root p := by
  have all : p ∈ seen := by
    induction reached with
    | refl => exact h.start
    | tail _ child ih => exact (h.done _ ih not_mem_nil).2 child
  exact (h.done p all not_mem_nil).1

/-- Nodes that were seen are nodes of the arena, but for the root. -/
theorem Checking.length_le (h : Checking a root seen stack) : seen.length ≤ a.size + 1 := by
  have within : seen ⊆ root :: range a.size := by
    intro x mem
    rcases h.held x mem with isRoot | ⟨p, pSeen, off, child⟩
    · exact isRoot ▸ .head _
    · refine .tail _ (mem_range.mpr ?_)
      by_contra outside
      have up := ((h.done p pSeen off).1.2 x child).2
      rw [parent_of_le (Nat.le_of_not_lt outside)] at up
      cases up
  simpa using (h.once.subperm within).length_le

/-- From any point on the check finds no fault exactly if everything below the root links well, and it
needs no more rounds than there are nodes on the stack and nodes not seen yet. -/
theorem checkLinks_spec (fuel : Nat) {seen stack : List NodeId} (h : Checking a root seen stack)
    (enough : stack.length + (a.size + 1 - seen.length) ≤ fuel) :
    (a.checkLinks fuel seen stack = none ↔ ∀ p, a.Reaches root p → a.LinksWell root p) ∧
      ∀ more, a.checkLinks (fuel + more) seen stack = a.checkLinks fuel seen stack := by
  induction fuel generalizing seen stack with
  | zero =>
    obtain rfl : stack = [] := length_eq_zero_iff.mp (by omega)
    refine ⟨iff_of_true rfl h.links, fun more => ?_⟩
    cases more <;> simp [checkLinks]
  | succ fuel ih =>
    cases stack with
    | nil => exact ⟨iff_of_true rfl h.links, fun more => by rw [Nat.add_right_comm]; rfl⟩
    | cons id rest =>
      simp only [Nat.add_right_comm, checkLinks]
      cases check : a.checkChildren id seen (a.children id) with
      | ok seen' =>
        obtain ⟨once, each, rfl⟩ := checkChildren_eq_ok_iff.mp check
        have next := h.next ⟨once, each⟩
        have bound := next.length_le
        refine ih next ?_
        simp only [length_append, length_reverse, length_cons] at enough bound ⊢
        omega
      | error fault =>
        refine ⟨iff_of_false nofun fun links => ?_, fun _ => rfl⟩
        obtain ⟨once, each⟩ := h.passes links
        rw [checkChildren_eq_ok_iff.mpr ⟨once, each, rfl⟩] at check
        cases check

theorem linkFault?_eq_none_iff : a.linkFault? root = none ↔ ∀ p, a.Reaches root p → a.LinksWell root p :=
  (checkLinks_spec _ (checking_start a root) (by simp [Nat.add_comm])).1

/-- The check passes where there is no fault to find, and changes nothing. -/
theorem on_checkIntegrity (a : Arena) (root : NodeId) : (Edit.checkIntegrity root).on a =
    ((a.linkFault? root).elim (.ok ()) fun fault => .error (.integrity fault.1 (.linkFault fault.2)), a) := by
  unfold Edit.checkIntegrity
  rw [show ∀ k : Arena → Edit Unit, (get >>= k).on a = (k a).on a from fun _ => rfl]
  cases a.linkFault? root <;> rfl

/-- Whatever the links of an arena are, the check of a root comes to its end, which more rounds would not
change; and it passes exactly if below the root every node but the root stands in one child slot, the root
in none, and the parent of every node there is the owner of its slot. -/
theorem checkIntegrity_iff_wellLinked (a : Arena) (root : NodeId) :
    (∀ more, a.checkLinks (a.size + 1 + more) [root] [root] = a.linkFault? root) ∧
      ((Edit.checkIntegrity root).on a = (.ok (), a) ↔ WellLinked a root) := by
  refine ⟨(checkLinks_spec _ (checking_start a root) (by simp [Nat.add_comm])).2, ?_⟩
  rw [wellLinked_iff, ← linkFault?_eq_none_iff, on_checkIntegrity]
  cases a.linkFault? root with
  | none => exact iff_of_true rfl rfl
  | some fault => exact iff_of_false nofun nofun

end JavaEdit.Arena
