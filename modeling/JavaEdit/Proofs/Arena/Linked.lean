import Mathlib.Data.List.Nodup
import JavaEdit.Arena.Edit
import JavaEdit.Proofs.Arena.Nodes
import JavaEdit.Proofs.Outcome

/-!
# Parents and children are inverse

An arena is linked when every child is a node of it, no node stands in two child slots, and the
parent links say exactly which slot a node stands in. Every change of the links is one of three:
a new node adopts detached ones (`Linked.alloc`), a child is taken out of its slot
(`Linked.unlink`), or a detached node is put into one (`Linked.graft`); putting a node in
another one's place is the last two at once (`Linked.swap`). The edits are read as these.
-/

namespace JavaEdit.Arena

open List

variable {a : Arena} {c : NodeId}

/-- The nodes in all child slots of an arena, slot by slot. -/
def slots (a : Arena) : List NodeId := (List.range a.size).flatMap a.children

/-- Child slots and parent links agree. -/
structure Linked (a : Arena) : Prop where
  /-- Every child slot holds a node of the arena. -/
  inRange : ∀ c ∈ a.slots, c < a.size
  /-- No node stands in two slots. -/
  single : a.slots.Nodup
  /-- A node has a parent exactly when it stands in a slot of it. -/
  parent_iff : ∀ c p, a.parent c = some p ↔ c ∈ a.children p

theorem lt_of_variant_ne {id : NodeId} (h : a.variant id ≠ .empty) : id < a.size := by
  by_contra outside
  exact h (congrArg Kind.variant (kind_of_le (Nat.le_of_not_lt outside)))

theorem mem_slots : c ∈ a.slots ↔ ∃ p, c ∈ a.children p := by
  simp only [slots, mem_flatMap, mem_range]
  constructor
  · rintro ⟨p, -, mem⟩
    exact ⟨p, mem⟩
  · rintro ⟨p, mem⟩
    refine ⟨p, ?_, mem⟩
    by_contra outside
    rw [children_of_le (Nat.le_of_not_lt outside)] at mem
    exact absurd mem not_mem_nil

/-- Linkedness node by node: that no node stands in slots of two parents follows from the parent
links. -/
theorem Linked.intro (inRange : ∀ p, ∀ c ∈ a.children p, c < a.size) (once : ∀ p c, (a.children p).count c ≤ 1)
    (parent_iff : ∀ c p, a.parent c = some p ↔ c ∈ a.children p) : Linked a where
  inRange := by
    intro c mem
    obtain ⟨p, hp⟩ := mem_slots.mp mem
    exact inRange p c hp
  single := by
    refine nodup_flatMap.mpr ⟨fun p _ => nodup_iff_count_le_one.mpr (once p), ?_⟩
    refine List.Pairwise.imp ?_ nodup_range
    intro p q different c hp hq
    have sameParent := ((parent_iff c p).mpr hp).symm.trans ((parent_iff c q).mpr hq)
    exact different (Option.some.inj sameParent)
  parent_iff := parent_iff

section Linked

variable {a : Arena}
variable {b : Arena} {p : NodeId}

theorem Linked.child_lt (h : Linked a) (mem : c ∈ a.children p) : c < a.size := h.inRange c (mem_slots.mpr ⟨p, mem⟩)

theorem Linked.parent_lt (mem : c ∈ a.children p) : p < a.size := by
  by_contra outside
  rw [children_of_le (Nat.le_of_not_lt outside)] at mem
  exact absurd mem not_mem_nil

theorem Linked.once (h : Linked a) (p c : NodeId) : (a.children p).count c ≤ 1 := by
  by_cases inside : p < a.size
  · exact nodup_iff_count_le_one.mp ((nodup_flatMap.mp h.single).1 p (mem_range.mpr inside)) c
  · simp [children_of_le (Nat.le_of_not_lt inside)]

theorem Linked.not_mem_of_detached (h : Linked a) (free : a.parent c = none) (p : NodeId) : c ∉ a.children p := by
  intro mem
  rw [(h.parent_iff c p).mpr mem] at free
  cases free

theorem linked_empty : Linked empty := by
  have noChildren : ∀ p, empty.children p = [] := fun p => children_of_le (Nat.zero_le p)
  refine Linked.intro ?_ ?_ ?_
  · intro p c mem
    rw [noChildren p] at mem
    exact absurd mem not_mem_nil
  · intro p c
    simp [noChildren p]
  · intro c p
    simp [noChildren p, parent_of_le (a := empty) (Nat.zero_le c)]

theorem Linked.congr (h : Linked a) (size : b.size = a.size)
    (children : ∀ p, b.children p = a.children p) (parent : ∀ c, b.parent c = a.parent c) : Linked b := by
  refine Linked.intro ?_ ?_ ?_
  · intro p c mem
    rw [children p] at mem
    rw [size]
    exact h.child_lt mem
  · intro p c
    rw [children p]
    exact h.once p c
  · intro c p
    rw [parent c, children p]
    exact h.parent_iff c p

/-! ## The three changes of links -/

theorem Linked.alloc (h : Linked a) {k : Kind NodeId} (pos : Position) (cs : List Comment)
    (once : ∀ c, k.children.count c ≤ 1) (inside : ∀ c ∈ k.children, c < a.size)
    (free : ∀ c ∈ k.children, a.parent c = none) : Linked (a.alloc k pos cs).2 := by
  refine Linked.intro ?_ ?_ ?_
  · intro p c mem
    rw [children_alloc] at mem
    rw [size_alloc]
    split at mem
    · exact Nat.lt_succ_of_lt (inside c mem)
    · exact Nat.lt_succ_of_lt (h.child_lt mem)
  · intro p c
    rw [children_alloc]
    split
    · exact once c
    · exact h.once p c
  · intro c p
    rw [parent_alloc, children_alloc]
    by_cases new : c = a.size
    · -- the new node stands in no slot: it was not there yet
      subst new
      rw [if_pos rfl]
      refine ⟨fun absurdity => absurd absurdity (by simp), fun mem => ?_⟩
      split at mem
      · exact absurd (inside _ mem) (Nat.lt_irrefl _)
      · exact absurd (h.child_lt mem) (Nat.lt_irrefl _)
    · rw [if_neg new]
      by_cases adopted : c ∈ k.children
      · rw [if_pos ⟨adopted, inside c adopted⟩]
        by_cases newParent : p = a.size
        · subst newParent
          simp [adopted]
        · rw [if_neg newParent]
          have nowhere := h.not_mem_of_detached (free c adopted) p
          have different : ¬ a.size = p := fun equal => newParent equal.symm
          simp [different, nowhere]
      · rw [if_neg fun both => adopted both.1]
        by_cases newParent : p = a.size
        · subst newParent
          have outside : a.size ≤ a.size := Nat.le_refl _
          rw [if_pos rfl, h.parent_iff, children_of_le outside]
          simp [adopted]
        · rw [if_neg newParent]
          exact h.parent_iff c p

theorem Linked.moved (h : Linked a) (leaves arrives : NodeId → Prop) (size : b.size = a.size)
    (here : ∀ x, x ∈ b.children p ↔ (x ∈ a.children p ∧ ¬ leaves x) ∨ arrives x)
    (once : ∀ x, (b.children p).count x ≤ 1) (others : ∀ q, q ≠ p → b.children q = a.children q)
    (held : ∀ x, leaves x → x ∈ a.children p ∧ b.parent x = none)
    (free : ∀ x, arrives x → x < a.size ∧ a.parent x = none ∧ b.parent x = some p)
    (parents : ∀ x, ¬ leaves x → ¬ arrives x → b.parent x = a.parent x) : Linked b := by
  refine Linked.intro ?_ ?_ ?_
  · intro q x mem
    rw [size]
    by_cases there : q = p
    · subst there
      rcases (here x).mp mem with stays | arrived
      · exact h.child_lt stays.1
      · exact (free x arrived).1
    · exact h.child_lt (others q there ▸ mem)
  · intro q x
    by_cases there : q = p
    · exact there ▸ once x
    · exact others q there ▸ h.once q x
  · intro x q
    by_cases arrived : arrives x
    · obtain ⟨-, detached, attached⟩ := free x arrived
      rw [attached]
      by_cases there : q = p
      · subst there
        simp [here, arrived]
      · rw [others q there]
        simp [Ne.symm there, h.not_mem_of_detached detached q]
    · by_cases left : leaves x
      · obtain ⟨mem, detached⟩ := held x left
        rw [detached]
        refine ⟨nofun, fun again => ?_⟩
        by_cases there : q = p
        · subst there
          rcases (here x).mp again with stays | arrives
          · exact absurd left stays.2
          · exact absurd arrives arrived
        · rw [others q there] at again
          have twice := ((h.parent_iff x q).mpr again).symm.trans ((h.parent_iff x p).mpr mem)
          exact absurd (Option.some.inj twice) there
      · rw [parents x left arrived, h.parent_iff]
        by_cases there : q = p
        · subst there
          simp [here, left, arrived]
        · rw [others q there]

theorem Linked.unlink (h : Linked a) (size : b.size = a.size) (held : c ∈ a.children p)
    (slots : ∀ x, (a.children p).count x = (b.children p).count x + (if c == x then 1 else 0))
    (others : ∀ q, q ≠ p → b.children q = a.children q) (free : b.parent c = none)
    (parents : ∀ x, x ≠ c → b.parent x = a.parent x) : Linked b := by
  have bound : ∀ x, (b.children p).count x + (if c == x then 1 else 0) ≤ 1 := fun x => slots x ▸ h.once p x
  refine h.moved (· = c) (fun _ => False) size (fun x => ?_)
    (fun x => Nat.le_trans (Nat.le_add_right ..) (bound x)) others ?_ nofun fun x other _ => parents x other
  · rw [← count_pos_iff, ← count_pos_iff, slots x, or_false]
    by_cases same : x = c
    · have := bound c
      simp only [beq_self_eq_true, if_true] at this
      simp only [same, not_true, and_false, iff_false]
      omega
    · simp [same, Ne.symm same]
  · rintro x rfl
    exact ⟨held, free⟩

theorem Linked.graft (h : Linked a) (size : b.size = a.size) (inside : c < a.size) (free : a.parent c = none)
    (slots : ∀ x, (b.children p).count x = (a.children p).count x + (if c == x then 1 else 0))
    (others : ∀ q, q ≠ p → b.children q = a.children q) (attached : b.parent c = some p)
    (parents : ∀ x, x ≠ c → b.parent x = a.parent x) : Linked b := by
  refine h.moved (fun _ => False) (· = c) size (fun x => ?_) (fun x => ?_) others nofun ?_
    fun x _ other => parents x other
  · rw [← count_pos_iff, ← count_pos_iff, slots x]
    by_cases same : x = c
    · simp [same]
    · simp [same, Ne.symm same]
  · rw [slots x]
    by_cases same : x = c
    · simp [same, count_eq_zero.mpr (h.not_mem_of_detached free p)]
    · rw [if_neg (by simpa using Ne.symm same)]
      exact h.once p x
  · rintro x rfl
    exact ⟨inside, free, attached⟩

theorem Linked.swap (h : Linked a) {old new : NodeId} (size : b.size = a.size)
    (held : old ∈ a.children p) (inside : new < a.size) (free : a.parent new = none)
    (slots : b.children p = (a.children p).map fun c => if c == old then new else c)
    (others : ∀ q, q ≠ p → b.children q = a.children q) (attached : b.parent new = some p)
    (detached : b.parent old = none) (parents : ∀ x, x ≠ old → x ≠ new → b.parent x = a.parent x) : Linked b := by
  have nowhere := h.not_mem_of_detached free
  refine h.moved (· = old) (· = new) size (fun x => ?_) ?_ others ?_ ?_ parents
  · rw [slots, mem_map]
    constructor
    · rintro ⟨c, mem, rfl⟩
      by_cases same : c = old
      · simp [same]
      · simp [same, mem]
    · rintro (⟨mem, different⟩ | rfl)
      · exact ⟨x, mem, by simp [different]⟩
      · exact ⟨old, held, by simp⟩
  · rw [slots, ← nodup_iff_count_le_one]
    refine List.Nodup.map_on ?_ (nodup_iff_count_le_one.mpr (h.once p))
    -- only the node that leaves is renamed, and the one that arrives was not among the children
    intro x hx y hy equal
    by_cases hxo : x = old <;> by_cases hyo : y = old
    · rw [hxo, hyo]
    · simp only [hxo, hyo, beq_self_eq_true, if_true, beq_iff_eq, if_false] at equal
      exact absurd (equal ▸ hy) (nowhere p)
    · simp only [hxo, hyo, beq_self_eq_true, if_true, beq_iff_eq, if_false] at equal
      exact absurd (equal ▸ hx) (nowhere p)
    · simpa [hxo, hyo] using equal
  · rintro x rfl
    exact ⟨held, detached⟩
  · rintro x rfl
    exact ⟨inside, free, attached⟩

end Linked

end JavaEdit.Arena
