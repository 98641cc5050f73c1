import Mathlib.Data.Fintype.Pigeonhole
import Mathlib.Logic.Relation
import JavaEdit.Proofs.Arena.Linked

/-!
# No node above itself

An arena is acyclic when no chain of parent links leads back to where it started. A change of the
links keeps it so when it only takes links away (`Acyclic.mono`), when new links lead to a node
without parent (`Acyclic.extend`), or when the one new link does not close a chain
(`Acyclic.insert`). In a linked arena without cycles a climb is no longer than the arena
(`Acyclic.climb_bound`), so the bounded search of `Arena.isWithin` misses nothing
(`not_below_of_isWithin`).
-/

namespace JavaEdit.Arena

open Relation

variable {n : Nat} {x y : NodeId}

def Up (a : Arena) (x y : NodeId) : Prop := a.parent x = some y

/-- No node is its own ancestor. -/
def Acyclic (a : Arena) : Prop := ∀ x, ¬ TransGen a.Up x x

/-- `x` is `y` or lies below it. -/
def Below (a : Arena) (x y : NodeId) : Prop := ReflTransGen a.Up x y

section Changes

variable {a b : Arena}

theorem acyclic_empty : Acyclic empty := by
  intro x cycle
  obtain ⟨y, up, -⟩ := TransGen.head'_iff.mp cycle
  rw [Up, parent_of_le (Nat.zero_le x)] at up
  cases up

/-- Taking parent links away closes no chain. -/
theorem Acyclic.mono (h : Acyclic a) (fewer : ∀ x y, b.parent x = some y → a.parent x = some y) : Acyclic b := by
  intro x cycle
  exact h x (TransGen.mono fewer x x cycle)

theorem Acyclic.extend (h : Acyclic a) (top : NodeId) (free : b.parent top = none)
    (links : ∀ x y, b.parent x = some y → a.parent x = some y ∨ y = top) : Acyclic b := by
  -- a chain to a node that has a parent never came through `top`
  have chain : ∀ {x y}, TransGen b.Up x y → b.parent y ≠ none → TransGen a.Up x y := by
    intro x y path
    induction path with
    | single up =>
      intro attached
      rcases links _ _ up with old | new
      · exact .single old
      · exact absurd (new ▸ free) attached
    | @tail y z _ up ih =>
      intro attached
      have before := ih (by rw [show b.parent y = some z from up]; simp)
      rcases links _ _ up with old | new
      · exact .tail before old
      · exact absurd (new ▸ free) attached
  intro x cycle
  obtain ⟨y, up, -⟩ := TransGen.head'_iff.mp cycle
  exact h x (chain cycle (by rw [show b.parent x = some y from up]; simp))

theorem Acyclic.alloc (h : Acyclic a) (k : Kind NodeId) (pos : Position) (cs : List Comment) :
    Acyclic (a.alloc k pos cs).2 := by
  -- only links to the new node are made, and that is detached
  refine h.extend a.size ?_ fun x y up => ?_
  · rw [parent_alloc, if_pos rfl]
  · rw [parent_alloc] at up
    split at up
    · cases up
    · split at up
      · exact .inr (Option.some.inj up).symm
      · exact .inl up

theorem Acyclic.insert (h : Acyclic a) {c p : NodeId} (apart : ¬ a.Below p c)
    (links : ∀ x y, b.parent x = some y → a.parent x = some y ∨ (x = c ∧ y = p)) : Acyclic b := by
  -- a chain is an old one, or it uses the new link once
  have chain : ∀ {x y}, TransGen b.Up x y → TransGen a.Up x y ∨ (a.Below x c ∧ a.Below p y) := by
    intro x y path
    induction path with
    | single up =>
      rcases links _ _ up with old | ⟨rfl, rfl⟩
      · exact .inl (.single old)
      · exact .inr ⟨.refl, .refl⟩
    | tail _ up ih =>
      rcases links _ _ up with old | ⟨rfl, rfl⟩
      · rcases ih with before | ⟨before, behind⟩
        · exact .inl (.tail before old)
        · exact .inr ⟨before, .tail behind old⟩
      · rcases ih with before | ⟨-, behind⟩
        · exact .inr ⟨before.to_reflTransGen, .refl⟩
        · exact absurd behind apart
  intro x cycle
  rcases chain cycle with old | ⟨before, behind⟩
  · exact h x old
  · exact apart (behind.trans before)

end Changes

/-! ## Climbing -/

/-- The node `n` parent links above `x`. -/
def climb (a : Arena) : Nat → NodeId → Option NodeId
  | 0, x => some x
  | n + 1, x => (a.parent x).bind (a.climb n)

variable {a : Arena}

theorem climb_add (m n : Nat) (x : NodeId) : a.climb (m + n) x = (a.climb m x).bind (a.climb n) := by
  induction m generalizing x with
  | zero => simp [climb]
  | succ m ih =>
    rw [Nat.succ_add, climb, climb]
    cases a.parent x with
    | none => rfl
    | some p => exact ih p

theorem climb_transGen (h : a.climb (n + 1) x = some y) : TransGen a.Up x y := by
  induction n generalizing x with
  | zero =>
    obtain ⟨p, up, reached⟩ := Option.bind_eq_some_iff.mp h
    exact .single (by rw [Up, up]; exact reached)
  | succ n ih =>
    obtain ⟨p, up, reached⟩ := Option.bind_eq_some_iff.mp h
    exact .head up (ih reached)

theorem exists_climb (h : TransGen a.Up x y) : ∃ n, a.climb (n + 1) x = some y := by
  induction h using TransGen.head_induction_on with
  | single up =>
    refine ⟨0, ?_⟩
    rw [climb, show a.parent _ = _ from up]
    rfl
  | head up _ ih =>
    obtain ⟨n, reached⟩ := ih
    refine ⟨n + 1, ?_⟩
    rw [climb, show a.parent _ = _ from up]
    exact reached

/-- A climb that gets somewhere passed through a node at each height. -/
theorem exists_climb_of_le {m : Nat} (le : m ≤ n) (h : a.climb n x = some y) : ∃ z, a.climb m x = some z := by
  rw [show n = m + (n - m) by omega, climb_add] at h
  obtain ⟨z, reached, -⟩ := Option.bind_eq_some_iff.mp h
  exact ⟨z, reached⟩

/-- In a linked arena without cycles no climb from a node passes as many links as there are
nodes. -/
theorem Acyclic.climb_size (acyclic : Acyclic a) (linked : Linked a)
    (inside : x < a.size) : a.climb a.size x = none := by
  by_contra reached
  obtain ⟨top, htop⟩ := Option.ne_none_iff_exists'.mp reached
  -- the nodes at the heights `0 … size` are nodes of the arena, so two of them are equal
  have at' : ∀ i : Fin (a.size + 1), ∃ z : Fin a.size, a.climb i x = some z.val := by
    rintro ⟨i, within⟩
    obtain ⟨z, hz⟩ := exists_climb_of_le (m := i) (by omega) htop
    refine ⟨⟨z, ?_⟩, hz⟩
    cases i with
    | zero =>
      rw [climb, Option.some_inj] at hz
      exact hz ▸ inside
    | succ i =>
      rw [climb_add i 1 x] at hz
      obtain ⟨w, -, up⟩ := Option.bind_eq_some_iff.mp hz
      obtain ⟨p, parent, same⟩ := Option.bind_eq_some_iff.mp up
      rw [climb, Option.some_inj] at same
      exact Linked.parent_lt ((linked.parent_iff w z).mp (same ▸ parent))
  choose place hplace using at'
  obtain ⟨i, j, different, same⟩ :=
    Fintype.exists_ne_map_eq_of_card_lt place (by simp)
  have cycle : ∀ i j : Fin (a.size + 1), i < j → place i = place j → False := by
    intro i j lt same
    have later := hplace j
    rw [show j.val = i.val + ((j.val - i.val - 1) + 1) by omega, climb_add, hplace i, Option.bind_some, ← same] at later
    exact acyclic _ (climb_transGen later)
  rcases lt_or_gt_of_ne different with lt | gt
  · exact cycle i j lt same
  · exact cycle j i gt same.symm

/-- In a linked arena without cycles every climb ends within the size of the arena. -/
theorem Acyclic.climb_bound (acyclic : Acyclic a) (linked : Linked a) (x : NodeId) : a.climb (a.size + 1) x = none := by
  by_cases inside : x < a.size
  · by_contra reached
    obtain ⟨top, htop⟩ := Option.ne_none_iff_exists'.mp reached
    obtain ⟨z, hz⟩ := exists_climb_of_le (m := a.size) (by omega) htop
    rw [acyclic.climb_size linked inside] at hz
    cases hz
  · rw [climb, parent_of_le (Nat.le_of_not_lt inside)]
    rfl

theorem mem_ancestorsWithin {fuel : Nat} (h : a.climb (n + 1) x = some y)
    (enough : n < fuel) : y ∈ a.ancestorsWithin fuel x := by
  induction fuel generalizing n x with
  | zero => omega
  | succ fuel ih =>
    obtain ⟨p, up, reached⟩ := Option.bind_eq_some_iff.mp h
    rw [ancestorsWithin, up]
    cases n with
    | zero => exact List.mem_cons.mpr (.inl (Option.some.inj reached).symm)
    | succ n => exact .tail _ (ih reached (by omega))

theorem transGen_of_mem_ancestorsWithin {fuel : Nat} (h : y ∈ a.ancestorsWithin fuel x) : TransGen a.Up x y := by
  induction fuel generalizing x with
  | zero => exact absurd h (by simp [ancestorsWithin])
  | succ fuel ih =>
    rw [ancestorsWithin] at h
    split at h
    · cases h
    · rename_i p up
      rcases List.mem_cons.mp h with same | mem
      · subst same
        exact .single up
      · exact .head up (ih mem)

/-- What the search along the parents finds is there. -/
theorem below_of_isWithin (h : a.isWithin x y) : a.Below x y := by
  simp only [isWithin, Bool.or_eq_true, beq_iff_eq, List.contains_iff_mem] at h
  rcases h with same | mem
  · subst same
    exact .refl
  · exact (transGen_of_mem_ancestorsWithin mem).to_reflTransGen

/-- What the search along the parents does not find is not there. -/
theorem not_below_of_isWithin (acyclic : Acyclic a) (linked : Linked a)
    (h : a.isWithin x y = false) : ¬ a.Below x y := by
  intro below
  simp only [isWithin, Bool.or_eq_false_iff, beq_eq_false_iff_ne] at h
  rcases Relation.reflTransGen_iff_eq_or_transGen.mp below with same | above
  · exact h.1 same.symm
  · obtain ⟨n, reached⟩ := exists_climb above
    have bound : n < a.size := by
      by_contra long
      obtain ⟨z, hz⟩ := exists_climb_of_le (m := a.size + 1) (by omega) reached
      rw [acyclic.climb_bound linked x] at hz
      cases hz
    have found : y ∈ a.ancestors x := mem_ancestorsWithin reached bound
    simp [found] at h

end JavaEdit.Arena
