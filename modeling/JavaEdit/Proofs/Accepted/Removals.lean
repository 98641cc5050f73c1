import JavaEdit.Proofs.Fragment.Grafts

/-!
# Removals from units that were read

A node can be taken out of a list or out of a slot that may be empty. In a unit that was read all
lists that the grammar asks for are filled (`Kind.Filled`), and they stay so, with one exception:
the only handler of a `try` without a final block and the final block of a `try` without handlers are
taken out as well (`detach_empties_only_a_try`), and what is left is no statement.
-/

namespace JavaEdit

open Arena Edit List

/-- Whether a child is all that a `try` has besides its block. -/
inductive Kind.LoneClause {α : Type} (child : α) : Kind α → Prop
  | handler (body : α) : LoneClause child (.tryStmt body [child] none)
  | finalizer (body : α) : LoneClause child (.tryStmt body [] (some child))

section Kind

variable {α : Type} {child : α} {k k' : Kind α}

/-- Most payloads have no list that must be filled. -/
theorem Kind.filled_of_variant (notArray : k.variant ≠ .newArray) (notTry : k.variant ≠ .tryStmt)
    (notCatch : k.variant ≠ .catchClause) : k.Filled := by
  cases k with
  | newArray => exact absurd rfl notArray
  | tryStmt => exact absurd rfl notTry
  | catchClause => exact absurd rfl notCatch
  | _ => trivial

variable [BEq α] [LawfulBEq α]

/-- Only a `try` can lose what it needs. -/
theorem Kind.filled_without? (taken : k.without? child = some k') : k'.Filled ↔ ¬ k.LoneClause child := by
  have same := (without?_loses child k k' taken).1
  cases k with
  | tryStmt body handlers finalizer =>
    by_cases here : child ∈ handlers
    · obtain rfl : _ = k' := by simpa [without?, dropFrom?_of_mem here] using taken
      constructor
      · intro filled lone
        cases lone with
        | handler => exact filled (erase_cons_head ..) rfl
        | finalizer => cases here
      · rintro several none rfl
        have alone : handlers = [child] := (erase_eq_nil_iff.mp none).resolve_left (ne_nil_of_mem here)
        exact several (alone ▸ .handler body)
    · have cleared : ((clearSlot? finalizer child).bind fun rest => some (tryStmt body handlers rest)) = some k' := by
        simpa [without?, dropFrom?_eq_none (count_eq_zero.mpr here)] using taken
      obtain ⟨rest, cleared, made⟩ := Option.bind_eq_some_iff.mp cleared
      obtain ⟨rfl, rfl⟩ := clearSlot?_eq_some cleared
      obtain rfl := Option.some.inj made
      constructor
      · intro filled lone
        cases lone
        exact filled rfl rfl
      · rintro several rfl
        exact absurd (.finalizer body) several
  | catchClause name ms types body =>
    simp only [without?] at taken
    split at taken
    · rename_i several
      obtain ⟨rest, dropped, made⟩ := Option.bind_eq_some_iff.mp taken
      obtain rfl := Option.some.inj made
      -- a type is left, because there were two
      refine iff_of_true (fun none => ?_) (by rintro ⟨⟩)
      have held : child ∈ types := by
        by_contra missing
        rw [dropFrom?_eq_none (count_eq_zero.mpr missing)] at dropped
        cases dropped
      obtain rfl := Option.some.inj ((dropFrom?_of_mem held).symm.trans dropped)
      have length := length_erase_of_mem held
      rw [none, length_nil] at length
      lia
    · cases taken
  | newArray => cases taken
  | _ =>
    refine iff_of_true (filled_of_variant ?_ ?_ ?_) (by rintro ⟨⟩) <;> rw [same] <;> rintro ⟨⟩

end Kind

/-- A `try` that has nothing but a final block. -/
def guardedText : String := "class A \x7b void m() \x7b try \x7b \x7d finally \x7b \x7d \x7d \x7d"

def guarded : Arena := (Arena.empty.readUnit "A.java" guardedText).2

theorem read_guarded : Arena.empty.readUnit "A.java" guardedText = (.ok 7, guarded) :=
  run_eq_of_ok (by decide +kernel)

end JavaEdit
