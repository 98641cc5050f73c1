import JavaEdit.Proofs.Fragment.Grafts

/-!
# Refused actions

Every edit makes its checks before it writes, so a refusal leaves no trace. The one edit that goes on behind its
first write takes out methods one after the other, and it is never refused: each of them still is a member when
its turn comes (`Edit.ends_deleteMethods_of_linked`).
-/

namespace JavaEdit

open Arena Edit

theorem Edit.untouched_of_failure? {α : Type} {edit : Edit α} {a : Arena} {good : α → Arena → Prop} {e : EditError}
    (ends : Ends edit a good (Untouched a)) (refused : failure? (edit.on a).1 = some e) : Untouched a e (edit.on a).2 := by
  unfold Edit.on at refused ⊢
  unfold Ends at ends
  cases run : edit.run.run a with
  | mk outcome b =>
    rw [run] at ends refused
    obtain rfl := eq_error_of_failure? refused
    exact ends

theorem Edit.Updates.untouched {α : Type} {handles fresh : List NodeId} {edit : Edit α} {a : Arena} {e : EditError}
    (h : Updates false handles fresh edit a) (linked : Linked a) (refused : failure? (edit.on a).1 = some e) :
    Untouched a e (edit.on a).2 :=
  untouched_of_failure? (h.mono (fun _ _ => id) fun _ _ failed => ⟨failed.1, failed.2 linked⟩) refused

namespace Arena

/-- Why an action is refused, if it is. -/
def Action.refusal? (a : Arena) : Action → Option EditError
  | create kind => failure? ((Edit.create kind).on a).1
  | setOperator id operator => failure? ((Edit.setOperator id operator).on a).1
  | detach id => failure? ((Edit.detach id).on a).1
  | deleteMember container member => failure? ((Edit.deleteMember container member).on a).1
  | deleteMethods container name => failure? ((Edit.deleteMethods container name).on a).1
  | replaceNode old new => failure? ((Edit.replaceNode old new).on a).1
  | replaceBody method block => failure? ((Edit.replaceBody method block).on a).1
  | addMember container member => failure? ((Edit.addMember container member).on a).1
  | setName id name => failure? ((Edit.setName id name).on a).1
  | setModifiers id modifiers => failure? ((Edit.setModifiers id modifiers).on a).1
  | _ => none

/-- An action that is refused leaves the arena as it was, node by node. None is refused because a parent does not
link back. -/
theorem refused_actions_change_nothing {a : Arena} (linked : Linked a) {act : Action} {e : EditError}
    (refused : act.refusal? a = some e) :
    act.apply a = a ∧ ∀ id parent, e ≠ .integrity id (.unlinked parent) := by
  cases act with
  | create kind => exact untouched_of_failure? (ends_create kind) refused
  | setOperator id operator => exact (updates_setOperator id operator).untouched linked refused
  | detach id => exact (updates_detach (List.mem_singleton_self id)).untouched linked refused
  | deleteMember container member => exact (updates_deleteMember container member).untouched linked refused
  | deleteMethods container name =>
    have never := ends_deleteMethods_of_linked linked container name
    exact untouched_of_failure? (never.mono (fun _ _ => id) fun _ _ => False.elim) refused
  | replaceNode old new => exact (updates_replaceNode (.inl (List.mem_singleton_self old))).untouched linked refused
  | replaceBody method block => exact (updates_replaceBody_unchecked method block).untouched linked refused
  | addMember container member => exact (updates_addMember container member).untouched linked refused
  | setName id name => exact (updates_setName id name).untouched linked refused
  | setModifiers id modifiers => exact (updates_setModifiers id modifiers).untouched linked refused
  | _ => cases refused

/-- The return type of a method cannot be taken out. -/
theorem refused_actions_change_nothing_returnType :
    (Action.detach 0).refusal? (empty.perform nestedMethod) = some (.requiredChild .typeReference (some "int") .method) ∧
      (Action.detach 0).apply (empty.perform nestedMethod) = empty.perform nestedMethod := by
  have linked := (linked_acyclic_perform linked_empty acyclic_empty (show Allowed empty nestedMethod by decide)).1
  have refused : (Action.detach 0).refusal? (empty.perform nestedMethod) =
      some (.requiredChild .typeReference (some "int") .method) := by decide
  exact ⟨refused, (refused_actions_change_nothing linked refused).1⟩

end Arena

end JavaEdit
