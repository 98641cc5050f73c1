import JavaEdit.Proofs.Arena.Change
import JavaEdit.Proofs.Arena.Integrity
import JavaEdit.Proofs.Ownership.Rules

/-!
# Runs of arena actions

Everything that can be done to an arena, as one type of actions. Reading, making and copying let the
arena grow, edits are changes of its links (`Proofs/Arena/Change`). So every action keeps an arena
linked, and all but one keep it acyclic: a method without body accepts a block that the method
itself is part of.
-/

namespace JavaEdit.Arena

open Relation

/-- An action on an arena, with its arguments. -/
inductive Action where
  | readUnit (file text : String)
  | readExpression (text : String)
  | readBlock (text : String)
  | create (kind : Kind NodeId)
  | copy (id : NodeId)
  | importFrom (source : Arena) (id : NodeId)
  | setOperator (id : NodeId) (operator : BinaryOperator)
  | replaceOperator (root : NodeId) (old new : BinaryOperator)
  | detach (id : NodeId)
  | deleteMember (container member : NodeId)
  | deleteMethods (container : NodeId) (name : String)
  | replaceNode (old new : NodeId)
  | replaceBody (method block : NodeId)
  | addMember (container member : NodeId)
  | setName (id : NodeId) (name : String)
  | setModifiers (id : NodeId) (modifiers : Modifiers)
  | addComment (id : NodeId) (comment : Comment)
  | clearComments (id : NodeId)

namespace Action

/-- The arena behind an action, whether or not it was refused. -/
def apply : Action → Arena → Arena
  | readUnit file text, a => (a.readUnit file text).2
  | readExpression text, a => (a.readExpression text).2
  | readBlock text, a => (a.readBlock text).2
  | create kind, a => ((Edit.create kind).on a).2
  | copy id, a => (a.copy id).2
  | importFrom source id, a => (a.importFrom source id).2
  | setOperator id operator, a => ((Edit.setOperator id operator).on a).2
  | replaceOperator root old new, a => ((Edit.replaceOperator root old new).on a).2
  | detach id, a => ((Edit.detach id).on a).2
  | deleteMember container member, a => ((Edit.deleteMember container member).on a).2
  | deleteMethods container name, a => ((Edit.deleteMethods container name).on a).2
  | replaceNode old new, a => ((Edit.replaceNode old new).on a).2
  | replaceBody method block, a => ((Edit.replaceBody method block).on a).2
  | addMember container member, a => ((Edit.addMember container member).on a).2
  | setName id name, a => ((Edit.setName id name).on a).2
  | setModifiers id modifiers, a => ((Edit.setModifiers id modifiers).on a).2
  | addComment id comment, a => a.addComment id comment
  | clearComments id, a => a.clearComments id

/-- The nodes of the arena that an action names. -/
def handles : Action → List NodeId
  | readUnit _ _ | readExpression _ | readBlock _ | importFrom _ _ => []
  | create kind => kind.children
  | copy id | setOperator id _ | replaceOperator id _ _ | detach id | deleteMethods id _
  | setName id _ | setModifiers id _ | addComment id _ | clearComments id => [id]
  | deleteMember first second | replaceNode first second | replaceBody first second
  | addMember first second => [first, second]

/-- The action names nodes that the arena holds. -/
def InRange (act : Action) (a : Arena) : Prop := ∀ id ∈ act.handles, id < a.size

/-- Whether the action gives a method without body a block that the method is part of. -/
def closesCycle (act : Action) (a : Arena) : Bool :=
  match act with
  | replaceBody method block => Edit.closesCycle a method block
  | _ => false

end Action

/-! ## What one action does -/

end JavaEdit.Arena

namespace JavaEdit.Edit

open Arena

variable {a : Arena}

theorem ends_checkNewChildren (seen ids : List NodeId) : Ends (checkNewChildren seen ids) a
      (fun _ b => b = a ∧ ids.Nodup ∧ (∀ id ∈ ids, id ∉ seen) ∧ ∀ id ∈ ids, id < a.size ∧ a.parent id = none)
      (Untouched a) := by
  induction ids generalizing seen with
  | nil => simp [checkNewChildren]
  | cons id rest ih =>
    rw [checkNewChildren]
    simp only [ends_bind, ends_get, ends_ite]
    split
    · simp
    · rename_i inside
      split
      · simp [refuseAttached]
      · rename_i usable
        simp only [Bool.or_eq_true, Bool.not_eq_true', not_or, Bool.not_eq_false, List.contains_iff_mem] at usable
        refine (ih (id :: seen)).mono ?_ fun _ _ same => same
        rintro _ b ⟨same, once, unseen, free⟩
        refine ⟨same, List.nodup_cons.mpr ⟨fun again => unseen id again (.head _), once⟩, ?_, ?_⟩
        · exact List.forall_mem_cons.mpr ⟨usable.2, fun x mem old => unseen x mem (.tail _ old)⟩
        · exact List.forall_mem_cons.mpr ⟨⟨Nat.not_le.mp inside, by simpa [isDetached] using usable.1⟩, free⟩

theorem ends_create (kind : Kind NodeId) : Ends (create kind) a (fun _ b => b = (a.alloc kind .synthetic []).2 ∧
      kind.children.Nodup ∧ ∀ c ∈ kind.children, c < a.size ∧ a.parent c = none) (Untouched a) := by
  refine (ends_checkNewChildren [] kind.children).bind ?_
  rintro _ b ⟨rfl, once, -, free⟩
  exact ⟨rfl, once, free⟩

end JavaEdit.Edit

namespace JavaEdit.Arena

open Relation List

variable {act : Action}

namespace Action

variable {a : Arena}
variable {b : Arena} {checked : Bool}

/-- An action lets the arena grow, adds a node above detached ones, or changes links, one after
the other. -/
inductive Effect (checked : Bool) (a b : Arena) : Prop
  | grown (h : Grown a b)
  | alloc (k : Kind NodeId) (result : b = (a.alloc k .synthetic []).2) (once : k.children.Nodup)
      (free : ∀ c ∈ k.children, c < a.size ∧ a.parent c = none)
  | changed (h : ReflTransGen (Change checked) a b)

theorem effect_of_changes {α : Type} {edit : Edit α}
    (h : Edit.Changes checked edit a) : Effect checked a (edit.on a).2 := by
  refine (Ends.mono h (fun _ _ change => ?_) ?_).state (P := Effect checked a)
  · exact .changed (.single change)
  · rintro _ _ ⟨rfl, -⟩
    exact .changed .refl

theorem effect_of_linked (linked : Linked a) (inRange : act.InRange a)
    (acyclic : checked → Acyclic a) (harmless : checked → act.closesCycle a = false) :
    Effect checked a (act.apply a) := by
  have inside : ∀ id ∈ act.handles, ∀ c ∈ [id], c < a.size := fun id handled c only =>
    mem_singleton.mp only ▸ inRange id handled
  cases act with
  | readUnit file text => exact .grown (grown_readUnit a file text)
  | readExpression text => exact .grown (grown_readExpression a text)
  | readBlock text => exact .grown (grown_readBlock a text)
  | create kind =>
    refine (Ends.mono (Edit.ends_create kind) ?_ ?_).state (P := Effect checked a)
    · rintro _ b ⟨result, once, free⟩
      exact .alloc kind result once free
    · rintro _ _ ⟨rfl, -⟩
      exact .changed .refl
  | copy id => exact .grown (owns_copy (.start a) id).grown
  | importFrom source id => exact .grown (owns_importFrom (.start a) source id).grown
  | setOperator id operator => exact effect_of_changes ((Edit.updates_setOperator id operator).changes linked nofun acyclic)
  | replaceOperator root old new =>
    exact effect_of_changes (Edit.ends_replaceOperator root old new checked)
  | detach id => exact effect_of_changes ((Edit.updates_detach (mem_singleton_self id)).changes linked nofun acyclic)
  | deleteMember container member =>
    exact effect_of_changes ((Edit.updates_deleteMember container member).changes linked nofun acyclic)
  | deleteMethods container name =>
    exact .changed (Edit.ends_deleteMethods linked container name acyclic).state
  | replaceNode old new =>
    exact effect_of_changes ((Edit.updates_replaceNode (.inl (mem_singleton_self old))).changes linked
      (inside new (by simp [handles])) acyclic)
  | replaceBody method block =>
    exact effect_of_changes ((Edit.updates_replaceBody method block harmless).changes linked
      (inside block (by simp [handles])) acyclic)
  | addMember container member =>
    exact effect_of_changes ((Edit.updates_addMember container member).changes linked
      (inside member (by simp [handles])) acyclic)
  | setName id name => exact effect_of_changes ((Edit.updates_setName id name).changes linked nofun acyclic)
  | setModifiers id modifiers =>
    exact effect_of_changes ((Edit.updates_setModifiers id modifiers).changes linked nofun acyclic)
  | addComment id comment =>
    exact .changed (.single (change_modify_comments a id fun cs => cs ++ [comment]))
  | clearComments id => exact .changed (.single (change_modify_comments a id fun _ => []))

theorem effect_apply (linked : Linked a) (acyclic : Acyclic a)
    (inRange : act.InRange a) (checked : Bool) (harmless : checked → act.closesCycle a = false) :
    Effect checked a (act.apply a) :=
  effect_of_linked linked inRange (fun _ => acyclic) harmless

theorem Effect.linked (h : Effect checked a b) (linked : Linked a) : Linked b := by
  cases h with
  | grown h => exact h.linked linked
  | alloc k result once free =>
    rw [result]
    refine linked.alloc _ _ (fun c => ?_) (fun c mem => (free c mem).1) fun c mem => (free c mem).2
    exact nodup_iff_count_le_one.mp once c
  | changed h =>
    induction h with
    | refl => exact linked
    | tail _ change ih => exact change.linked ih

theorem Effect.size_le (h : Effect checked a b) : a.size ≤ b.size := by
  cases h with
  | grown h => exact h.size_le
  | alloc k result =>
    rw [result, size_alloc]
    exact Nat.le_succ _
  | changed changes =>
    induction changes with
    | refl => exact Nat.le_refl _
    | tail _ change ih => exact change.size_eq ▸ ih

theorem Effect.acyclic (h : Effect true a b) (acyclic : Acyclic a) : Acyclic b := by
  cases h with
  | grown h => exact h.acyclic acyclic
  | alloc k result once free =>
    rw [result]
    exact Acyclic.alloc acyclic k .synthetic []
  | changed h =>
    induction h with
    | refl => exact acyclic
    | tail _ change ih => exact change.acyclic ih

end Action

theorem checkIntegrity_of_linked {a : Arena} (linked : Linked a) {root : NodeId} (top : a.parent root = none) :
    (Edit.checkIntegrity root).on a = (.ok (), a) := by
  have noFault : a.linkFault? root = none := by
    refine linkFault?_eq_none_iff.mpr fun p _ => ⟨nodup_iff_count_le_one.mpr (linked.once p), fun c child => ?_⟩
    refine ⟨?_, (linked.parent_iff c p).mpr child⟩
    rintro rfl
    exact linked.not_mem_of_detached top p child
  rw [on_checkIntegrity, noFault]
  rfl

/-! ## Runs -/

instance (act : Action) (a : Arena) : Decidable (act.InRange a) :=
  inferInstanceAs (Decidable (∀ id ∈ act.handles, id < a.size))

/-- The arena behind some actions, one after the other. -/
def perform (a : Arena) (acts : List Action) : Arena := acts.foldl (fun a act => act.apply a) a

/-- Every action names nodes that are there when its turn comes, and none closes a cycle. -/
def Allowed (a : Arena) : List Action → Prop
  | [] => True
  | act :: rest => act.InRange a ∧ act.closesCycle a = false ∧ Allowed (act.apply a) rest

instance decidableAllowed (a : Arena) : (acts : List Action) → Decidable (Allowed a acts)
  | [] => inferInstanceAs (Decidable True)
  | act :: rest =>
    have := decidableAllowed (act.apply a) rest
    inferInstanceAs (Decidable (_ ∧ _ ∧ _))

/-- What a run keeps, from what each action keeps. -/
theorem linked_acyclic_perform {a : Arena} {acts : List Action} (linked : Linked a)
    (acyclic : Acyclic a) (allowed : Allowed a acts) : Linked (a.perform acts) ∧ Acyclic (a.perform acts) := by
  induction acts generalizing a with
  | nil => exact ⟨linked, acyclic⟩
  | cons act rest ih =>
    obtain ⟨inRange, harmless, allowed⟩ := allowed
    have effect := Action.effect_apply linked acyclic inRange true fun _ => harmless
    exact ih (effect.linked linked) (effect.acyclic acyclic) allowed

theorem acyclic_apply_iff {a : Arena} (linked : Linked a) (acyclic : Acyclic a)
    (inRange : act.InRange a) : Acyclic (act.apply a) ↔ act.closesCycle a = false := by
  constructor
  · intro stays
    by_contra closes
    cases act with
    | replaceBody method block =>
      have inside : block < a.size := inRange block (by simp [Action.handles])
      have ends := Edit.ends_replaceBody_of_closesCycle (Bool.not_eq_false _ ▸ closes) inside
      have cyclic : ¬ Acyclic ((Edit.replaceBody method block).on a).2 :=
        (ends.mono (fun _ _ cyclic => cyclic) fun _ _ never => never.elim).state
      exact cyclic stays
    | _ => exact closes rfl
  · intro harmless
    exact (Action.effect_apply linked acyclic inRange true fun _ => harmless).acyclic acyclic

/-- Parent and child links stay inverse to each other: the empty arena is linked, and every action
leaves a linked arena linked, also where it is refused. -/
theorem linked_apply : Linked empty ∧ ∀ (a : Arena) (act : Action), Linked a → Acyclic a → act.InRange a →
      Linked (act.apply a) := by
  refine ⟨linked_empty, fun a act linked acyclic inRange => ?_⟩
  have effect := Action.effect_apply linked acyclic inRange false
    fun no => absurd no (by simp)
  exact effect.linked linked

/-- A method without body, and a block that holds it. -/
def nestedMethod : List Action :=
  [.create (.typeReference "int" [] false 0), .create (.method "m" [] [] [] 0 [] [] none), .create (.block [1])]

/-- Links stay inverse even where a method becomes part of its own body. -/
theorem linked_apply_nestedMethod :
    Allowed empty nestedMethod ∧ Linked ((Action.replaceBody 1 2).apply (empty.perform nestedMethod)) := by
  have allowed : Allowed empty nestedMethod := by decide
  obtain ⟨linked, acyclic⟩ := linked_acyclic_perform linked_empty acyclic_empty allowed
  exact ⟨allowed, linked_apply.2 _ _ linked acyclic (by decide)⟩

/-- No run of actions makes a node its own ancestor as long as no method without body is given a
block that it is part of: the integrity check passes from every detached node on, and following
parents ends. The next action then makes a cycle exactly if it is such a step. -/
theorem acyclic_perform (acts : List Action) (allowed : Allowed empty acts) : Acyclic (empty.perform acts) ∧
    (∀ root, (empty.perform acts).isDetached root = true →
      (Edit.checkIntegrity root).on (empty.perform acts) = (.ok (), empty.perform acts)) ∧
    (∀ x, ∃ n, (empty.perform acts).climb n x = none) ∧
    ∀ act : Action, act.InRange (empty.perform acts) →
      (Acyclic (act.apply (empty.perform acts)) ↔ act.closesCycle (empty.perform acts) = false) := by
  obtain ⟨linked, acyclic⟩ := linked_acyclic_perform linked_empty acyclic_empty allowed
  refine ⟨acyclic, fun root top => ?_, fun x => ⟨_, acyclic.climb_bound linked x⟩,
    fun act inRange => acyclic_apply_iff linked acyclic inRange⟩
  exact checkIntegrity_of_linked linked (by simpa [isDetached] using top)

/-- Giving the method the block that holds it makes a cycle. -/
theorem acyclic_perform_nestedMethod : Allowed empty nestedMethod ∧ Acyclic (empty.perform nestedMethod) ∧
      ¬ Acyclic ((Action.replaceBody 1 2).apply (empty.perform nestedMethod)) := by
  have allowed : Allowed empty nestedMethod := by decide
  obtain ⟨acyclic, -, -, next⟩ := acyclic_perform nestedMethod allowed
  refine ⟨allowed, acyclic, fun stays => ?_⟩
  exact absurd ((next (.replaceBody 1 2) (by decide)).mp stays) (by decide)

end JavaEdit.Arena
