import JavaEdit.Proofs.Arena.Actions
import JavaEdit.Proofs.Node.Children

/-!
# Deleting members

Deleting a member is taking out a child of a class or interface: whatever slot it stands in, it is
taken out of that slot and nothing else is touched. So a superclass, an interface, a type parameter
or an annotation can be deleted as a member, which leaves the members as they are.
-/

namespace JavaEdit

open Arena Edit

section Kind

variable {α : Type} [BEq α] [LawfulBEq α] {child : α} {k k' : Kind α}

/-- A child of a class or interface can be taken out, wherever it stands. -/
theorem Kind.exists_without? (type : k.variant.isType) (held : child ∈ k.children) :
    ∃ k', k.without? child = some k' := by
  refine Option.ne_none_iff_exists'.mp fun stays => ?_
  rcases mem_keep_of_without? held stays with left | ⟨n, ms, b, rfl⟩
  · cases k with
    | classDecl | interfaceDecl => simp [keep, children] at left
    | _ => cases type
  · cases type

/-- Taking out another child than a member leaves the members. -/
theorem Kind.members_of_without? (once : k.children.count child ≤ 1) (notMember : child ∉ k.members)
    (taken : k.without? child = some k') :
    k'.members = k.members ∧ k'.simpleName? = k.simpleName? ∧ k'.modifiers? = k.modifiers? := by
  obtain rfl := without?_filters once k' taken
  cases k with
  | classDecl | interfaceDecl => exact ⟨filter_list (List.count_eq_zero.mpr notMember), rfl, rfl⟩
  | _ => exact ⟨rfl, rfl, rfl⟩

end Kind

namespace Edit

variable {a : Arena} {container m : NodeId}

/-- A child in a slot that may lose it is taken out. -/
theorem ends_detach_without {p id : NodeId} {k : Kind NodeId} (up : a.parent id = some p)
    (taken : (a.kind p).without? id = some k) :
    Ends (detach id) a (fun done b => done ∧ b = (a.setKind p k).setParent id none) fun _ _ => False := by
  have removed : (a.kind p).removeChild id = .removed k := by rw [Kind.removeChild, taken]
  unfold detach
  simp only [ends_bind, ends_get, up, removed, ends_set, ends_pure, and_self]

/-- On a class or interface a child is taken out, whatever slot it stands in, and nothing else is. -/
theorem ends_deleteMember_of_isType (linked : Linked a) (type : (a.variant container).isType) :
    Ends (deleteMember container m) a
      (fun removed b => (removed ↔ m ∈ a.children container) ∧ (removed →
        ∃ k, (a.kind container).without? m = some k ∧ b = (a.setKind container k).setParent m none))
      fun _ _ => m ∉ a.children container := by
  unfold deleteMember
  simp only [ends_bind, ends_get, type, Bool.not_true, Bool.false_eq_true, if_false]
  split
  · rename_i top
    refine ⟨iff_of_false Bool.false_ne_true fun held => ?_, fun removed => absurd removed Bool.false_ne_true⟩
    rw [(linked.parent_iff m container).mpr held] at top
    cases top
  · rename_i parent up
    simp only [ends_ite]
    split
    · rename_i same
      obtain rfl := beq_iff_eq.mp same
      have held := (linked.parent_iff m parent).mp up
      obtain ⟨k, taken⟩ := Kind.exists_without? type held
      exact (ends_detach_without up taken).mono
        (fun _ _ same => ⟨iff_of_true same.1 held, fun _ => ⟨k, taken, same.2⟩⟩) fun _ _ => False.elim
    · rename_i other
      intro held
      rw [(linked.parent_iff m container).mpr held] at up
      exact other (beq_iff_eq.mpr (Option.some.inj up).symm)

end Edit

/-- Deleting a member takes out any child of a class or interface, and takes it out of its own slot only. -/
theorem Edit.deleteMember_takes_out_any_child {a : Arena} (linked : Linked a) (acyclic : Acyclic a)
    {container m : NodeId} (type : (a.variant container).isType = true) :
    (((deleteMember container m).on a).1 = .ok true ↔ m ∈ a.children container) ∧
    ∀ b, (deleteMember container m).on a = (.ok true, b) →
      b.node m = { a.node m with parent := none } ∧
      b.node container = { a.node container with kind := b.kind container } ∧
      (∀ id, id ≠ container → id ≠ m → b.node id = a.node id) ∧
      (m ∈ a.members container → (a.kind container).mapMembers? (·.erase m) = some (b.kind container)) ∧
      (m ∉ a.members container → b.members container = a.members container ∧
        b.simpleName? container = a.simpleName? container ∧
        (b.kind container).modifiers? = (a.kind container).modifiers? ∧
        ∀ x, (a.children container).count x = (b.children container).count x + if m == x then 1 else 0) := by
  have ends := ends_deleteMember_of_isType (m := m) linked type
  unfold Ends at ends
  cases run : (deleteMember container m).on a with
  | mk outcome b =>
    rw [show (deleteMember container m).run.run a = (outcome, b) from run] at ends
    cases outcome with
    | error e => exact ⟨iff_of_false nofun ends, nofun⟩
    | ok removed =>
      refine ⟨Iff.trans ⟨Except.ok.inj, congrArg _⟩ ends.1, ?_⟩
      rintro b ⟨⟩
      obtain ⟨k, taken, rfl⟩ := ends.2 rfl
      have held := ends.1.mp rfl
      have apart : m ≠ container := by
        rintro rfl
        exact acyclic m (.single ((linked.parent_iff m m).mpr held))
      have kind : ((a.setKind container k).setParent m none).kind container = k := by
        rw [kind_setParent, kind_setKind, if_pos ⟨rfl, Linked.parent_lt held⟩]
      refine ⟨?_, ?_, fun id notContainer notMember => ?_, fun member => ?_, fun other => ?_⟩
      · rw [setParent, node_modify, if_pos ⟨rfl, by simpa using linked.child_lt held⟩, setKind, node_modify,
          if_neg fun both => apart both.1]
      · rw [kind, setParent, node_modify, if_neg fun both => apart both.1.symm, setKind, node_modify,
          if_pos ⟨rfl, Linked.parent_lt held⟩]
      · rw [setParent, node_modify, if_neg fun both => notMember both.1, setKind, node_modify,
          if_neg fun both => notContainer both.1]
      · rw [kind, ← taken]
        exact (Kind.without?_member member (linked.once container m)).symm
      · obtain ⟨members, name, modifiers⟩ := Kind.members_of_without? (linked.once container m) other taken
        unfold Arena.members Arena.simpleName? Arena.children
        rw [kind]
        exact ⟨members, name, modifiers, Kind.without?_count taken⟩

/-- The class `A`, which extends `B` and has no members. -/
def subclass : List Action :=
  [.create (.typeReference "B" [] false 0), .create (.classDecl "A" [] [] [] (some 0) [] [])]

theorem Edit.deleteMember_takes_out_superclass : ((deleteMember 1 0).on (empty.perform subclass)).1 = .ok true := by
  have allowed : Allowed empty subclass := by decide
  obtain ⟨linked, acyclic⟩ := linked_acyclic_perform linked_empty acyclic_empty allowed
  exact (deleteMember_takes_out_any_child linked acyclic (by decide)).1.mpr (by decide)

/-- What is deleted as a member need not be one. -/
theorem Edit.deleteMember_not_only_members : ¬ ∀ a container m, Linked a → Acyclic a →
    ((deleteMember container m).on a).1 = .ok true → m ∈ a.members container := by
  intro all
  have allowed : Allowed empty subclass := by decide
  obtain ⟨linked, acyclic⟩ := linked_acyclic_perform linked_empty acyclic_empty allowed
  exact absurd (all _ 1 0 linked acyclic (by decide)) (by decide)

end JavaEdit
