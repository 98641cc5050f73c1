import JavaEdit.Fragment.Graft
import JavaEdit.Proofs.Accepted.Declarations
import JavaEdit.Proofs.Arena.Ancestry
import JavaEdit.Proofs.Layout.Nodes

/-!
# Members that were read

A snippet is read in an arena of its own, so the members it declares belong to a unit of the
grammar, and the copies that are made of them show the same trees. `ends_extract` says what is left
of a snippet: nothing where it is refused, and otherwise new detached nodes below which every method
and constructor has a block as its body.
-/

namespace JavaEdit

open List

namespace Arena

variable {a : Arena} {P : Kind Page → Prop} {id root : NodeId}

/-- What holds of every node of a tree holds of every node of the trees below. -/
theorem TreeAt.every_child (h : a.TreeAt (Tree.Every P) id) : ∀ c ∈ a.children id, a.TreeAt (Tree.Every P) c := by
  intro c child
  obtain ⟨rooted, every⟩ := h
  rw [rooted.commented_eq] at every
  obtain ⟨_, _, below⟩ := rooted
  obtain ⟨_, each⟩ := every
  refine ⟨below c child, each _ ?_⟩
  rw [Kind.children_map]
  exact mem_map_of_mem child

/-- The payload at a node has what every node of the tree below it has. -/
theorem TreeAt.every_kind (h : a.TreeAt (Tree.Every P) id) : P ((a.kind id).map a.commented) := by
  obtain ⟨rooted, every⟩ := h
  rw [rooted.commented_eq] at every
  obtain ⟨here, _⟩ := every
  exact here

theorem TreeAt.every_below {x : NodeId} (h : a.TreeAt (Tree.Every P) root)
    (reached : a.Reaches root x) : a.TreeAt (Tree.Every P) x := by
  induction reached with
  | refl => exact h
  | tail _ child ih => exact ih.every_child _ child

theorem TreeAt.every_reaches {x : NodeId} (h : a.TreeAt (Tree.Every P) root)
    (reached : a.Reaches root x) : P ((a.kind x).map a.commented) :=
  (h.every_below reached).every_kind

/-- A node that was searched for from a root lies below it. -/
theorem reaches_of_findFirst {v : Variant} {name : String} (found : a.findFirst root v name = .ok id) :
    a.Reaches root id ∧ a.variant id = v := by
  unfold findFirst at found
  split at found
  · rename_i here
    cases found
    obtain ⟨visited, accepted⟩ := mem_filter.mp (mem_of_head? here)
    have isVariant : a.variant id = v := by
      simp only [isNamed, Bool.and_eq_true, beq_iff_eq] at accepted
      exact accepted.1
    exact ⟨walk_subset (fun _ reached _ child => Relation.ReflTransGen.tail reached child) _
      (by simpa using Relation.ReflTransGen.refl) _ visited, isVariant⟩
  · cases found

theorem Rooted.commented_mem {c : NodeId} (rooted : a.Rooted id) (child : c ∈ a.children id) :
    a.commented c ∈ (a.commented id).kind.children := by
  rw [rooted.commented_eq, Tree.kind, Kind.children_map]
  exact mem_map_of_mem child

theorem Rooted.variant_commented (rooted : a.Rooted id) : (a.commented id).variant = a.variant id := by
  rw [rooted.commented_eq]
  exact Kind.variant_map ..

/-- What is below the root of a unit is a declaration, or part of something that declares no types. -/
theorem declaration_or_detail_of_reaches (unit : a.TreeAt (IsUnit Made) root) (reached : a.Reaches root id) :
    id = root ∨ a.TreeAt (fun t => (∃ owner, IsDeclaration Made owner t) ∨ t.Every (Detail Made)) id := by
  induction reached with
  | refl => exact .inl rfl
  | @tail p c _ child ih =>
    right
    rcases ih with rfl | ⟨rooted, ⟨owner, isMember⟩ | every⟩
    · exact ⟨unit.1.child child, .inl ⟨none, unit.2.child.2 _ (unit.1.commented_mem child)⟩⟩
    · exact ⟨rooted.child child, isMember.child _ (rooted.commented_mem child)⟩
    · exact (TreeAt.every_child ⟨rooted, every⟩ c child).mono fun _ => .inr

theorem isDeclaration_of_below (unit : a.TreeAt (IsUnit Made) root) (reached : a.Reaches root id)
    (isType : (a.variant id).isType) : a.TreeAt (fun t => ∃ owner, IsDeclaration Made owner t) id := by
  rcases declaration_or_detail_of_reaches unit reached with rfl | ⟨rooted, isMember | every⟩
  · rw [← unit.1.variant_commented, unit.2.child.1] at isType
    cases isType
  · exact ⟨rooted, isMember⟩
  · have detail := (TreeAt.every_kind ⟨rooted, every⟩).notType
    rw [Kind.variant_map] at detail
    exact absurd isType (Bool.eq_false_iff.mp detail)

end Arena

namespace Fragment

open Arena

theorem regular_of_readMembers {before snippet name : String} {v : Variant} {scratch : Arena}
    {members : List NodeId} (read : readMembers before snippet v name = .ok (scratch, members)) :
    scratch.TreesAt (Tree.Every (Regular Made)) members := by
  unfold readMembers at read
  split at read
  · cases read
  · rename_i unit scratch' readUnit
    split at read
    · cases read
    · rename_i type found
      cases read
      intro mem selected
      have whole := (isUnit_of_readUnit readUnit).mono fun _ isUnit => isUnit.every_regular
      have inType := Kind.mem_children_of_mem_members (mem_of_mem_filter selected)
      exact (whole.every_below (reaches_of_findFirst found).1).every_child mem inType

/-- Copies of some nodes are new and detached and show the trees that were copied. -/
theorem importAll_shows (source : Arena) (ids : List NodeId) {base a : Arena} {held : List NodeId}
    (owns : Owns base held a) : Owns base (((importAll source ids).run a).1 ++ held) ((importAll source ids).run a).2 ∧
      Extends a ((importAll source ids).run a).2 ∧
      ShowsAll ((importAll source ids).run a).2 ((importAll source ids).run a).1 (ids.map source.commented) := by
  induction ids generalizing held a with
  | nil => exact ⟨owns, .refl a, .nil a⟩
  | cons id rest ih =>
    have planted := planted_plant (source.commented id) a
    obtain ⟨owned, grown, shown⟩ := ih (owns_importFrom owns source id)
    refine ⟨owned.sub fun x => ?_, planted.grown.trans grown, ?_⟩
    · exact (perm_middle.count_eq x).ge
    · have first := planted.shown.extends grown
      exact .cons ⟨first.1 _ (.head _), singleton_inj.mp first.2⟩ shown

theorem ends_extract (type : NodeId) (snippet : String) (a : Arena) : Ends (extract type snippet) a
      (fun ids b => Owns a ids b ∧ b.TreesAt (Tree.Every (Regular Made)) ids) fun _ b => b = a := by
  unfold extract
  simp only [ends_bind, ends_get, ends_ite]
  split
  · simp [Graft.ofEdit, Edit.refuseVariant]
  · split
    · rfl
    · rename_i scratch members read
      have trees := regular_of_readMembers read
      obtain ⟨owns, -, rooted, shown⟩ := importAll_shows scratch members (Owns.start a)
      rw [append_nil] at owns
      refine ends_monadLift.mpr ⟨owns, fun id mem => ⟨rooted id mem, ?_⟩⟩
      have same := mem_map_of_mem (f := ((importAll scratch members).run a).2.commented) mem
      rw [shown] at same
      obtain ⟨origin, inside, eq⟩ := mem_map.mp same
      exact eq ▸ (trees origin inside).2

end Fragment

end JavaEdit
