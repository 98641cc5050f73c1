import JavaEdit.Proofs.Fragment.Grafts

/-!
# Where grafts work

The nodes that adding members and replacing bodies may change are those that are linked with the
type they are made to: all nodes that are apart from it stay (`stays_addMissingCode`,
`stays_replaceMethodBody`). And what is reported as done has left a trace: exchanged operators
stand in their expressions (`kind_sweep`), deleted methods have no parent (`ends_deleteMethods_trace`),
added members stand behind the others (`members_addAll`), and a method whose body was replaced holds
another one (`ends_replaceMethodBody_trace`).
-/

namespace JavaEdit

open List

variable {changes : List NodeId} {method : NodeId}

/-! ## Nodes that stay -/

namespace Fragment

open Arena Edit

variable {S : NodeId → Prop} {a : Arena} {type : NodeId}

theorem stays_addMissingCode (apart : Apart S a) (above : S type) (snippet : String) :
    Ends (addMissingCode type snippet) a (fun _ b => Framed S a b) fun _ b => Framed S a b := by
  refine ends_addMissingCode (.refl apart) fun _ b owns => ?_
  refine holds_addAll (owns.grown.framed apart) type false (fun c mem b' framed => ?_) {}
  have new : S c := apart.start c (owns.fresh c mem).1
  exact framed.trans ((updates_addMember type c).stays framed.apart (by simpa using ⟨above, new⟩) (by simpa using new)).state

theorem stays_replaceOne (apart : Apart S a) {change : NodeId} (above : S method) (new : S change) (r : Report) :
    Ends (replaceOne method change r) a (fun _ b => Framed S a b) fun _ b => Framed S a b := by
  refine ends_replaceOne _ (fun _ _ _ => .refl apart) fun _ body found => ?_
  have inside : S body := apart.children change new body (Kind.mem_children_of_body? found)
  have only : ∀ id ∈ [body], S id := by simpa using inside
  refine ((updates_detach (mem_singleton_self body)).stays apart only nofun).imp fun _ b first => ?_
  exact ((updates_replaceBody_unchecked method body).stays first.apart (by simpa using ⟨above, inside⟩) only).mono
    (fun _ _ => first.trans) fun _ _ => first.trans

theorem stays_replaceMethodBody (apart : Apart S a) (above : S type) (name body : String) :
    Ends (replaceMethodBody type name body) a (fun _ b => Framed S a b) fun _ b => Framed S a b := by
  refine ends_replaceMethodBody _ (.refl apart) fun method found _ _ b owns _ => ?_
  have inside : S method := apart.children type above method
    (Kind.mem_children_of_mem_members (mem_of_find?_eq_some found))
  refine holds_replaceAll (owns.grown.framed apart) (fun c read b' r framed => ?_) {}
  have new : S c := apart.start c (owns.fresh c read).1
  exact (stays_replaceOne framed.apart inside new r).mono (fun _ _ => framed.trans) fun _ _ => framed.trans

end Fragment

/-! ## Exchanged operators and deleted methods -/

namespace Edit

open Arena

variable {a : Arena}

/-- A sweep gives the expressions that it is made to the new operator, and no others. -/
theorem kind_sweep (op : BinaryOperator) (ids : List NodeId) {id left right : NodeId}
    {old : BinaryOperator} (binary : a.kind id = .binary old left right) :
    (sweep op ids a).kind id = .binary (if id ∈ ids then op else old) left right := by
  induction ids generalizing a old with
  | nil => simpa [sweep] using binary
  | cons first rest ih =>
    have inside : id < a.size := lt_of_variant_ne (by simp [variant, binary, Kind.variant])
    rw [sweep]
    by_cases here : id = first
    · subst here
      have now : (a.setKind id (.binary op left right)).kind id = .binary op left right := by
        rw [kind_setKind, if_pos ⟨rfl, inside⟩]
      simpa [binary] using ih now
    · have member : id ∈ first :: rest ↔ id ∈ rest := by simp [here]
      simp only [member]
      split
      · refine ih ?_
        rw [kind_setKind, if_neg fun both => here both.1]
        exact binary
      · exact ih binary

theorem ends_detach_trace (id : NodeId) :
    Ends (detach id) a (fun _ b => b.parent id = none ∧ ∀ x, a.parent x = none → b.parent x = none)
      fun _ _ => True := by
  unfold detach
  simp only [ends_bind, ends_get]
  split
  · rename_i free
    exact ⟨free, fun _ free => free⟩
  · rename_i parent up
    have inside : id < a.size := by
      by_contra outside
      rw [parent_of_le (Nat.le_of_not_lt outside)] at up
      cases up
    split
    · simp only [ends_bind, ends_set, ends_pure, parent_setParent, parent_setKind, size_setKind]
      refine ⟨if_pos ⟨trivial, inside⟩, fun x free => ?_⟩
      split
      · rfl
      · exact free
    · trivial
    · trivial

theorem ends_deleteMember_trace (container member : NodeId) : Ends (deleteMember container member) a
      (fun _ b => b.parent member = none ∧ ∀ x, a.parent x = none → b.parent x = none) fun _ _ => True := by
  unfold deleteMember
  simp only [ends_bind, ends_get, ends_ite]
  split
  · simp [refuseVariant]
  · split
    · rename_i free
      exact ⟨free, fun _ free => free⟩
    · simp only [ends_ite, ends_throw]
      split
      · exact ends_detach_trace member
      · trivial

theorem ends_deleteMembers_trace (container : NodeId) (members : List NodeId) : Ends (deleteMembers container members) a
      (fun _ b => (∀ m ∈ members, b.parent m = none) ∧ ∀ x, a.parent x = none → b.parent x = none) fun _ _ => True := by
  induction members generalizing a with
  | nil => exact ⟨nofun, fun _ free => free⟩
  | cons member rest ih =>
    rw [deleteMembers]
    refine (ends_deleteMember_trace container member).bind ?_
    rintro _ b ⟨gone, free⟩
    refine ih.imp ?_
    rintro _ c ⟨others, free'⟩
    refine ⟨forall_mem_cons.mpr ⟨free' member gone, others⟩, fun x here => free' x (free x here)⟩

theorem ends_deleteMethods_trace (container : NodeId) (name : String) : Ends (deleteMethods container name) a
      (fun n b => 0 < n → ∃ m ∈ a.members container, b.parent m = none) fun _ _ => True := by
  unfold deleteMethods
  simp only [ends_bind, ends_get, ends_pure]
  refine (ends_deleteMembers_trace container _).imp ?_
  rintro _ b ⟨gone, -⟩ some
  obtain ⟨m, doomed⟩ := exists_mem_of_length_pos some
  exact ⟨m, mem_of_mem_filter doomed, gone m doomed⟩

/-! ## Added members and other bodies -/

theorem ends_addMember_trace (container member : NodeId) :
    Ends (addMember container member) a (fun _ b => b.members container = a.members container ++ [member])
      fun _ b => b = a := by
  unfold addMember
  simp only [ends_bind, ends_get, ends_ite]
  split
  · rfl
  · split
    · simp [refuseAttached]
    · split
      · simp [refuseCycle]
      · split
        · rename_i kind made
          have inside : container < a.size := by
            by_contra outside
            rw [kind_of_le (Nat.le_of_not_lt outside)] at made
            cases made
          simp only [ends_set, Arena.members, kind_setParent, kind_setKind, inside, and_self, if_true]
          exact Kind.members_of_mapMembers? made
        · simp [refuseVariant]

end Edit

namespace Fragment

open Arena Edit

variable {a : Arena}

theorem members_addOne (a : Arena) (type change : NodeId) (r : Report) :
    ∃ new, ((addOne type change r).run a).1.added = r.added ++ new ∧
      ((addOne type change r).run a).2.members type = a.members type ++ new := by
  have trace := ends_addMember_trace (a := a) type change
  unfold Ends at trace
  rw [run_addOne]
  split
  · split <;> rename_i run <;> rw [run] at trace
    · exact ⟨[change], rfl, trace⟩
    · exact ⟨[], (append_nil _).symm, by rw [trace, append_nil]⟩
  · exact ⟨[], (append_nil _).symm, (append_nil _).symm⟩

theorem members_addAll (a : Arena) (type : NodeId) (again : Bool) (changes : List NodeId) (r : Report) :
    ∃ new, ((addAll type again changes r).run a).1.added = r.added ++ new ∧
      ((addAll type again changes r).run a).2.members type = a.members type ++ new := by
  induction changes generalizing a r with
  | nil => exact ⟨[], (append_nil _).symm, (append_nil _).symm⟩
  | cons change rest ih =>
    rw [run_addAll]
    split
    · exact ih a { r with present := _ }
    · obtain ⟨first, report, members⟩ := members_addOne a type change r
      obtain ⟨others, report', members'⟩ := ih ((addOne type change r).run a).2 ((addOne type change r).run a).1
      exact ⟨first ++ others, by rw [report', report, append_assoc], by rw [members', members, append_assoc]⟩

theorem ends_addMissingCode_trace (type : NodeId) (inside : type < a.size) (snippet : String) :
    Ends (addMissingCode type snippet) a
      (fun r b => 0 < r.added.length → b.members type ≠ a.members type) fun _ _ => True := by
  refine ends_addMissingCode trivial fun changes b owns => ?_
  obtain ⟨new, report, members⟩ := members_addAll b type false changes {}
  intro some same
  have before : b.members type = a.members type := by
    unfold Arena.members Arena.kind
    rw [owns.grown.node_eq inside]
  rw [members, before, append_right_eq_self] at same
  rw [report, same] at some
  exact absurd some (Nat.lt_irrefl 0)

theorem ends_replaceMethodBody_trace (linked : Linked a) (type : NodeId) (name body : String) :
    Ends (replaceMethodBody type name body) a
      (fun r b => 0 < r.replaced.length → ∃ m ∈ a.members type, b.kind m ≠ a.kind m) fun _ _ => True := by
  refine ends_replaceMethodBody (fun _ => True) trivial fun method found callable changes b owns regular => ?_
  have mem := mem_of_find?_eq_some found
  have inside : method < a.size := linked.child_lt (Kind.mem_children_of_mem_members mem)
  rcases callable with isMethod | isConstructor
  · refine (ends_replaceAll_method (waiting_of_owns linked inside isMethod owns regular) {}).mono ?_
      fun _ _ _ => trivial
    intro r c settled some
    rcases settled.body with ⟨report, -⟩ | ⟨body, new, held⟩
    · rw [report] at some
      exact absurd some (Nat.lt_irrefl 0)
    · refine ⟨method, mem, fun same => ?_⟩
      rw [same] at held
      exact absurd (linked.child_lt (Kind.mem_children_of_body? held)) (Nat.not_lt.mpr new)
  · have same := (variant_eq_of_owns owns inside).trans isConstructor
    refine (ends_replaceAll_constructor (owns.grown.linked linked) same changes {}).mono ?_ fun _ _ _ => trivial
    rintro r c ⟨-, report⟩ some
    rw [report] at some
    exact absurd some (Nat.lt_irrefl 0)

end Fragment

end JavaEdit
