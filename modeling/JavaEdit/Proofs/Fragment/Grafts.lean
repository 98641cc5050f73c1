import JavaEdit.Proofs.Arena.Deletions
import JavaEdit.Proofs.Fragment.Members

/-!
# Grafts

What adding members, replacing bodies and deleting methods do to an arena, besides what they are
for. They keep it linked, whether or not they fail (`follows_addMissingCode`,
`follows_replaceMethodBody`): what each step keeps, a run keeps (`holds_addAll`, `holds_replaceAll`). Deleting
methods never fails, because members stand in a slot that may lose them. Replacing the body of a
method never fails either: the body that was read can be taken out of its method, and nothing that
was read lies above the method it is put into (`ends_replaceAll_method`). The body of a constructor
cannot be taken out, so for a constructor a run stops before anything is changed
(`ends_replaceAll_constructor`).
-/

namespace JavaEdit.Edit

open Arena List

variable {a : Arena}

theorem ends_replaceNode_of_apart {old new p : NodeId} (free : a.isDetached new)
    (up : a.parent old = some p) (held : old ∈ a.children p) (apart : a.isWithin p new = false) :
    Ends (replaceNode old new) a (fun _ b => b =
      ((a.setKind p ((a.kind p).replaceChild old new)).setParent new (some p)).setParent old none)
      fun _ _ => False := by
  unfold replaceNode
  simp [free, up, apart, held]

theorem ends_deleteMember_of_mem (linked : Linked a) {container member : NodeId} (here : member ∈ a.members container) :
    Ends (deleteMember container member) a
      (fun _ b => Linked b ∧ ∀ x ∈ a.members container, x ≠ member → x ∈ b.members container) fun _ _ => False := by
  have child : member ∈ a.children container := Kind.mem_children_of_mem_members here
  have type : (a.variant container).isType := Kind.isType_of_mem_members here
  obtain ⟨k, mapped, members, -⟩ := Kind.mapMembers?_spec (f := (·.erase member)) type
  have taken := (Kind.without?_member here (linked.once container member)).trans mapped
  refine ((ends_deleteMember_of_isType linked type).and
    ((updates_deleteMember container member).unchecked linked nofun)).mono ?_ fun _ _ failed => failed.1 child
  rintro _ b ⟨⟨removed, made⟩, change⟩
  obtain ⟨k', taken', rfl⟩ := made (removed.mpr child)
  obtain rfl : k = k' := Option.some.inj (taken.symm.trans taken')
  refine ⟨change.linked linked, fun x other differ => ?_⟩
  have kept : x ∈ k.members := by
    rw [members]
    exact (mem_erase_of_ne differ).mpr other
  simpa [Arena.members, kind_setKind, Linked.parent_lt child] using kept

theorem ends_deleteMembers_of_mem (linked : Linked a) {container : NodeId} {members : List NodeId}
    (once : members.Nodup) (here : ∀ m ∈ members, m ∈ a.members container) :
    Ends (deleteMembers container members) a (fun _ _ => True) fun _ _ => False := by
  induction members generalizing a with
  | nil => exact trivial
  | cons member rest ih =>
    obtain ⟨notAgain, once⟩ := nodup_cons.mp once
    refine (ends_deleteMember_of_mem linked (here member (.head _))).bind ?_
    rintro _ b ⟨linked', others⟩
    refine ih linked' once fun m inRest => others m (here m (.tail _ inRest)) ?_
    rintro rfl
    exact notAgain inRest

theorem ends_deleteMethods_of_linked (linked : Linked a) (container : NodeId) (name : String) :
    Ends (deleteMethods container name) a (fun _ _ => True) fun _ _ => False := by
  have once : (a.members container).Nodup := by
    have children : (a.children container).Nodup := nodup_iff_count_le_one.mpr (linked.once container)
    refine List.Nodup.sublist ?_ children
    exact Kind.members_sublist _
  unfold deleteMethods
  simp only [ends_bind, ends_get, ends_pure]
  exact ends_deleteMembers_of_mem linked (once.filter _) fun m mem => mem_of_mem_filter mem

end JavaEdit.Edit

/-- How many declarations a report speaks of. -/
def JavaEdit.Report.entries (r : JavaEdit.Report) : Nat :=
  r.added.length + r.replaced.length + r.present.length + r.skipped.length

namespace JavaEdit.Fragment

open Arena Edit List

variable {a : Arena}
variable {b : Arena} {changes : List NodeId} {n : Nat}

/-! ## Links -/

/-- The arena is linked and has `n` nodes. -/
structure LinkedOf (n : Nat) (a : Arena) : Prop where
  linked : Linked a
  size : a.size = n

theorem LinkedOf.change (h : LinkedOf n a) (change : Change false a b) : LinkedOf n b :=
  ⟨change.linked h.linked, change.size_eq.trans h.size⟩

theorem linkedOf_of_changes {α : Type} {edit : Edit α} (h : LinkedOf n a) (changes : Changes false edit a) :
    Ends edit a (fun _ b => LinkedOf n b) fun _ b => LinkedOf n b := by
  refine changes.mono (fun _ b change => h.change change) ?_
  rintro _ b ⟨rfl, -⟩
  exact h

/-- A declaration is added if that is possible, and left out if not. -/
theorem run_addOne (a : Arena) (type change : NodeId) (r : Report) : (addOne type change r).run a =
      if a.variant change == .field || a.variant change == .method then
        match (addMember type change).run.run a with
        | (.ok _, b) => ({ r with added := r.added ++ [change] }, b)
        | (.error e, b) => (r.skip b change (.refused e), b)
      else (r.skip a change (.unknownChange (a.variant change)), a) := by
  unfold addOne
  simp only [StateT.run_bind, StateT.run_get, pure_bind]
  split
  · rw [StateT.run_bind]
    cases (addMember type change).run.run a with
    | mk outcome b => cases outcome <;> rfl
  · rfl

/-- Each declaration is left out because it is there already, or added before the others. -/
theorem run_addAll (a : Arena) (type : NodeId) (again : Bool) (change : NodeId) (rest : List NodeId) (r : Report) :
    (addAll type again (change :: rest) r).run a =
      match if again then none else existing? a type change with
      | some member => (addAll type again rest { r with present := r.present ++ [member] }).run a
      | none =>
        (addAll type again rest ((addOne type change r).run a).1).run ((addOne type change r).run a).2 := by
  rw [addAll, StateT.run_bind, StateT.run_get, pure_bind]
  generalize (if again = true then none else existing? a type change) = found
  cases found with
  | some member => rfl
  | none =>
    rfl

theorem holds_addAll {P : Arena → Prop} (h : P a) (type : NodeId) (again : Bool)
    (step : ∀ c ∈ changes, ∀ b, P b → P ((addMember type c).run.run b).2) (r : Report) :
    P ((addAll type again changes r).run a).2 := by
  induction changes generalizing a r with
  | nil => exact h
  | cons change rest ih =>
    obtain ⟨first, others⟩ := forall_mem_cons.mp step
    rw [run_addAll]
    split
    · exact ih h others _
    · refine ih ?_ others _
      have added := first a h
      rw [run_addOne]
      split
      · split <;> rename_i run <;> rwa [run] at added
      · exact h

section Replacing

variable {method : NodeId}

/-- A declaration that was read is left out, or its body is taken out of it and put into the method. -/
theorem ends_replaceOne {change : NodeId} {r : Report} {good : Report → Arena → Prop} (bad : Arena → Prop)
    (skipped : ∀ r' : Report, r'.replaced = r.replaced → r'.entries = r.entries + 1 → good r' a)
    (moved : a.variant change = a.variant method → ∀ body, (a.kind change).body? = some body →
      Ends (detach body) a (fun _ b => Ends (replaceBody method body) b
        (fun _ c => good { r with replaced := r.replaced ++ [method] } c) fun _ c => bad c) fun _ b => bad b) :
    Ends (replaceOne method change r) a good fun _ b => bad b := by
  have left : ∀ reason, good (r.skip a change reason) a := fun reason =>
    skipped _ rfl (by simp [Report.entries, Report.skip, Nat.add_assoc])
  unfold replaceOne
  simp only [ends_bind, ends_get, ends_ite, ends_pure]
  split
  · exact left _
  · rename_i same
    split
    · exact left _
    · rename_i body found
      simp only [ends_ite, ends_bind, ends_pure, Graft.ofEdit, ends_adapt]
      split
      · exact skipped _ rfl (by simp [Report.entries]; lia)
      · exact moved (by simpa using same) body found

/-- What every replacement of a body keeps. -/
theorem holds_replaceAll {P : Arena → Prop} (h : P a)
    (step : ∀ c ∈ changes, ∀ b r, P b → Ends (replaceOne method c r) b (fun _ b' => P b') fun _ b' => P b')
    (r : Report) : Ends (replaceAll method changes r) a (fun _ b => P b) fun _ b => P b := by
  induction changes generalizing a r with
  | nil => exact h
  | cons change rest ih =>
    obtain ⟨first, others⟩ := forall_mem_cons.mp step
    rw [replaceAll, ends_bind]
    exact (first a r h).imp fun r' b h' => ih h' others r'

theorem linkedOf_replaceAll (h : LinkedOf n a) (changes : List NodeId) (r : Report) :
    Ends (replaceAll method changes r) a (fun _ b => LinkedOf n b) fun _ b => LinkedOf n b := by
  refine holds_replaceAll h (fun _ _ a r h => ends_replaceOne _ (fun _ _ _ => h) fun _ body found => ?_) r
  refine (linkedOf_of_changes h ((updates_detach (mem_singleton_self body)).unchecked h.linked nofun)).imp fun _ b h' => ?_
  have inside : body < n := h.size ▸ h.linked.child_lt (Kind.mem_children_of_body? found)
  have there : ∀ c ∈ [body], c < b.size := by simpa [h'.size] using inside
  exact (linkedOf_of_changes h' ((updates_replaceBody_unchecked method body).unchecked h'.linked there)).imp
    fun _ _ kept => kept

end Replacing

section Reading

variable {type : NodeId} {good : Report → Arena → Prop}

theorem ends_addMissingCode {bad : Arena → Prop} {snippet : String} (refused : bad a) (added : ∀ changes b, Owns a changes b →
      good ((addAll type false changes {}).run b).1 ((addAll type false changes {}).run b).2) :
    Ends (addMissingCode type snippet) a good fun _ b => bad b := by
  unfold addMissingCode
  rw [ends_bind]
  refine (ends_extract type snippet a).mono (fun changes b read => ends_monadLift.mpr (added changes b read.1)) ?_
  rintro _ b rfl
  exact refused

theorem ends_replaceMethodBody (bad : Arena → Prop) {name body : String} (refused : bad a)
    (replaced : ∀ method, (a.members type).find? (isCallable a name) = some method →
      a.variant method = .method ∨ a.variant method = .constructor → ∀ changes b, Owns a changes b → b.TreesAt (Tree.Every (Regular Made)) changes →
        Ends (replaceAll method changes {}) b good fun _ c => bad c) :
    Ends (replaceMethodBody type name body) a good fun _ b => bad b := by
  unfold replaceMethodBody
  rw [ends_bind, ends_get]
  split
  · exact refused
  · rename_i method found
    have callable := find?_some found
    simp only [isCallable, Bool.and_eq_true, Bool.or_eq_true, beq_iff_eq] at callable
    rw [ends_bind]
    refine (ends_extract type _ a).mono (fun changes b read => ?_) ?_
    · exact replaced method found callable.1 changes b read.1 read.2
    · rintro _ b rfl
      exact refused

end Reading

/-- The arena is linked and has no fewer nodes than `a`. -/
def Follows (a b : Arena) : Prop := Linked b ∧ a.size ≤ b.size

theorem LinkedOf.follows {c : Arena} (h : LinkedOf b.size c) (size_le : a.size ≤ b.size) : Follows a c :=
  ⟨h.linked, h.size ▸ size_le⟩

theorem follows_addMissingCode (linked : Linked a) (type : NodeId) (snippet : String) :
    Ends (addMissingCode type snippet) a (fun _ b => Follows a b) fun _ b => Follows a b := by
  refine ends_addMissingCode ⟨linked, Nat.le_refl _⟩ fun _ b owns => ?_
  have h : LinkedOf b.size b := ⟨owns.grown.linked linked, rfl⟩
  refine LinkedOf.follows (holds_addAll h type false (fun c mem b' h' => ?_) {}) owns.grown.size_le
  have inside : c < b'.size := h'.size ▸ (owns.fresh c mem).2.1
  exact (linkedOf_of_changes h' ((updates_addMember type c).unchecked h'.linked (by simpa using inside))).state

theorem follows_replaceMethodBody (linked : Linked a) (type : NodeId) (name body : String) :
    Ends (replaceMethodBody type name body) a (fun _ b => Follows a b) fun _ b => Follows a b := by
  refine ends_replaceMethodBody _ ⟨linked, Nat.le_refl _⟩ fun _ _ _ changes b owns _ => ?_
  have h : LinkedOf b.size b := ⟨owns.grown.linked linked, rfl⟩
  exact (linkedOf_replaceAll h changes {}).mono (fun _ c kept => kept.follows owns.grown.size_le)
    fun _ c kept => kept.follows owns.grown.size_le

/-! ## Constructors -/

theorem ends_replaceOne_constructor (linked : Linked a) {method : NodeId}
    (isConstructor : a.variant method = .constructor) (change : NodeId) (r : Report) :
    Ends (replaceOne method change r) a (fun r' b => b = a ∧ r'.replaced = r.replaced) fun _ b => b = a := by
  refine ends_replaceOne _ (fun _ same _ => ⟨rfl, same⟩) fun same body found => ?_
  have child : body ∈ a.children change := Kind.mem_children_of_body? found
  have up : a.parent body = some change := (linked.parent_iff _ _).mpr child
  have variant : a.variant change = .constructor := same.trans isConstructor
  have once := linked.once change body
  have required : (a.kind change).removeChild body = .required := by
    unfold Arena.variant at variant
    unfold Arena.children at once child
    rw [Kind.removeChild]
    generalize a.kind change = k at *
    cases k with
    | constructor =>
      obtain rfl := Option.some_inj.mp found
      rw [Kind.without?_constructor once]
      simp [child]
    | _ => cases variant
  unfold detach
  simp [up, required]

theorem ends_replaceAll_constructor (linked : Linked a) {method : NodeId}
    (isConstructor : a.variant method = .constructor) (changes : List NodeId) (r : Report) :
    Ends (replaceAll method changes r) a (fun r' b => b = a ∧ r'.replaced = r.replaced) fun _ b => b = a := by
  induction changes generalizing r with
  | nil => exact ⟨rfl, rfl⟩
  | cons change rest ih =>
    refine (ends_replaceOne_constructor linked isConstructor change r).bind ?_
    rintro r' b ⟨rfl, report⟩
    exact (ih r').imp fun _ _ later => ⟨later.1, later.2.trans report⟩

/-! ## Methods -/

/-- Only one node has another payload; others may have other parents. -/
structure ChangedAt (id : NodeId) (a b : Arena) : Prop where
  size : b.size = a.size
  kind : ∀ x, x ≠ id → b.kind x = a.kind x
  comments : ∀ x, b.comments x = a.comments x

/-- Some methods that were read wait for their bodies to be put into `method`. What was there before
has an index below `n`, and nothing of it lies below what was read. -/
structure Waiting (n : Nat) (method : NodeId) (changes : List NodeId) (a : Arena) : Prop where
  linked : Linked a
  old : method < n
  isMethod : a.variant method = .method
  above : ∀ x, x < n → ∀ p, a.parent x = some p → p < n
  once : changes.Nodup
  new : ∀ c ∈ changes, n ≤ c
  bodies : ∀ c ∈ changes, a.variant c = .method → ∀ b ∈ (a.kind c).body?, n ≤ b ∧ a.variant b = .block

section Waiting

variable {n : Nat} {method : NodeId} {changes : List NodeId}
variable {rest : List NodeId}

theorem Waiting.change (h : Waiting n method changes a)
    (linked : Linked b) (fewer : rest.Sublist changes) (variant : ∀ x, b.variant x = a.variant x)
    (kind : ∀ c ∈ rest, b.kind c = a.kind c) (parent : ∀ x, x < n → b.parent x = a.parent x ∨ b.parent x = none) :
    Waiting n method rest b where
  linked := linked
  old := h.old
  isMethod := (variant method).trans h.isMethod
  above x before p up := by
    rcases parent x before with same | gone
    · exact h.above x before p (same ▸ up)
    · rw [gone] at up
      cases up
  once := fewer.nodup h.once
  new c mem := h.new c (fewer.mem mem)
  bodies c mem isMethod body found := by
    rw [kind c mem] at found
    rw [variant body]
    exact h.bodies c (fewer.mem mem) (variant c ▸ isMethod) body found

/-- What was read does not lie above the method. -/
theorem Waiting.not_within (h : Waiting n method changes a) {block : NodeId} (new : n ≤ block) :
    a.isWithin method block = false := by
  have before : ∀ y, a.Below method y → y < n := by
    intro y below
    induction below with
    | refl => exact h.old
    | tail _ up ih => exact h.above _ ih _ up
  by_contra within
  have below := below_of_isWithin (Bool.eq_true_of_not_eq_false within)
  exact absurd (before block below) (Nat.not_lt.mpr new)

/-- No link leads from what was read to what was there before. -/
theorem Waiting.apart (h : Waiting n method changes a) (x : NodeId) (new : n ≤ x) (c : NodeId) (child : c ∈ a.children x) :
    n ≤ c := by
  by_contra before
  exact absurd (h.above c (Nat.lt_of_not_le before) x ((h.linked.parent_iff _ _).mpr child)) (Nat.not_lt.mpr new)

theorem ends_detach_body {change body : NodeId}
    (h : Waiting n method (change :: rest) a) (variant : a.variant change = .method)
    (found : (a.kind change).body? = some body) : Ends (detach body) a
      (fun _ b => Waiting n method rest b ∧ ChangedAt change a b ∧ b.parent body = none ∧ b.variant body = .block)
      fun _ _ => False := by
  obtain ⟨new, isBlock⟩ := h.bodies change (.head _) variant body found
  have child : body ∈ a.children change := Kind.mem_children_of_body? found
  have up : a.parent body = some change := (h.linked.parent_iff _ _).mpr child
  have once := h.linked.once change body
  -- the payload of the method without its body is still that of a method
  obtain ⟨k, taken, same⟩ : ∃ k, (a.kind change).without? body = some k ∧ k.variant = .method := by
    unfold Arena.variant at variant
    unfold Arena.children at once
    generalize a.kind change = k at *
    cases k with
    | method =>
      cases found
      exact ⟨_, Kind.without?_method once, rfl⟩
    | _ => cases variant
  refine ((ends_detach_without up taken).and ((updates_detach (mem_singleton_self body)).unchecked h.linked nofun)).mono ?_
    fun _ _ failed => failed.1
  rintro _ b ⟨⟨-, rfl⟩, change_⟩
  have variants : ∀ x, ((a.setKind change k).setParent body none).variant x = a.variant x := by
    intro x
    unfold Arena.variant
    rw [kind_setParent, kind_setKind]
    split
    · rename_i here
      rw [same, here.1]
      exact variant.symm
    · rfl
  have only : ChangedAt change a ((a.setKind change k).setParent body none) := by
    refine ⟨by simp, fun x other => ?_, by simp⟩
    rw [kind_setParent, kind_setKind, if_neg fun both => other both.1]
  refine ⟨h.change (change_.linked h.linked) (sublist_cons_self _ _) variants ?_ ?_, only, ?_, ?_⟩
  · intro c mem
    refine only.kind c ?_
    rintro rfl
    exact (nodup_cons.mp h.once).1 mem
  · intro x before
    rw [parent_setParent, if_neg (by lia), parent_setKind]
    exact .inl rfl
  · rw [parent_setParent, if_pos ⟨rfl, by simpa using h.linked.child_lt child⟩]
  · rw [variants]
    exact isBlock

theorem ends_replaceBody_waiting (h : Waiting n method rest a) {block : NodeId}
    (new : n ≤ block) (inside : block < a.size) (isBlock : a.variant block = .block) (free : a.parent block = none) :
    Ends (replaceBody method block) a
      (fun _ b => Waiting n method rest b ∧ ChangedAt method a b ∧ (b.kind method).body? = some block)
      fun _ _ => False := by
  have detached : a.isDetached block := by rw [isDetached, free]; rfl
  have links : Changes false (replaceBody method block) a :=
    (updates_replaceBody_unchecked method block).unchecked h.linked (by simpa using inside)
  have isMethod := h.isMethod
  unfold Arena.variant at isMethod
  have done : Ends (replaceBody method block) a
      (fun _ b => ∃ k, k.variant = Variant.method ∧ k.body? = some block ∧ ((a.setKind method k).setParent block (some method) = b ∨
        ∃ old, ((a.setKind method k).setParent block (some method)).setParent old none = b)) fun _ _ => False := by
    unfold replaceBody
    simp only [ends_bind, ends_get, isBlock, detached, bne_self_eq_false, Bool.not_true, Bool.false_eq_true, if_false]
    split
    · simp only [ends_bind, ends_set, ends_pure]
      exact ⟨_, rfl, rfl, .inl rfl⟩
    · rename_i old kind
      have held : old ∈ a.children method := by simp [Arena.children, kind, Kind.children]
      have up : a.parent old = some method := (h.linked.parent_iff _ _).mpr held
      simp only [ends_bind, ends_pure]
      refine (ends_replaceNode_of_apart detached up held (h.not_within new)).imp ?_
      rintro _ b rfl
      refine ⟨_, by rw [Kind.replaceChild, Kind.variant_map, isMethod], ?_, .inr ⟨old, rfl⟩⟩
      simp [kind, Kind.replaceChild, Kind.map, Kind.body?]
    · rename_i kind
      rw [kind] at isMethod
      cases isMethod
    · rename_i withoutBody withBody _
      generalize a.kind method = k at *
      cases k with
      | method _ _ _ _ _ _ _ body =>
        cases body with
        | none => exact (withoutBody _ _ _ _ _ _ _ rfl).elim
        | some body => exact (withBody _ _ _ _ _ _ _ _ rfl).elim
      | _ => cases isMethod
  refine (done.and links).mono ?_ fun _ _ failed => failed.1
  rintro _ b ⟨⟨k, variant, body, made⟩, change⟩
  have kinds : ∀ x, b.kind x = if x = method ∧ method < a.size then k else a.kind x := by
    intro x
    rcases made with rfl | ⟨old, rfl⟩ <;> simp only [kind_setParent, kind_setKind]
  have only : ChangedAt method a b := by
    refine ⟨change.size_eq, fun x other => ?_, fun x => ?_⟩
    · rw [kinds, if_neg fun both => other both.1]
    · rcases made with rfl | ⟨old, rfl⟩ <;> simp
  have present : method < a.size := lt_of_variant_ne (by rw [h.isMethod]; decide)
  refine ⟨h.change (change.linked h.linked) (.refl _) ?_ ?_ ?_, only, by rw [kinds, if_pos ⟨rfl, present⟩, body]⟩
  · intro x
    unfold Arena.variant
    rw [kinds]
    split
    · rename_i here
      rw [variant, here.1, isMethod]
    · rfl
  · intro c mem
    have := h.new c mem
    have := h.old
    exact only.kind c (by lia)
  · intro x before
    have other : x ≠ block := by lia
    rcases made with rfl | ⟨old, rfl⟩
    · rw [parent_setParent, if_neg fun both => other both.1, parent_setKind]
      exact .inl rfl
    · rw [parent_setParent]
      split
      · exact .inr rfl
      · rw [parent_setParent, if_neg fun both => other both.1, parent_setKind]
        exact .inl rfl

/-- What a run over some declarations does to a method: each of them gets one entry in the report, and the method is left
alone or has a body that was read. -/
structure Settled (n : Nat) (method : NodeId) (count : Nat) (r : Report) (a : Arena) (r' : Report) (b : Arena) : Prop where
  replaced : ∃ times, r'.replaced = r.replaced ++ List.replicate times method
  entries : r'.entries = r.entries + count
  body : r'.replaced = r.replaced ∧ b.kind method = a.kind method ∨
    ∃ body, n ≤ body ∧ (b.kind method).body? = some body

theorem Settled.refl (n : Nat) (method : NodeId) (r : Report) (a : Arena) : Settled n method 0 r a r a :=
  ⟨⟨0, by simp⟩, rfl, .inl ⟨rfl, rfl⟩⟩

theorem Settled.trans {count count' : Nat} {r r' r'' : Report} {c : Arena} (h : Settled n method count r a r' b)
    (later : Settled n method count' r' b r'' c) : Settled n method (count + count') r a r'' c := by
  obtain ⟨times, replaced⟩ := h.replaced
  obtain ⟨times', replaced'⟩ := later.replaced
  refine ⟨⟨times + times', ?_⟩, by rw [later.entries, h.entries, Nat.add_assoc], ?_⟩
  · rw [replaced', replaced, replicate_add, append_assoc]
  · rcases later.body with ⟨same', kind'⟩ | found
    · rcases h.body with ⟨same, kind⟩ | found
      · exact .inl ⟨same'.trans same, kind'.trans kind⟩
      · exact .inr (kind' ▸ found)
    · exact .inr found

/-- The body of a declaration that was read now is the one of a method, and it has not changed. -/
def MovesBody (change method : NodeId) (a b : Arena) : Prop :=
  ∃ body, (a.kind change).body? = some body ∧ (b.kind method).body? = some body ∧ b.commented body = a.commented body

/-- A method gets the body of one that was read. -/
theorem ends_replaceOne_method {change : NodeId}
    (h : Waiting n method (change :: rest) a) (r : Report) : Ends (replaceOne method change r) a
      (fun r' b => Waiting n method rest b ∧ Settled n method 1 r a r' b ∧
        (a.Rooted change → r'.replaced ≠ r.replaced → MovesBody change method a b)) fun _ _ => False := by
  have skipped : Waiting n method rest a :=
    h.change h.linked (sublist_cons_self _ _) (fun _ => rfl) (fun _ _ => rfl) fun _ _ => .inl rfl
  refine ends_replaceOne (fun _ => False) (fun r' same entries => ?_) fun same body found => ?_
  · exact ⟨skipped, ⟨⟨0, by simpa using same⟩, entries, .inl ⟨same, rfl⟩⟩, fun _ other => absurd same other⟩
  have variant : a.variant change = .method := same.trans h.isMethod
  refine (ends_detach_body h variant found).imp ?_
  rintro _ b ⟨waiting, out, free, isBlock⟩
  have child := Kind.mem_children_of_body? found
  have new := (h.bodies change (.head _) variant body found).1
  refine (ends_replaceBody_waiting waiting new (out.size ▸ h.linked.child_lt child) isBlock free).imp ?_
  rintro _ c ⟨done, put, has⟩
  refine ⟨done, ⟨⟨1, rfl⟩, by simp [Report.entries]; lia, .inr ⟨body, new, has⟩⟩, fun rooted _ => ⟨body, found, has, ?_⟩⟩
  -- neither of the two nodes that changed is below the body: one was there before it was read, one was made behind it
  refine ((rooted.child child).congr_from h.apart new ?_ (fun x start le => ?_) fun x _ => ?_).2
  · rw [put.size, out.size]
  · have := h.old
    have := rooted.older child
    rw [put.kind x (by lia), out.kind x (by lia)]
  · rw [put.comments, out.comments]

/-- A method gets the bodies of all that were read, one after the other. -/
theorem ends_replaceAll_method (h : Waiting n method changes a) (r : Report) :
    Ends (replaceAll method changes r) a (fun r' b => Settled n method changes.length r a r' b) fun _ _ => False := by
  induction changes generalizing a r with
  | nil => exact .refl n method r a
  | cons change rest ih =>
    refine (ends_replaceOne_method h r).bind ?_
    rintro r' b ⟨waiting, first, -⟩
    rw [length_cons, Nat.add_comm]
    exact (ih waiting r').imp fun _ _ later => first.trans later

/-- A method gets the body of the only declaration that was read. -/
theorem ends_replaceAll_single {change : NodeId} (h : Waiting n method [change] a) (rooted : a.Rooted change) (r : Report) :
    Ends (replaceAll method [change] r) a (fun r' b => r'.replaced ≠ r.replaced → MovesBody change method a b)
      fun _ _ => False :=
  (ends_replaceOne_method h r).bind fun _ _ ⟨_, _, moves⟩ => moves rooted

theorem variant_eq_of_owns (owns : Owns a changes b) (inside : method < a.size) : b.variant method = a.variant method :=
  congrArg (fun node => node.kind.variant) (owns.grown.node_eq inside)

theorem waiting_of_owns (linked : Linked a) (inside : method < a.size)
    (isMethod : a.variant method = .method) (owns : Owns a changes b)
    (regular : b.TreesAt (Tree.Every (Regular Made)) changes) : Waiting a.size method changes b where
  linked := owns.grown.linked linked
  old := inside
  isMethod := (variant_eq_of_owns owns inside).trans isMethod
  above x before p up := by
    have same : b.parent x = a.parent x := congrArg Node.parent (owns.grown.node_eq before)
    exact Linked.parent_lt ((linked.parent_iff x p).mp (same ▸ up))
  once := nodup_iff_count_le_one.mpr owns.once
  new c mem := (owns.fresh c mem).1
  bodies c mem variant body found := by
    have child : body ∈ b.children c := Kind.mem_children_of_body? found
    have rooted : Rooted b body := by
      obtain ⟨_, _, below⟩ := (regular c mem).1
      exact below body child
    refine ⟨owns.grown.apart.children c (owns.fresh c mem).1 body child, ?_⟩
    have callable : ((b.kind c).map b.commented).isCallable := by
      unfold Arena.variant at variant
      generalize b.kind c = k at variant
      cases k with
      | method => rfl
      | _ => cases variant
    have isBlock := (regular c mem).every_kind.body callable (b.commented body) (by simpa using ⟨body, found, rfl⟩)
    rw [rooted.commented_eq] at isBlock
    simpa [Tree.variant, Tree.kind, Arena.variant] using isBlock

end Waiting

/-! ## Failures -/

/-- All nodes of `a` are in `b` as they were. -/
def Intact (a b : Arena) : Prop := ∀ id, id < a.size → b.node id = a.node id

theorem Intact.refl (a : Arena) : Intact a a := fun _ _ => rfl

theorem intact_addMissingCode (type : NodeId) (snippet : String) (a : Arena) :
    Ends (addMissingCode type snippet) a (fun _ _ => True) fun _ b => Intact a b :=
  ends_addMissingCode (.refl a) fun _ _ _ => trivial

/-- For a method a run fails before anything is read, and for a constructor nothing that was there changes. -/
theorem intact_replaceMethodBody (linked : Linked a) (type : NodeId) (name body : String) :
    Ends (replaceMethodBody type name body) a
      (fun r b => ∀ m, (a.members type).find? (isCallable a name) = some m → a.variant m = .constructor →
        Intact a b ∧ r.replaced = [])
      fun _ b => Intact a b ∧ ∀ m, (a.members type).find? (isCallable a name) = some m → a.variant m = .method → b = a := by
  refine ends_replaceMethodBody (fun b => Intact a b ∧ _) ⟨.refl a, fun _ _ _ => rfl⟩
    fun method found callable changes b owns regular => ?_
  have inside := linked.child_lt (Kind.mem_children_of_mem_members (mem_of_find?_eq_some found))
  rw [found]
  rcases callable with isMethod | isConstructor
  · refine (ends_replaceAll_method (waiting_of_owns linked inside isMethod owns regular) {}).mono ?_ fun _ _ => False.elim
    rintro _ _ - _ ⟨⟩ isConstructor
    cases isMethod.symm.trans isConstructor
  · have same := (variant_eq_of_owns owns inside).trans isConstructor
    have intact : Intact a b := fun id old => owns.grown.node_eq old
    refine (ends_replaceAll_constructor (owns.grown.linked linked) same changes {}).mono ?_ ?_
    · rintro r _ ⟨rfl, none⟩ _ _ _
      exact ⟨intact, none⟩
    · rintro _ _ rfl
      refine ⟨intact, ?_⟩
      rintro _ ⟨⟩ isMethod
      cases isMethod.symm.trans isConstructor

end JavaEdit.Fragment
