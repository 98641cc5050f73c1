import JavaEdit.Proofs.Arena.Acyclic

/-!
# What an edit does to the links

A single edit of an arena leaves all links, takes one child out of its slot, puts a detached node
into a slot, or puts a detached node in another one's place: `Change` lists these four. The edits
below are read once, as updates of nodes (`Update`), and what holds of every edit is derived from that
list. An update of a linked arena is a change (`Update.change`), and a change keeps an arena linked, and,
where the node that arrives is not above the slot it goes to, acyclic.

The flag of `Change` says whether the arriving node was checked in that way. One edit makes no such
check: giving a body to a method that has none (`updates_replaceBody`).
-/

namespace JavaEdit.Arena

open Relation

/-- A change of the links of `a` that leads to `b`. -/
inductive Change (checked : Bool) (a b : Arena) : Prop
  | same (size : b.size = a.size) (children : ∀ p, b.children p = a.children p)
      (parent : ∀ c, b.parent c = a.parent c)
  | unlink (c p : NodeId) (size : b.size = a.size) (held : c ∈ a.children p)
      (slots : ∀ x, (a.children p).count x = (b.children p).count x + (if c == x then 1 else 0))
      (others : ∀ q, q ≠ p → b.children q = a.children q) (free : b.parent c = none)
      (parents : ∀ x, x ≠ c → b.parent x = a.parent x)
  | graft (c p : NodeId) (size : b.size = a.size) (inside : c < a.size)
      (free : a.parent c = none)
      (slots : ∀ x, (b.children p).count x = (a.children p).count x + (if c == x then 1 else 0))
      (others : ∀ q, q ≠ p → b.children q = a.children q) (attached : b.parent c = some p)
      (parents : ∀ x, x ≠ c → b.parent x = a.parent x)
      (apart : checked = true → ¬ a.Below p c)
  | swap (old new p : NodeId) (size : b.size = a.size) (held : old ∈ a.children p)
      (inside : new < a.size) (free : a.parent new = none)
      (slots : b.children p = (a.children p).map fun c => if c == old then new else c)
      (others : ∀ q, q ≠ p → b.children q = a.children q) (attached : b.parent new = some p)
      (detached : b.parent old = none)
      (parents : ∀ x, x ≠ old → x ≠ new → b.parent x = a.parent x)
      (apart : checked = true → ¬ a.Below p new)

section Change

variable {checked : Bool} {a b : Arena}

theorem Change.refl : Change checked a a := .same rfl (fun _ => rfl) fun _ => rfl

theorem Change.size_eq (h : Change checked a b) : b.size = a.size := by
  cases h <;> assumption

theorem Change.linked (h : Change checked a b) (linked : Linked a) : Linked b := by
  cases h with
  | same size children parent => exact linked.congr size children parent
  | unlink c p size held slots others free parents =>
    exact linked.unlink size held slots others free parents
  | graft c p size inside free slots others attached parents apart =>
    exact linked.graft size inside free slots others attached parents
  | swap old new p size held inside free slots others attached detached parents apart =>
    exact linked.swap size held inside free slots others attached detached parents

theorem Change.acyclic (h : Change true a b) (acyclic : Acyclic a) : Acyclic b := by
  cases h with
  | same size children parent =>
    exact acyclic.mono fun x y up => by rw [← parent x]; exact up
  | unlink c p size held slots others free parents =>
    refine acyclic.mono fun x y up => ?_
    by_cases taken : x = c
    · rw [taken, free] at up
      cases up
    · rw [← parents x taken]
      exact up
  | graft c p size inside free slots others attached parents apart =>
    refine acyclic.insert (apart rfl) fun x y up => ?_
    by_cases taken : x = c
    · subst taken
      rw [attached] at up
      exact .inr ⟨rfl, (Option.some.inj up).symm⟩
    · rw [parents x taken] at up
      exact .inl up
  | swap old new p size held inside free slots others attached detached parents apart =>
    refine acyclic.insert (apart rfl) fun x y up => ?_
    by_cases leaves : x = old
    · rw [leaves, detached] at up
      cases up
    · by_cases arrives : x = new
      · subst arrives
        rw [attached] at up
        exact .inr ⟨rfl, (Option.some.inj up).symm⟩
      · rw [parents x leaves arrives] at up
        exact .inl up

end Change

/-! ## Payloads changed in place -/

theorem change_setKind {checked : Bool} {a : Arena} {id : NodeId} {k : Kind NodeId}
    (children : k.children = a.children id) : Change checked a (a.setKind id k) := by
  refine .same (size_setKind ..) (fun p => ?_) fun c => parent_setKind ..
  rw [children_setKind]
  split
  · rename_i here
    rw [here.1, children]
  · rfl

theorem change_modify_comments {checked : Bool} (a : Arena) (id : NodeId) (f : List Comment → List Comment) :
    Change checked a (a.modify id fun n => { n with comments := f n.comments }) := by
  refine .same (size_modify ..) (fun p => ?_) fun c => (links_modify_comments a id c f).2
  unfold children
  rw [(links_modify_comments a id p f).1]

end JavaEdit.Arena

namespace JavaEdit.Edit

open Arena Relation List

variable {a : Arena}
variable {checked : Bool} {fresh handles : List NodeId}

/-- A refusal that leaves the arena as it was. It is not for want of a link: parents know their children. -/
@[simp] def Untouched (a : Arena) (e : EditError) (b : Arena) : Prop :=
  b = a ∧ ∀ id parent, e ≠ .integrity id (.unlinked parent)

/-- Both outcomes of an edit are changes, and a refusal changes nothing. -/
def Changes {α : Type} (checked : Bool) (edit : Edit α) (a : Arena) : Prop :=
  Ends edit a (fun _ b => Change checked a b) (Untouched a)

/-- What a single edit does, node by node: nothing, another payload with the same children, a child taken out of a slot
that may lose it, a detached node put into a slot or in the place of another one. What it is made to is among `handles`
or a child of one of them, and what arrives is among `fresh`. -/
inductive Update (checked : Bool) (handles fresh : List NodeId) (a : Arena) : Arena → Prop
  | none : Update checked handles fresh a a
  | kind {id : NodeId} {k : Kind NodeId} (handled : id ∈ handles) (same : k.children = a.children id) :
    Update checked handles fresh a (a.setKind id k)
  | unlink {c p : NodeId} {k : Kind NodeId} (handled : c ∈ handles) (up : a.parent c = some p)
    (taken : (a.kind p).without? c = some k) : Update checked handles fresh a ((a.setKind p k).setParent c none)
  | graft {c p : NodeId} {k : Kind NodeId} (handled : p ∈ handles) (new : c ∈ fresh) (here : p < a.size)
    (free : a.parent c = none) (slots : ∀ x, k.children.count x = (a.children p).count x + (if c == x then 1 else 0))
    (apart : checked = true → a.isWithin p c = false) :
    Update checked handles fresh a ((a.setKind p k).setParent c (some p))
  | swap {old new p : NodeId} (handled : old ∈ handles ∨ ∃ q ∈ handles, old ∈ a.children q) (arrives : new ∈ fresh)
    (up : a.parent old = some p) (free : a.parent new = none) (apart : a.isWithin p new = false) :
    Update checked handles fresh a
      (((a.setKind p ((a.kind p).replaceChild old new)).setParent new (some p)).setParent old Option.none)

/-- In a linked arena an update is a change of links. -/
theorem Update.change {b : Arena} (h : Update checked handles fresh a b)
    (linked : Linked a) (inside : ∀ c ∈ fresh, c < a.size) (acyclic : checked → Acyclic a) : Change checked a b := by
  cases h with
  | none => exact .refl
  | kind _ same => exact change_setKind same
  | @unlink c p k _ up taken =>
    have held : c ∈ a.children p := (linked.parent_iff c p).mp up
    refine .unlink c p (by simp) held (fun x => ?_) (fun q other => ?_) ?_ fun x other => ?_
    · rw [children_setParent, children_setKind, if_pos ⟨rfl, Linked.parent_lt held⟩]
      exact Kind.without?_count taken x
    · rw [children_setParent, children_setKind, if_neg fun both => other both.1]
    · rw [parent_setParent, if_pos ⟨rfl, by simpa using linked.child_lt held⟩]
    · rw [parent_setParent, if_neg fun both => other both.1, parent_setKind]
  | @graft c p k _ new here free slots apart =>
    refine .graft c p (by simp) (inside c new) free (fun x => ?_) (fun q other => ?_) ?_ (fun x other => ?_)
      fun isChecked => not_below_of_isWithin (acyclic isChecked) linked (apart isChecked)
    · rw [children_setParent, children_setKind, if_pos ⟨rfl, here⟩]
      exact slots x
    · rw [children_setParent, children_setKind, if_neg fun both => other both.1]
    · rw [parent_setParent, if_pos ⟨rfl, by simpa using inside c new⟩]
    · rw [parent_setParent, if_neg fun both => other both.1, parent_setKind]
  | @swap old new p _ arrives up free apart =>
    have held : old ∈ a.children p := (linked.parent_iff old p).mp up
    have different : old ≠ new := by
      rintro rfl
      rw [free] at up
      cases up
    refine .swap old new p (by simp) held (inside new arrives) free ?_ (fun q other => ?_) ?_ ?_
      (fun x notOld notNew => ?_) fun isChecked => not_below_of_isWithin (acyclic isChecked) linked apart
    · rw [children_setParent, children_setParent, children_setKind, if_pos ⟨rfl, Linked.parent_lt held⟩,
        Kind.children_replaceChild]
      rfl
    · rw [children_setParent, children_setParent, children_setKind, if_neg fun both => other both.1]
    · rw [parent_setParent, if_neg fun both => different both.1.symm, parent_setParent,
        if_pos ⟨rfl, by simpa using inside new arrives⟩]
    · rw [parent_setParent, if_pos ⟨rfl, by simpa using linked.child_lt held⟩]
    · rw [parent_setParent, if_neg fun both => notOld both.1, parent_setParent,
        if_neg fun both => notNew both.1, parent_setKind]

/-- An edit makes an update, or it is refused and changes nothing, for want of a link only where the arena is not linked. -/
def Updates {α : Type} (checked : Bool) (handles fresh : List NodeId) (edit : Edit α) (a : Arena) : Prop :=
  Ends edit a (fun _ b => Update checked handles fresh a b)
    fun e b => b = a ∧ (Linked a → ∀ id parent, e ≠ .integrity id (.unlinked parent))

theorem Updates.changes {α : Type} {edit : Edit α}
    (h : Updates checked handles fresh edit a) (linked : Linked a) (inside : ∀ c ∈ fresh, c < a.size)
    (acyclic : checked → Acyclic a) : Changes checked edit a :=
  h.mono (fun _ _ update => update.change linked inside acyclic) fun _ _ refused => ⟨refused.1, refused.2 linked⟩

/-- Links stay inverse to each other also where cycles are not checked for. -/
theorem Updates.unchecked {α : Type} {edit : Edit α}
    (h : Updates false handles fresh edit a) (linked : Linked a) (inside : ∀ c ∈ fresh, c < a.size) :
    Changes false edit a :=
  h.changes linked inside nofun

section Updates

variable {checked : Bool}

theorem updates_setOperator (id : NodeId) (op : BinaryOperator) : Updates checked [id] [] (setOperator id op) a := by
  unfold Updates setOperator
  simp only [ends_bind, ends_get]
  split
  · rename_i old left right found
    exact .kind (by simp) (by rw [children, found]; rfl)
  · simp [refuseVariant]

theorem updates_setName (id : NodeId) (name : String) : Updates checked [id] [] (setName id name) a := by
  unfold Updates setName
  simp only [ends_bind, ends_get]
  split
  · rename_i kind renamed
    exact .kind (by simp) (Kind.children_of_rename? renamed)
  · simp [refuseVariant]

theorem updates_setModifiers (id : NodeId) (ms : Modifiers) : Updates checked [id] [] (setModifiers id ms) a := by
  unfold Updates setModifiers
  simp only [ends_bind, ends_get]
  split
  · rename_i kind modified
    exact .kind (by simp) (Kind.children_of_withModifiers? modified)
  · simp [refuseVariant]

theorem updates_detach {id : NodeId} (handled : id ∈ handles) : Updates checked handles [] (detach id) a := by
  unfold Updates detach
  simp only [ends_bind, ends_get]
  split
  · exact .none
  · rename_i parent up
    split
    · rename_i kind removed
      exact .unlink handled up (Kind.removeChild_eq_removed.mp removed)
    · simp
    · rename_i missing
      refine ⟨rfl, fun linked => absurd missing (Kind.removeChild_ne_notFound ?_)⟩
      exact (linked.parent_iff id parent).mp up

theorem updates_deleteMember (container member : NodeId) :
    Updates checked [container, member] [] (deleteMember container member) a := by
  unfold Updates deleteMember
  simp only [ends_bind, ends_get, ends_ite]
  split
  · simp [refuseVariant]
  · split
    · exact .none
    · simp only [ends_ite]
      split
      · exact updates_detach (by simp)
      · simp

theorem updates_replaceNode {old new : NodeId} (handled : old ∈ handles ∨ ∃ q ∈ handles, old ∈ a.children q) :
    Updates checked handles [new] (replaceNode old new) a := by
  unfold Updates replaceNode
  simp only [ends_bind, ends_get, ends_ite]
  split
  · simp [refuseAttached]
  · rename_i free
    split
    · exact .none
    · rename_i parent up
      split
      · simp [refuseCycle]
      · rename_i apart
        split
        · rename_i missing
          refine ⟨rfl, fun linked => absurd ((linked.parent_iff old parent).mp up) (by simpa using missing)⟩
        · exact .swap handled (by simp) up (by simpa [isDetached] using free) (by simpa using apart)

theorem updates_addMember (container member : NodeId) :
    Updates checked [container, member] [member] (addMember container member) a := by
  unfold Updates addMember
  simp only [ends_bind, ends_get, ends_ite]
  split
  · simp
  · split
    · simp [refuseAttached]
    · rename_i free
      split
      · simp [refuseCycle]
      · rename_i apart
        split
        · rename_i kind added
          have here : container < a.size := by
            by_contra outside
            rw [kind_of_le (Nat.not_lt.mp outside)] at added
            cases added
          refine .graft (by simp) (by simp) here (by simpa [isDetached] using free) (fun x => ?_)
            fun _ => by simpa using apart
          rw [Kind.children_of_mapMembers? added, count_append, count_singleton]
          rfl
        · simp [refuseVariant]

end Updates

theorem links_sweep (op : BinaryOperator) (ids : List NodeId) (b : Arena) :
    (sweep op ids b).size = b.size ∧ (∀ p, (sweep op ids b).children p = b.children p) ∧
      ∀ c, (sweep op ids b).parent c = b.parent c := by
  induction ids generalizing b with
  | nil => exact ⟨rfl, fun _ => rfl, fun _ => rfl⟩
  | cons id rest ih =>
    rw [sweep]
    split
    · rename_i old left right found
      obtain ⟨size, children, parent⟩ := ih (b.setKind id (.binary op left right))
      refine ⟨by rw [size, size_setKind], fun p => ?_, fun c => by rw [parent, parent_setKind]⟩
      rw [children, children_setKind]
      split
      · rename_i here
        rw [here.1, Arena.children, found]
        rfl
      · rfl
    · exact ih b

theorem ends_replaceOperator (root : NodeId) (old new : BinaryOperator) (checked : Bool) :
    Changes checked (replaceOperator root old new) a := by
  unfold Changes replaceOperator
  obtain ⟨size, children, parent⟩ := links_sweep new (a.elements root (isOperation old)) a
  exact .same size children parent

/-- Members are taken out one after the other, up to the first refusal. -/
theorem ends_deleteMembers (linked : Linked a) (container : NodeId) (members : List NodeId)
    (acyclic : checked → Acyclic a) :
    Ends (deleteMembers container members) a (fun _ b => ReflTransGen (Change checked) a b)
      fun _ b => ReflTransGen (Change checked) a b := by
  induction members generalizing a with
  | nil => exact .refl
  | cons member rest ih =>
    rw [deleteMembers, ends_bind]
    refine ((updates_deleteMember container member).changes linked nofun acyclic).mono (fun _ b change => ?_) ?_
    · have acyclic' : checked → Acyclic b := by
        rintro rfl
        exact change.acyclic (acyclic rfl)
      refine (ih (change.linked linked) acyclic').mono ?_ ?_
      · exact fun _ c changes => .head change changes
      · exact fun _ c changes => .head change changes
    · rintro _ b ⟨rfl, -⟩
      exact .refl

theorem ends_deleteMethods (linked : Linked a) (container : NodeId) (name : String) (acyclic : checked → Acyclic a) :
    Ends (deleteMethods container name) a (fun _ b => ReflTransGen (Change checked) a b)
      fun _ b => ReflTransGen (Change checked) a b := by
  unfold deleteMethods
  simp only [ends_bind, ends_get, ends_pure]
  exact ends_deleteMembers linked container _ acyclic

/-- Whether giving `method` the body `block` puts `block` into a method without body that is part
of `block` itself. -/
def closesCycle (a : Arena) (method block : NodeId) : Bool :=
  a.variant block == .block && a.isDetached block && a.isWithin method block &&
    match a.kind method with
    | .method _ _ _ _ _ _ _ none => true
    | _ => false

/-- Giving a method a body. The body of a method that had none is not checked against what the
method is part of, so the change counts as checked only where that does no harm. -/
theorem updates_replaceBody (method block : NodeId) (open_ : checked → closesCycle a method block = false) :
    Updates checked [method, block] [block] (replaceBody method block) a := by
  have replaced : ∀ old ∈ a.children method, Updates checked [method, block] [block]
      (replaceNode old block >>= fun _ => pure (some old)) a := fun old held =>
    (updates_replaceNode (.inr ⟨method, by simp, held⟩)).bind fun _ _ update => update
  unfold Updates replaceBody
  simp only [ends_bind, ends_get, ends_ite]
  split
  · simp [refuseVariant]
  · rename_i isBlock
    split
    · simp [refuseAttached]
    · rename_i free
      split
      · rename_i n ms as ts returned ps thrown found
        have here : method < a.size := lt_of_variant_ne (by simp [variant, found, Kind.variant])
        refine .graft (by simp) (by simp) here (by simpa [isDetached] using free) (fun x => ?_) fun isChecked => ?_
        · rw [children, found]
          simp only [Kind.children, count_append, Option.toList_some, Option.toList_none,
            count_singleton, count_nil, Nat.add_zero]
        · have harmless := open_ isChecked
          simp only [closesCycle, found, Bool.and_true] at harmless
          simp_all
      · rename_i old found
        exact replaced old (by simp [children, found, Kind.children])
      · rename_i old found
        exact replaced old (by simp [children, found, Kind.children])
      · simp [refuseVariant]

theorem updates_replaceBody_unchecked (method block : NodeId) :
    Updates false [method, block] [block] (replaceBody method block) a :=
  updates_replaceBody method block nofun

/-- Where the check is missing, the edit succeeds and the block ends up above itself. -/
theorem ends_replaceBody_of_closesCycle {method block : NodeId}
    (closes : closesCycle a method block) (inside : block < a.size) :
    Ends (replaceBody method block) a (fun _ b => ¬ Acyclic b) fun _ _ => False := by
  simp only [closesCycle, Bool.and_eq_true, beq_iff_eq] at closes
  obtain ⟨⟨⟨isBlock, free⟩, within⟩, bodiless⟩ := closes
  split at bodiless
  · rename_i n ms as ts returned ps thrown found
    unfold replaceBody
    simp only [ends_bind, ends_get, ends_ite]
    rw [if_neg (by simp [isBlock]), if_neg (by simp [free]), found]
    intro acyclic
    have kept : ∀ x y, a.Up x y → Up ((a.setKind method
        (.method n ms as ts returned ps thrown (some block))).setParent block (some method)) x y := by
      intro x y up
      unfold Up at up ⊢
      rw [parent_setParent, if_neg, parent_setKind]
      · exact up
      · -- the block has no parent yet, so no old link starts there
        rintro ⟨rfl, -⟩
        rw [isDetached, up] at free
        cases free
    have back := ReflTransGen.mono kept _ _ (below_of_isWithin within)
    refine acyclic block (.head' (b := method) ?_ back)
    unfold Up
    rw [parent_setParent, if_pos ⟨rfl, by simpa using inside⟩]
  · cases bodiless

end JavaEdit.Edit
