import JavaEdit.Proofs.Fragment.Grafts

/-!
# Added members

What was read from a snippet is new and detached, and nothing that was there lies below it, so it can
be added to the type that it was read for (`Offered.addMember`). An addition changes the members of
the type and no tree below them (`Joins.commented_eq`); what tells members apart is part of these trees
(`Linked.signature?_eq`). So a whole run can be described in the arena that it leads to: every
declaration is added, or repeats a member that is there, or is left out for its variant
(`exists_fates_addAll`).
-/

namespace JavaEdit

open Arena Fragment Edit List

/-! ## Signatures of trees -/

def Tree.parameterType (t : Page) : String :=
  match t.kind with
  | .parameter _ _ _ type _ => type.text
  | _ => ""

/-- What tells members of one variant apart. -/
def Tree.signature? (t : Page) : Option String :=
  match t.kind with
  | .field name .. => some name
  | .method name _ _ _ _ parameters _ _ | .constructor name _ _ parameters _ _ =>
    some (name ++ "(" ++ ",".intercalate (parameters.map Tree.parameterType) ++ ")")
  | _ => none

namespace Arena

variable {a b c : Arena} {type x m : NodeId} {added more : List NodeId}

section Trees

variable (linked : Linked a) (acyclic : Acyclic a)
include linked acyclic

theorem Linked.commented_eq (x : NodeId) : a.commented x = .node (a.comments x) ((a.kind x).map a.commented) :=
  (linked.acyclicBelow acyclic x).commented_eq

theorem Linked.bare_eq (x : NodeId) : a.bare x = .node () ((a.kind x).map a.bare) :=
  (linked.acyclicBelow acyclic x).bare_eq

theorem Linked.variant_commented (x : NodeId) : (a.commented x).variant = a.variant x := by
  rw [linked.commented_eq acyclic]
  exact Kind.variant_map ..

theorem Linked.parameterType_eq (x : NodeId) : parameterType a x = (a.commented x).parameterType := by
  unfold parameterType Tree.parameterType
  rw [linked.commented_eq acyclic, Tree.kind]
  cases a.kind x <;> rfl

theorem Linked.signature?_eq (x : NodeId) : signature? a x = (a.commented x).signature? := by
  have types : ∀ ps : List NodeId, ps.map (parameterType a) = (ps.map a.commented).map Tree.parameterType := fun ps => by
    rw [List.map_map]
    exact map_congr_left fun p _ => linked.parameterType_eq acyclic p
  unfold signature? Tree.signature?
  rw [linked.commented_eq acyclic, Tree.kind]
  cases a.kind x with
  | method | constructor => simp only [Kind.map, types]
  | _ => rfl

theorem Linked.simpleName?_eq (x : NodeId) : a.simpleName? x = (a.commented x).kind.simpleName? := by
  rw [linked.commented_eq acyclic]
  exact (Kind.simpleName?_map ..).symm

end Trees

/-! ## More members -/

/-- The arena `b` is `a` with some nodes behind the members of a type. -/
structure Joins (type : NodeId) (added : List NodeId) (a b : Arena) : Prop where
  size : b.size = a.size
  comments : ∀ x, b.comments x = a.comments x
  kind : ∀ x, x ≠ type → b.kind x = a.kind x
  members : (a.kind type).mapMembers? (· ++ added) = some (b.kind type)

theorem Joins.refl (isType : (a.variant type).isType) : Joins type [] a a := by
  refine ⟨rfl, fun _ => rfl, fun _ _ => rfl, ?_⟩
  unfold Arena.variant at isType
  cases kind : a.kind type with
  | classDecl | interfaceDecl => simp [Kind.mapMembers?]
  | _ => rw [kind] at isType; cases isType

theorem Joins.trans (h : Joins type added a b) (h' : Joins type more b c) : Joins type (added ++ more) a c := by
  refine ⟨h'.size.trans h.size, fun x => (h'.comments x).trans (h.comments x),
    fun x other => (h'.kind x other).trans (h.kind x other), ?_⟩
  have first := h.members
  rw [← h'.members]
  cases kind : a.kind type with
  | classDecl | interfaceDecl =>
    rw [kind] at first
    rw [← Option.some.inj first]
    simp [Kind.mapMembers?]
  | _ =>
    rw [kind] at first
    cases first

theorem Joins.members_eq (h : Joins type added a b) : b.members type = a.members type ++ added :=
  Kind.members_of_mapMembers? h.members

/-- Trees that the type is not part of stay. -/
theorem Joins.commented_eq (h : Joins type added a b) (linked : Linked a) (acyclic : Acyclic a) (linked' : Linked b)
    (acyclic' : Acyclic b) (apart : ¬ a.Reaches x type) : b.commented x = a.commented x := by
  induction x using linked.induct acyclic with
  | step x ih =>
    have other : x ≠ type := fun same => apart (same ▸ .refl)
    rw [linked'.commented_eq acyclic', linked.commented_eq acyclic, h.comments, h.kind x other]
    exact congrArg _ (Kind.map_congr fun c child => ih c child fun reached => apart (reached.head child))

/-- Two members that cannot be told apart. -/
def Same (a : Arena) (m c : NodeId) : Prop := a.variant m = a.variant c ∧ signature? a m = signature? a c

theorem existing?_eq_none (free : existing? a type x = none) : ∀ m ∈ a.members type, ¬ a.Same m x := by
  intro m mem same
  have other := List.find?_eq_none.mp free m mem
  simp [same.1, same.2] at other

theorem existing?_eq_some (found : existing? a type x = some m) : m ∈ a.members type ∧ a.Same m x := by
  have same := List.find?_some found
  simp only [Bool.and_eq_true, beq_iff_eq] at same
  exact ⟨mem_of_find?_eq_some found, same⟩

theorem Joins.same_iff (h : Joins type added a b) (linked : Linked a) (acyclic : Acyclic a) (linked' : Linked b)
    (acyclic' : Acyclic b) (left : ¬ a.Reaches m type) (right : ¬ a.Reaches x type) : b.Same m x ↔ a.Same m x := by
  have same := fun {x} apart => h.commented_eq (x := x) linked acyclic linked' acyclic' apart
  unfold Same
  simp only [← linked'.variant_commented acyclic', ← linked.variant_commented acyclic, linked'.signature?_eq acyclic',
    linked.signature?_eq acyclic, same left, same right]

end Arena

/-! ## Adding what was read -/

namespace Fragment

/-- Some declarations that were read wait to be added to a type. What was there before has an index below `n`, and
nothing of it lies below what was read. -/
structure Offered (n : Nat) (type : NodeId) (changes : List NodeId) (a : Arena) : Prop where
  linked : Linked a
  acyclic : Acyclic a
  old : type < n
  isType : (a.variant type).isType = true
  above : ∀ x, x < n → ∀ p, a.parent x = some p → p < n
  once : changes.Nodup
  fresh : ∀ c ∈ changes, n ≤ c ∧ c < a.size ∧ a.parent c = none

section Offered

variable {a b : Arena} {n : Nat} {type change : NodeId} {changes rest : List NodeId}

theorem Offered.tail (h : Offered n type (change :: rest) a) : Offered n type rest a where
  linked := h.linked
  acyclic := h.acyclic
  old := h.old
  isType := h.isType
  above := h.above
  once := (nodup_cons.mp h.once).2
  fresh c mem := h.fresh c (.tail _ mem)

theorem Offered.not_below (h : Offered n type changes a) {c : NodeId} (new : n ≤ c) : ¬ a.Below type c := by
  intro below
  have before : ∀ y, a.Below type y → y < n := by
    intro y below
    induction below with
    | refl => exact h.old
    | tail _ up ih => exact h.above _ ih _ up
  exact absurd (before c below) (Nat.not_lt.mpr new)

theorem Offered.not_reaches (h : Offered n type changes a) {c : NodeId} (mem : c ∈ changes) : ¬ a.Reaches c type :=
  fun reached => h.not_below (h.fresh c mem).1 (h.linked.below_of_reaches reached)

theorem Offered.not_reaches_member (h : Offered n type changes a) {m : NodeId} (mem : m ∈ a.members type) :
    ¬ a.Reaches m type :=
  h.acyclic.not_reaches_parent h.linked (Kind.mem_children_of_mem_members mem)

theorem Offered.addMember (h : Offered n type (change :: rest) a)
    (isMember : a.variant change = .field ∨ a.variant change = .method) :
    ∃ b, (Edit.addMember type change).run.run a = (.ok (), b) ∧ Offered n type rest b ∧ Joins type [change] a b := by
  obtain ⟨new, inside, free⟩ := h.fresh change (.head _)
  obtain ⟨notAgain, once⟩ := nodup_cons.mp h.once
  obtain ⟨k, made, -, variant⟩ := Kind.mapMembers?_spec (f := (· ++ [change])) h.isType
  have apart : a.isWithin type change = false := by
    by_contra within
    exact h.not_below new (below_of_isWithin (Bool.eq_true_of_not_eq_false within))
  have typeInside : type < a.size := h.old.trans_le (new.trans inside.le)
  have ended : Ends (Edit.addMember type change) a
      (fun _ b => b = (a.setKind type k).setParent change (some type)) fun _ _ => False := by
    have detached : a.isDetached change := by simp [isDetached, free]
    have accepted : (a.variant change != .field && a.variant change != .method) = false := by
      rcases isMember with is | is <;> simp [is]
    unfold Edit.addMember
    simp only [ends_bind, ends_get, accepted, detached, apart, made, Bool.not_true, Bool.false_eq_true, if_false, ends_set]
  have linking := ended.and ((updates_addMember type change).changes h.linked (by simpa using inside) fun _ : true = true => h.acyclic)
  obtain ⟨_, b, run, same, linked⟩ := linking.exists_ok fun _ _ failed => failed.1
  have kind : b.kind type = k := by simp [same, kind_setKind, typeInside]
  have parent : ∀ x, x ≠ change → b.parent x = a.parent x := fun x other => by simp [same, parent_setParent, other]
  refine ⟨b, run, ⟨linked.linked h.linked, linked.acyclic h.acyclic, h.old, ?_, fun x before p up => ?_, once,
    fun c mem => ?_⟩, linked.size_eq, fun x => by simp [same], fun x other => ?_, by rw [made, kind]⟩
  · rw [Arena.variant, kind, variant]
    exact h.isType
  · have other : x ≠ change := fun here => absurd before (Nat.not_lt.mpr (here ▸ new))
    exact h.above x before p (parent x other ▸ up)
  · obtain ⟨later, there, detached⟩ := h.fresh c (.tail _ mem)
    have other : c ≠ change := fun here => notAgain (here ▸ mem)
    exact ⟨later, linked.size_eq ▸ there, (parent c other).trans detached⟩
  · simp [same, kind_setKind, other]

/-- What was just read can be added. -/
theorem offered_of_owns (linked : Linked a) (acyclic : Acyclic a) (isType : (a.variant type).isType)
    (owns : Owns a changes b) : Offered a.size type changes b := by
  have inside : type < a.size := lt_of_variant_ne fun empty => by simp [empty, Variant.isType] at isType
  refine ⟨owns.grown.linked linked, owns.grown.acyclic acyclic, inside, ?_, fun x before p up => ?_,
    nodup_iff_count_le_one.mpr owns.once, owns.fresh⟩
  · rwa [Arena.variant, Arena.kind, owns.grown.node_eq inside]
  · have same : b.parent x = a.parent x := congrArg Node.parent (owns.grown.node_eq before)
    exact Linked.parent_lt ((linked.parent_iff x p).mp (same ▸ up))

end Offered

/-! ## What becomes of declarations -/

/-- What becomes of a declaration of a snippet. -/
inductive Fate where
  | added (id : NodeId)
  /-- It repeats a member of the type. -/
  | present (member : NodeId)
  | skipped (entry : Skipped)

namespace Fate

def added? : Fate → Option NodeId
  | added id => some id
  | _ => none

def present? : Fate → Option NodeId
  | present member => some member
  | _ => none

def skipped? : Fate → Option Skipped
  | skipped entry => some entry
  | _ => none

/-- Whether this is what becomes of a node, by the arena that a run leads to. -/
def Fits (again : Bool) (type : NodeId) (b : Arena) (c : NodeId) : Fate → Prop
  | added id => id = c ∧ (b.variant c = .field ∨ b.variant c = .method)
  | present member => again = false ∧ member ∈ b.members type ∧ b.Same member c
  | skipped entry => b.variant c ≠ .field ∧ b.variant c ≠ .method ∧
      entry = ⟨b.variant c, b.simpleName? c, .unknownChange (b.variant c)⟩

end Fate

end Fragment

/-- A report with an entry for each of some fates behind what it says. -/
def Report.followed (r : Report) (fates : List Fate) : Report where
  added := r.added ++ fates.filterMap Fate.added?
  replaced := r.replaced
  present := r.present ++ fates.filterMap Fate.present?
  skipped := r.skipped ++ fates.filterMap Fate.skipped?

theorem Report.followed_nil (r : Report) : r.followed [] = r := by
  simp [followed]

theorem Report.followed_added (r : Report) (id : NodeId) :
    r.followed [.added id] = { r with added := r.added ++ [id] } := by
  simp [followed, Fate.added?, Fate.present?, Fate.skipped?]

theorem Report.followed_present (r : Report) (m : NodeId) :
    r.followed [.present m] = { r with present := r.present ++ [m] } := by
  simp [followed, Fate.added?, Fate.present?, Fate.skipped?]

theorem Report.followed_skipped (r : Report) (a : Arena) (id : NodeId) (reason : SkipReason) :
    r.followed [.skipped ⟨a.variant id, a.simpleName? id, reason⟩] = r.skip a id reason := by
  simp [followed, skip, Fate.added?, Fate.present?, Fate.skipped?]

theorem Report.followed_cons (r : Report) (fate : Fate) (fates : List Fate) :
    (r.followed [fate]).followed fates = r.followed (fate :: fates) := by
  simp only [followed, append_assoc, ← filterMap_append, singleton_append]

namespace Fragment

/-- A run over some declarations, by their fates. -/
structure Ran (again : Bool) (type : NodeId) (changes : List NodeId) (a : Arena) (fates : List Fate) (b : Arena) :
    Prop where
  linked : Linked b
  acyclic : Acyclic b
  joins : Joins type (fates.filterMap Fate.added?) a b
  fits : List.Forall₂ (Fate.Fits again type b) changes fates
  /-- Nothing is added that could be taken for a member before it. -/
  distinct : again = false → (∀ m ∈ a.members type, ∀ c ∈ fates.filterMap Fate.added?, ¬ b.Same m c) ∧
    (fates.filterMap Fate.added?).Pairwise fun m c => ¬ b.Same m c

section Ran

variable {again : Bool} {a a' b : Arena} {n : Nat} {type change : NodeId} {rest : List NodeId} {fates : List Fate}

theorem Offered.ne_type (h : Offered n type (change :: rest) a) : change ≠ type := fun same =>
  absurd h.old (Nat.not_lt.mpr (same ▸ (h.fresh change (.head _)).1))

theorem Ran.keep (ran : Ran again type rest a fates b) {fate : Fate} (notAdded : fate.added? = none)
    (fits : fate.Fits again type b change) : Ran again type (change :: rest) a (fate :: fates) b where
  linked := ran.linked
  acyclic := ran.acyclic
  joins := by
    rw [filterMap_cons_none notAdded]
    exact ran.joins
  fits := .cons fits ran.fits
  distinct := by
    rw [filterMap_cons_none notAdded]
    exact ran.distinct

theorem Ran.add (h : Offered n type (change :: rest) a) (isMember : a.variant change = .field ∨ a.variant change = .method)
    (free : again = false → ∀ m ∈ a.members type, ¬ a.Same m change) (joins : Joins type [change] a a')
    (ran : Ran again type rest a' fates b) : Ran again type (change :: rest) a (.added change :: fates) b := by
  have whole : Joins type (change :: fates.filterMap Fate.added?) a b := joins.trans ran.joins
  refine ⟨ran.linked, ran.acyclic, whole, .cons ⟨rfl, ?_⟩ ran.fits, fun once => ?_⟩
  · rwa [Arena.variant, whole.kind change h.ne_type]
  · obtain ⟨old, new⟩ := ran.distinct once
    rw [joins.members_eq] at old
    refine ⟨fun m mem => forall_mem_cons.mpr ⟨fun same => ?_, old m (mem_append_left _ mem)⟩,
      pairwise_cons.mpr ⟨old change (mem_append_right _ (mem_singleton.mpr rfl)), new⟩⟩
    refine free once m mem ((whole.same_iff h.linked h.acyclic ran.linked ran.acyclic ?_ ?_).mp same)
    · exact h.not_reaches_member mem
    · exact h.not_reaches (.head _)

theorem Ran.fits_present (h : Offered n type (change :: rest) a) (ran : Ran again type rest a fates b) {m : NodeId}
    (once : again = false) (mem : m ∈ a.members type) (same : a.Same m change) :
    Fate.Fits again type b change (.present m) := by
  refine ⟨once, ?_, (ran.joins.same_iff h.linked h.acyclic ran.linked ran.acyclic ?_ ?_).mpr same⟩
  · rw [ran.joins.members_eq]
    exact mem_append_left _ mem
  · exact h.not_reaches_member mem
  · exact h.not_reaches (.head _)

theorem Ran.fits_skipped (h : Offered n type (change :: rest) a) (ran : Ran again type rest a fates b)
    (other : ¬ (a.variant change = .field ∨ a.variant change = .method)) : Fate.Fits again type b change
      (.skipped ⟨a.variant change, a.simpleName? change, .unknownChange (a.variant change)⟩) := by
  have kind := ran.joins.kind change h.ne_type
  have variant : b.variant change = a.variant change := congrArg Kind.variant kind
  have name : b.simpleName? change = a.simpleName? change := congrArg Kind.simpleName? kind
  obtain ⟨notField, notMethod⟩ := not_or.mp other
  exact ⟨variant ▸ notField, variant ▸ notMethod, by rw [variant, name]⟩

end Ran

/-- A run over declarations that were read: the report has one entry for each of them. -/
theorem exists_fates_addAll {a : Arena} {n : Nat} {type : NodeId} {changes : List NodeId}
    (h : Offered n type changes a) (again : Bool) (r : Report) :
    ∃ fates, ((addAll type again changes r).run a).1 = r.followed fates ∧
      Ran again type changes a fates ((addAll type again changes r).run a).2 := by
  induction changes generalizing a r with
  | nil =>
    refine ⟨[], r.followed_nil.symm, h.linked, h.acyclic, .refl h.isType, .nil, fun _ => ⟨fun _ _ => nofun, .nil⟩⟩
  | cons change rest ih =>
    rw [run_addAll]
    cases found : if again then none else existing? a type change with
    | some m =>
      obtain ⟨once, found⟩ : again = false ∧ existing? a type change = some m := by
        cases again with
        | true => cases found
        | false => exact ⟨rfl, found⟩
      obtain ⟨mem, same⟩ := existing?_eq_some found
      obtain ⟨fates, report, ran⟩ := ih h.tail { r with present := r.present ++ [m] }
      refine ⟨.present m :: fates, ?_, ran.keep rfl (ran.fits_present h once mem same)⟩
      rw [← Report.followed_cons, Report.followed_present]
      exact report
    | none =>
      have free : again = false → ∀ m ∈ a.members type, ¬ a.Same m change := fun once =>
        existing?_eq_none (by simpa [once] using found)
      dsimp only
      by_cases isMember : a.variant change = .field ∨ a.variant change = .method
      · obtain ⟨a', run, offered, joins⟩ := h.addMember isMember
        have added : (addOne type change r).run a = ({ r with added := r.added ++ [change] }, a') := by
          rw [run_addOne, if_pos (by simpa using isMember), run]
        rw [added]
        obtain ⟨fates, report, ran⟩ := ih offered { r with added := r.added ++ [change] }
        refine ⟨.added change :: fates, ?_, ran.add h isMember free joins⟩
        rw [← Report.followed_cons, Report.followed_added]
        exact report
      · have skipped : (addOne type change r).run a = (r.skip a change (.unknownChange (a.variant change)), a) := by
          rw [run_addOne, if_neg (by simpa using isMember)]
        rw [skipped]
        obtain ⟨fates, report, ran⟩ := ih h.tail (r.skip a change (.unknownChange (a.variant change)))
        refine ⟨_ :: fates, ?_, ran.keep rfl (ran.fits_skipped h isMember)⟩
        rw [← Report.followed_cons, Report.followed_skipped]
        exact report

end Fragment

end JavaEdit
