import JavaEdit.Proofs.Fragment.Additions

/-!
# Reports of additions

A snippet is read at the end of the type that it is meant for, and what starts inside the snippet is
what it declares (`Excerpt.declared`). Fields, methods and constructors among it are copied, and the
report of an addition has exactly one entry for each of them; the members of the type are then the old
ones with the added ones behind them (`reports_account_for_all_but_nested_types`). Classes and
interfaces that a snippet declares are not copied and no report mentions them
(`nested_class_is_not_reported`).
-/

namespace JavaEdit

open Arena Fragment List

variable {a : Arena} {m type : NodeId}

theorem IsDeclaration.member_variant {ok : Page → Prop} {owner : Option String} {t : Page} (h : IsDeclaration ok owner t) :
    ∀ s ∈ t.kind.members, (∃ owner, IsDeclaration ok owner s) ∧
      ([Variant.field, .method, .constructor].contains s.variant = !s.variant.isType) := by
  have mem : ∀ {owner s}, IsDeclaration ok owner s →
      [Variant.field, .method, .constructor].contains s.variant = !s.variant.isType := by
    intro owner s isMember
    cases isMember <;> rfl
  cases h with
  | classDecl _ _ _ _ _ members | interfaceDecl _ _ _ _ members =>
    exact fun s here => ⟨⟨_, members s here⟩, mem (members s here)⟩
  | method | constructor | field => nofun

theorem Arena.TreeAt.member {ok : Page → Prop}
    (h : a.TreeAt (fun t => ∃ owner, IsDeclaration ok owner t) type) (mem : m ∈ a.members type) :
    a.TreeAt (fun t => ∃ owner, IsDeclaration ok owner t) m ∧
      [Variant.field, .method, .constructor].contains (a.variant m) = !(a.variant m).isType := by
  obtain ⟨rooted, owner, isDeclaration⟩ := h
  have inType : a.commented m ∈ (a.commented type).kind.members := by
    rw [rooted.commented_eq, Tree.kind, Kind.members_map]
    exact mem_map_of_mem mem
  have below := rooted.child (Kind.mem_children_of_mem_members mem)
  obtain ⟨isMember, simple⟩ := isDeclaration.member_variant _ inType
  rw [below.variant_commented] at simple
  exact ⟨⟨below, isMember⟩, simple⟩

namespace Fragment

/-- Read the text of a type with a snippet at its end. -/
def readAround (a : Arena) (type : NodeId) (snippet : String) : Except ParseError NodeId × Arena :=
  Arena.empty.readUnit ((a.simpleName? type).getD "" ++ ".java") (textBefore a type ++ snippet ++ "\n\x7d\n")

/-- The text of a type with a snippet at its end, read into an arena of its own: the type there, and where the snippet
starts and stops in the text. -/
structure Excerpt where
  scratch : Arena
  type : NodeId
  start : Nat
  stop : Nat

namespace Excerpt

/-- Whether a node starts inside the snippet. -/
def startsInside (e : Excerpt) (id : NodeId) : Bool :=
  match e.scratch.position id with
  | .real _ place _ => e.start ≤ place.offset && place.offset < e.stop
  | .synthetic => false

/-- The members that the snippet declares. -/
def declared (e : Excerpt) : List NodeId := (e.scratch.members e.type).filter e.startsInside

/-- Those of them that are no types. -/
def simple (e : Excerpt) : List NodeId := e.declared.filter fun m => !(e.scratch.variant m).isType

/-- The excerpt comes from a type of an arena. -/
structure Reads (e : Excerpt) (a : Arena) (type : NodeId) (snippet : String) : Prop where
  read : ∃ unit, readAround a type snippet = (.ok unit, e.scratch) ∧
    e.scratch.findFirst unit (a.variant type) ((a.simpleName? type).getD "") = .ok e.type
  start_eq : e.start = (textBefore a type).utf8ByteSize
  stop_eq : e.stop = e.start + snippet.utf8ByteSize

/-- An excerpt of a type, by the node that it is found at. -/
def of (a : Arena) (type : NodeId) (snippet : String) (inner : NodeId) : Excerpt :=
  ⟨(readAround a type snippet).2, inner, (textBefore a type).utf8ByteSize,
    (textBefore a type).utf8ByteSize + snippet.utf8ByteSize⟩

variable {e : Excerpt} {a : Arena} {type : NodeId} {snippet : String}

theorem reads_of {unit inner : NodeId} (read : (readAround a type snippet).1 = .ok unit)
    (found : (readAround a type snippet).2.findFirst unit (a.variant type) ((a.simpleName? type).getD "") = .ok inner) :
    (of a type snippet inner).Reads a type snippet :=
  ⟨⟨unit, by rw [← read]; rfl, found⟩, rfl, rfl⟩

theorem Reads.ordered (h : e.Reads a type snippet) : Linked e.scratch ∧ Acyclic e.scratch := by
  obtain ⟨unit, read, -⟩ := h.read
  have grown := (owns_readUnit read).grown
  exact ⟨grown.linked linked_empty, grown.acyclic acyclic_empty⟩

theorem Reads.isDeclaration (h : e.Reads a type snippet) (isType : (a.variant type).isType) :
    e.scratch.TreeAt (fun t => ∃ owner, IsDeclaration Made owner t) e.type := by
  obtain ⟨unit, read, found⟩ := h.read
  obtain ⟨reached, variant⟩ := reaches_of_findFirst found
  exact isDeclaration_of_below (isUnit_of_readUnit read) reached (variant ▸ isType)

/-- Fields, methods and constructors are what is no type. -/
theorem Reads.selected_eq (h : e.Reads a type snippet) (isType : (a.variant type).isType) :
    (e.scratch.members e.type).filter (isSelected e.scratch e.start e.stop) = e.simple := by
  unfold simple declared
  rw [filter_filter]
  refine filter_congr fun m mem => ?_
  unfold isSelected
  rw [((h.isDeclaration isType).member mem).2]
  rfl

theorem Reads.isDeclaration_simple (h : e.Reads a type snippet) (isType : (a.variant type).isType)
    (declared : m ∈ e.simple) : ∃ owner, IsDeclaration Made owner (e.scratch.commented m) :=
  ((h.isDeclaration isType).member (mem_of_mem_filter (mem_of_mem_filter declared))).1.2

end Excerpt

theorem ends_extract_excerpt (type : NodeId) (snippet : String) (a : Arena) :
    Ends (extract type snippet) a (fun ids b => (a.variant type).isType ∧ Owns a ids b ∧
      ∃ e : Excerpt, e.Reads a type snippet ∧ ids.map b.commented = e.simple.map e.scratch.commented)
      fun _ _ => True := by
  unfold extract
  simp only [ends_bind, ends_get, ends_ite]
  split
  · simp [Graft.ofEdit, Edit.refuseVariant]
  · rename_i isType
    have isType : (a.variant type).isType := by simpa using isType
    split
    · trivial
    · rename_i scratch members read
      obtain ⟨owns, -, -, shown⟩ := importAll_shows scratch members (Owns.start a)
      rw [append_nil] at owns
      unfold readMembers at read
      split at read
      · cases read
      · rename_i unit _ readUnit
        split at read
        · cases read
        · rename_i inner found
          cases read
          let start := (textBefore a type).utf8ByteSize
          let e : Excerpt := ⟨scratch, inner, start, start + snippet.utf8ByteSize⟩
          have reads : e.Reads a type snippet := ⟨⟨unit, readUnit, found⟩, rfl, rfl⟩
          refine ends_monadLift.mpr ⟨isType, owns, e, reads, ?_⟩
          rw [shown, ← reads.selected_eq isType]

/-- What a report says of a member of a snippet, whose copy may have been added. -/
def Fate.Accounts (again : Bool) (a : Arena) (type : NodeId) (b scratch : Arena) (m : NodeId) : Fate → Prop
  | .added id => a.size ≤ id ∧ b.commented id = scratch.commented m ∧
      (scratch.variant m = .field ∨ scratch.variant m = .method)
  | .present member => again = false ∧ member ∈ b.members type ∧ b.variant member = scratch.variant m ∧
      signature? b member = signature? scratch m
  | .skipped entry => scratch.variant m = .constructor ∧
      entry = ⟨.constructor, scratch.simpleName? m, .unknownChange .constructor⟩

section Accounts

variable {again : Bool} {a b scratch : Arena} {type c m : NodeId} {fate : Fate}

/-- What becomes of a copy becomes of the member that was copied. -/
theorem Fate.Fits.accounts (h : fate.Fits again type b c) (linked : Linked b) (acyclic : Acyclic b)
    (linked' : Linked scratch) (acyclic' : Acyclic scratch) (new : a.size ≤ c)
    (shown : b.commented c = scratch.commented m)
    (known : scratch.variant m = .field ∨ scratch.variant m = .method ∨ scratch.variant m = .constructor) :
    fate.Accounts again a type b scratch m := by
  have variant : b.variant c = scratch.variant m := by
    rw [← linked.variant_commented acyclic, shown, linked'.variant_commented acyclic']
  have signature : signature? b c = signature? scratch m := by
    rw [linked.signature?_eq acyclic, shown, linked'.signature?_eq acyclic']
  have name : b.simpleName? c = scratch.simpleName? m := by
    rw [linked.simpleName?_eq acyclic, shown, linked'.simpleName?_eq acyclic']
  cases fate with
  | added id =>
    obtain ⟨rfl, isMember⟩ := h
    exact ⟨new, shown, variant ▸ isMember⟩
  | present member =>
    obtain ⟨once, here, same⟩ := h
    exact ⟨once, here, same.1.trans variant, same.2.trans signature⟩
  | skipped entry =>
    obtain ⟨notField, notMethod, rfl⟩ := h
    rw [variant] at notField notMethod ⊢
    have isConstructor := (known.resolve_left notField).resolve_left notMethod
    exact ⟨isConstructor, by rw [isConstructor, name]⟩

end Accounts

theorem Excerpt.Reads.variant_simple {e : Excerpt} {snippet : String}
    (h : e.Reads a type snippet) (isType : (a.variant type).isType) (mem : m ∈ e.simple) :
    e.scratch.variant m = .field ∨ e.scratch.variant m = .method ∨ e.scratch.variant m = .constructor := by
  rw [← h.selected_eq isType] at mem
  have selected := (mem_filter.mp mem).2
  simp only [isSelected, Bool.and_eq_true] at selected
  simpa using selected.1

/-- A relation along two lists, of which the first shows the same as a third one. -/
theorem forall₂_of_map_eq {α β γ δ : Type} {f : α → γ} {g : β → γ} {R : α → δ → Prop} {S : β → δ → Prop}
    {xs : List α} {ys : List β} {zs : List δ} (same : xs.map f = ys.map g) (h : List.Forall₂ R xs zs)
    (step : ∀ x ∈ xs, ∀ y ∈ ys, f x = g y → ∀ z, R x z → S y z) : List.Forall₂ S ys zs := by
  induction h generalizing ys with
  | nil =>
    obtain rfl := map_eq_nil_iff.mp same.symm
    exact .nil
  | cons first _ ih =>
    cases ys with
    | nil => cases same
    | cons y ys =>
      obtain ⟨head, tail⟩ := List.cons.inj same
      refine .cons (step _ (.head _) y (.head _) head _ first) (ih tail ?_)
      exact fun x here y there => step x (.tail _ here) y (.tail _ there)

theorem forall₂_mem_right {α β : Type} {R : α → β → Prop} {xs : List α} {ys : List β} (h : List.Forall₂ R xs ys) {y : β}
    (mem : y ∈ ys) : ∃ x ∈ xs, R x y := by
  induction h with
  | nil => cases mem
  | cons first _ ih =>
    rcases mem_cons.mp mem with rfl | mem
    · exact ⟨_, .head _, first⟩
    · obtain ⟨x, here, related⟩ := ih mem
      exact ⟨x, .tail _ here, related⟩

/-- An addition by text, of everything or of what is missing. -/
def add (again : Bool) (type : NodeId) (snippet : String) : Graft Report :=
  if again then addCode type snippet else addMissingCode type snippet

theorem ends_add {again : Bool} {snippet : String} {good : Report → Arena → Prop}
    {bad : FragmentError → Arena → Prop} : Ends (add again type snippet) a good bad ↔ Ends (extract type snippet) a
      (fun ids b => good ((addAll type again ids {}).run b).1 ((addAll type again ids {}).run b).2) bad := by
  cases again <;> exact ends_bind

/-- A run of an addition: the copies `ids` of the members in an excerpt, made in the arena `c`, have met the `fates`
that the report is made of. -/
structure Merged (again : Bool) (a : Arena) (type : NodeId) (snippet : String) (e : Excerpt) (ids : List NodeId)
    (c : Arena) (fates : List Fate) (b : Arena) : Prop where
  isType : (a.variant type).isType = true
  reads : e.Reads a type snippet
  owns : Owns a ids c
  shown : ids.map c.commented = e.simple.map e.scratch.commented
  offered : Offered a.size type ids c
  ran : Ran again type ids c fates b

theorem ends_add_merged (linked : Linked a) (acyclic : Acyclic a) (again : Bool) (type : NodeId)
    (snippet : String) : Ends (add again type snippet) a (fun report b => ∃ e ids c fates,
      Merged again a type snippet e ids c fates b ∧ report = ({} : Report).followed fates) fun _ _ => True := by
  refine ends_add.mpr ((ends_extract_excerpt type snippet a).mono ?_ fun _ _ _ => trivial)
  rintro ids c ⟨isType, owns, e, reads, shown⟩
  have offered := offered_of_owns linked acyclic isType owns
  obtain ⟨fates, report, ran⟩ := exists_fates_addAll offered again {}
  exact ⟨e, ids, c, fates, ⟨isType, reads, owns, shown, offered, ran⟩, report⟩

section Merged

variable {again : Bool} {a b c : Arena} {type : NodeId} {snippet : String} {e : Excerpt} {ids : List NodeId}
  {fates : List Fate} (h : Merged again a type snippet e ids c fates b)
include h

theorem Merged.members_eq : b.members type = a.members type ++ fates.filterMap Fate.added? := by
  rw [h.ran.joins.members_eq, Arena.members, Arena.kind, h.owns.grown.node_eq h.offered.old]
  rfl

/-- The copies show the same trees all the way. -/
theorem Merged.commented_eq {id : NodeId} (mem : id ∈ ids) : b.commented id = c.commented id :=
  h.ran.joins.commented_eq h.offered.linked h.offered.acyclic h.ran.linked h.ran.acyclic (h.offered.not_reaches mem)

theorem Merged.accounts : List.Forall₂ (Fate.Accounts again a type b e.scratch) e.simple fates := by
  obtain ⟨linked', acyclic'⟩ := h.reads.ordered
  refine forall₂_of_map_eq h.shown h.ran.fits fun id here m there same _ fits => ?_
  exact fits.accounts h.ran.linked h.ran.acyclic linked' acyclic' (h.owns.fresh id here).1
    ((h.commented_eq here).trans same) (h.reads.variant_simple h.isType there)

end Merged

/-- For every type and every snippet, whether all of it is added or what is missing: of the members that the snippet
declares, each one that is no type has exactly one entry in the report. It was added as a copy that shows the same tree,
or it repeats a member that cannot be told from it, or it is a constructor and was left out. Behind the old members there
are now the added ones, and nothing else. -/
theorem reports_account_for_all_but_nested_types {a b : Arena} (linked : Linked a) (acyclic : Acyclic a) {again : Bool}
    {type : NodeId} {snippet : String} {report : Report} (made : (add again type snippet).on a = (.ok report, b)) :
    ∃ e : Excerpt, e.Reads a type snippet ∧ ∃ fates : List Fate,
      List.Forall₂ (Fate.Accounts again a type b e.scratch)
        (e.declared.filter fun m => !(e.scratch.variant m).isType) fates ∧
      report = ({} : Report).followed fates ∧ b.members type = a.members type ++ report.added := by
  obtain ⟨e, ids, c, fates, merged, rfl⟩ := (ends_add_merged linked acyclic again type snippet).of_ok made
  exact ⟨e, merged.reads, fates, merged.accounts, rfl, merged.members_eq⟩

def withField : Arena := (Arena.empty.readUnit "A.java" "class A \x7b int x; \x7d").2

theorem ordered_withField : Linked withField ∧ Acyclic withField := by
  have grown := grown_readUnit Arena.empty "A.java" "class A \x7b int x; \x7d"
  exact ⟨grown.linked linked_empty, grown.acyclic acyclic_empty⟩

def fourMembers : String := "int x; int y; A() \x7b \x7d class B \x7b \x7d"

/-- The field `x` is there, `y` is added and the constructor left out; these are all members but the class. -/
theorem reports_account_for_all_but_nested_types_fourMembers : Linked withField ∧ Acyclic withField ∧
      ((add false 2 fourMembers).on withField).1 =
        .ok ⟨[7], [], [1], [⟨.constructor, some "A", .unknownChange .constructor⟩]⟩ ∧
      ∃ e : Excerpt, e.Reads withField 2 fourMembers ∧ ∃ fates : List Fate,
        List.Forall₂ (Fate.Accounts false withField 2 ((add false 2 fourMembers).on withField).2 e.scratch)
          (e.declared.filter fun m => !(e.scratch.variant m).isType) fates ∧
        fates.filterMap Fate.added? = [7] ∧ fates.filterMap Fate.present? = [1] ∧
        ((add false 2 fourMembers).on withField).2.members 2 = withField.members 2 ++ [7] := by
  obtain ⟨linked, acyclic⟩ := ordered_withField
  have outcome : ((add false 2 fourMembers).on withField).1 =
      .ok ⟨[7], [], [1], [⟨.constructor, some "A", .unknownChange .constructor⟩]⟩ := by decide +kernel
  obtain ⟨e, reads, fates, accounts, report, members⟩ :=
    reports_account_for_all_but_nested_types linked acyclic (run_eq_of_ok outcome)
  obtain ⟨added, -, present, -⟩ := Report.mk.inj report
  exact ⟨linked, acyclic, outcome, e, reads, fates, accounts, added.symm, present.symm, members⟩

/-- A class that a snippet declares is nowhere in the report, and is not added. -/
theorem nested_class_is_not_reported :
    (Excerpt.of withField 2 "class B \x7b \x7d" 3).Reads withField 2 "class B \x7b \x7d" ∧
      (Excerpt.of withField 2 "class B \x7b \x7d" 3).declared = [2] ∧
      ((add true 2 "class B \x7b \x7d").on withField).1 = .ok {} ∧
      ((add true 2 "class B \x7b \x7d").on withField).2.members 2 = withField.members 2 := by
  have read : (readAround withField 2 "class B \x7b \x7d").1 = .ok 4 ∧
      (readAround withField 2 "class B \x7b \x7d").2.findFirst 4 (withField.variant 2)
        ((withField.simpleName? 2).getD "") = .ok 3 := by decide +kernel
  exact ⟨Excerpt.reads_of read.1 read.2, by decide +kernel⟩

end Fragment

end JavaEdit
