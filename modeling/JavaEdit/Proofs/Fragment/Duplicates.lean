import JavaEdit.Proofs.Accepted.Equality
import JavaEdit.Proofs.Fragment.Reports
import JavaEdit.Proofs.Machine.Members

/-!
# Missing members and programs

Of a snippet those members are added that a type does not declare already. Whether it does is decided by what
is written: methods are the same if their names and the types of their parameters are written alike
(`Tree.signature?_eq_iff`). A program tells methods apart by erased types, and it does not tell a method from a
constructor with its name. So a class that is a program may be none with a missing member added to it; but this
is the only way that members are doubled (`missing_code_is_doubled_only_by_erasure`).
-/

namespace JavaEdit

open Arena Fragment Layout List

/-! ## Written signatures -/

section Written

variable {ok : Page → Prop} {owner owner' : Option String} {t u : Page}

theorem IsDeclaration.written (h : IsDeclaration ok owner t) (callable : t.kind.isCallable) :
    ∃ name, t.kind.simpleName? = some name ∧ Lexer.isName name ∧ (∀ s ∈ t.parameterTypes, IsType .argument s) ∧
      ∃ text, t.signature? = some text ∧
        text.toList = name.toList ++ '(' :: (listChars [] t.parameterTypes ++ [')']) := by
  obtain ⟨name, named, isName, each, -⟩ := h.callable callable
  have types : t.kind.parameters.map Tree.parameterType = t.parameterTypes.map Tree.text := by
    unfold Tree.parameterTypes
    rw [List.map_map]
    refine map_congr_left fun p mem => ?_
    obtain ⟨_, _, _, _⟩ := each p mem
    rfl
  refine ⟨name, named, isName, forall_mem_map.mpr fun p mem => ?_, ?_⟩
  · obtain ⟨_, -, isType⟩ := (each p mem).ofTree?
    exact isType.argument
  · refine ⟨name ++ "(" ++ ",".intercalate (t.parameterTypes.map Tree.text) ++ ")", ?_, ?_⟩
    · rw [← types]
      cases h with
      | method | constructor =>
        cases named
        rfl
      | classDecl | interfaceDecl | field => cases callable
    · simp [listChars, String.toList_append, String.toList_intercalate, Function.comp_def]
      rfl

/-- Methods and constructors are written alike if they have the same name and the same types of parameters. -/
theorem Tree.signature?_eq_iff (h : IsDeclaration ok owner t) (h' : IsDeclaration ok owner' u)
    (callable : t.kind.isCallable) (callable' : u.kind.isCallable) :
    t.signature? = u.signature? ↔ t.kind.simpleName? = u.kind.simpleName? ∧ t.parameterTypes = u.parameterTypes := by
  obtain ⟨name, named, isName, types, text, written, chars_eq⟩ := h.written callable
  obtain ⟨name', named', isName', types', text', written', chars_eq'⟩ := h'.written callable'
  rw [written, written', named, named', Option.some_inj, Option.some_inj]
  constructor
  · rintro rfl
    obtain ⟨sameName, sameList⟩ := eq_of_call_eq isName isName' (chars_eq.symm.trans chars_eq')
    exact ⟨sameName, eq_of_listChars_eq types types' sameList⟩
  · rintro ⟨rfl, same⟩
    rw [← String.toList_inj, chars_eq, chars_eq', same]

/-- If they are written alike, then a program takes them for the same exactly if the same parameters have dots. -/
theorem Tree.erased_eq_iff_dots_eq (h : IsDeclaration ok owner t) (h' : IsDeclaration ok owner' u)
    (callable : t.kind.isCallable) (callable' : u.kind.isCallable) (same : t.signature? = u.signature?) :
    ClassInfo.signature? t.bare = ClassInfo.signature? u.bare ↔ t.dots = u.dots := by
  obtain ⟨name, types⟩ := (signature?_eq_iff h h' callable callable').mp same
  obtain ⟨-, -, -, each, -⟩ := h.callable callable
  obtain ⟨-, -, -, each', -⟩ := h'.callable callable'
  rw [JavaEdit.signature?_eq_iff h h' callable callable']
  exact (and_iff_right name).trans (erasures_eq_iff types each each')

end Written

/-! ## Types with more members -/

theorem Kind.mapMembers?_map {α β : Type} {f : α → β} {k k' : Kind α} {xs : List α}
    (more : k.mapMembers? (· ++ xs) = some k') : (k.map f).mapMembers? (· ++ xs.map f) = some (k'.map f) := by
  cases k with
  | classDecl | interfaceDecl =>
    cases more
    simp [Kind.map, Kind.mapMembers?]
  | _ => cases more

variable {b : Arena}

/-- What was there shows the same trees in a larger arena. -/
theorem Arena.Grown.commented_eq {a : Arena} (h : Grown a b) (linked : Linked a) (acyclic : Acyclic a) {x : NodeId}
    (old : x < a.size) : b.commented x = a.commented x := by
  induction x using linked.induct acyclic with
  | step x ih =>
    rw [(h.linked linked).commented_eq (h.acyclic acyclic), linked.commented_eq acyclic, comments, comments, Arena.kind,
      Arena.kind, h.node_eq old]
    exact congrArg _ (Kind.map_congr fun c child => ih c child (linked.child_lt child))

namespace Fragment

section Merged

variable {again : Bool} {a b c : Arena} {type : NodeId} {snippet : String} {e : Excerpt} {ids : List NodeId}
  {fates : List Fate} (h : Merged again a type snippet e ids c fates b)
include h

theorem Merged.kind_type : c.kind type = a.kind type := by
  rw [Arena.kind, Arena.kind, h.owns.grown.node_eq h.offered.old]

/-- The parts of the type show the same trees as before. -/
theorem Merged.commented_old (linked : Linked a) (acyclic : Acyclic a) {x : NodeId} (child : x ∈ a.children type) :
    b.commented x = a.commented x := by
  have apart : ¬ c.Reaches x type := by
    refine h.offered.acyclic.not_reaches_parent h.offered.linked ?_
    rw [Arena.children, h.kind_type]
    exact child
  rw [h.ran.joins.commented_eq h.offered.linked h.offered.acyclic h.ran.linked h.ran.acyclic apart]
  exact h.owns.grown.commented_eq linked acyclic (linked.child_lt child)

theorem Merged.bare_members (linked : Linked a) (acyclic : Acyclic a) :
    (a.members type).map a.bare = (a.members type).map b.bare := by
  refine map_congr_left fun m mem => ?_
  rw [Arena.bare_eq, Arena.bare_eq, h.commented_old linked acyclic (Kind.mem_children_of_mem_members mem)]

theorem Merged.bare_more (linked : Linked a) (acyclic : Acyclic a) :
    ((a.kind type).map a.bare).mapMembers? (· ++ (fates.filterMap Fate.added?).map b.bare) =
      some ((b.kind type).map b.bare) := by
  have more := Kind.mapMembers?_map (f := b.bare) h.ran.joins.members
  rw [h.kind_type] at more
  rw [← more]
  refine congrArg (Kind.mapMembers? _) (Kind.map_congr fun x child => ?_)
  rw [Arena.bare_eq, Arena.bare_eq, h.commented_old linked acyclic child]

end Merged

/-- A member and a method behind it that have one signature in a program, though they are not written alike. -/
structure Clash (b : Arena) (type : NodeId) (s : String) (k m : NodeId) : Prop where
  order : [k, m].Sublist (b.members type)
  isMethod : b.variant m = .method
  first : ClassInfo.signature? (b.bare k) = some s
  second : ClassInfo.signature? (b.bare m) = some s
  apart : ¬ b.Same k m

theorem variant_bare (linked : Linked b) (acyclic : Acyclic b) (m : NodeId) :
    (b.bare m).variant = b.variant m := by
  rw [linked.bare_eq acyclic]
  exact Kind.variant_map ..

theorem field_of_fieldName? (linked : Linked b) (acyclic : Acyclic b) {k : NodeId} {name : String}
    (taken : ClassInfo.fieldName? (b.bare k) = some name) : b.variant k = .field ∧ signature? b k = some name := by
  rw [linked.bare_eq acyclic] at taken
  unfold Arena.variant signature?
  cases kind : b.kind k with
  | field =>
    rw [kind] at taken
    exact ⟨rfl, taken⟩
  | _ =>
    rw [kind] at taken
    cases taken

variable {m : NodeId}

section Loaded

variable {a b c : Arena} {type : NodeId} {snippet : String} {e : Excerpt} {ids : List NodeId} {fates : List Fate}
  (h : Merged false a type snippet e ids c fates b)
include h

theorem Merged.not_same {before after : List NodeId} (added : fates.filterMap Fate.added? = before ++ m :: after) :
    ∀ k ∈ a.members type ++ before, ¬ b.Same k m := by
  obtain ⟨old, new⟩ := h.ran.distinct rfl
  rw [added] at old new
  refine forall_mem_append.mpr ⟨fun k mem => ?_, fun k mem => ?_⟩
  · refine old k ?_ m (mem_append_right _ (.head _))
    rwa [Arena.members, h.kind_type]
  · exact (pairwise_append.mp new).2.2 k mem m (.head _)

theorem Merged.exists_added (added : m ∈ fates.filterMap Fate.added?) :
    ∃ x ∈ e.simple, b.commented m = e.scratch.commented x ∧ (b.variant m = .field ∨ b.variant m = .method) := by
  obtain ⟨fate, mem, is⟩ := mem_filterMap.mp added
  obtain ⟨x, declared, accounts⟩ := forall₂_mem_right h.accounts mem
  obtain rfl : fate = .added m := by
    cases fate with
    | added => exact congrArg _ (Option.some.inj is)
    | present | skipped => cases is
  obtain ⟨-, shown, isMember⟩ := accounts
  obtain ⟨linked, acyclic⟩ := h.reads.ordered
  refine ⟨x, declared, shown, ?_⟩
  rwa [← h.ran.linked.variant_commented h.ran.acyclic, shown, linked.variant_commented acyclic]

theorem Merged.loaded (linked : Linked a) (acyclic : Acyclic a) {outer : Option String} {info : ClassInfo}
    (loads : ClassInfo.ofTree outer (a.bare type) = .ok info) :
    (∀ info', ClassInfo.ofTree outer (b.bare type) = .ok info' → ∀ s k m, ¬ Clash b type s k m) ∧
    (∀ e, ClassInfo.ofTree outer (b.bare type) = .error e → ∃ m ∈ fates.filterMap Fate.added?, b.variant m = .method ∧
      ((∃ name, e = .missingBody info.name name ∧ (b.kind m).body? = none) ∨
        ∃ s k, e = .duplicateMethod s info.name ∧ Clash b type s k m)) := by
  rw [linked.bare_eq acyclic] at loads
  rw [h.ran.linked.bare_eq h.ran.acyclic]
  have spec := ClassInfo.ofTree_more_spec (h.bare_more linked acyclic) loads
  rw [Kind.members_map, show (a.kind type).members.map a.bare = _ from h.bare_members linked acyclic] at spec
  refine ⟨fun info' loaded s k m clash => ?_, fun e loaded => ?_⟩ <;> rw [loaded] at spec
  · rw [← map_append, ← h.members_eq] at spec
    have twice := (clash.order.map b.bare).filterMap ClassInfo.signature?
    rw [map_cons, filterMap_cons_some clash.first, map_cons, filterMap_cons_some clash.second] at twice
    exact nodup_iff_sublist.mp spec s twice
  · obtain ⟨_, t, _, split, refused⟩ := spec
    obtain ⟨before, later, added, rfl, here⟩ := map_eq_append_iff.mp split
    obtain ⟨m, after, rfl, rfl, -⟩ := map_eq_cons_iff.mp here
    rw [← map_append] at refused
    have isAdded : m ∈ fates.filterMap Fate.added? := added ▸ mem_append_right _ (.head _)
    have apart := h.not_same added
    refine ⟨m, isAdded, ?_⟩
    cases refused with
    | field name taken =>
      -- a field of the same name is written alike
      obtain ⟨_, mem, name'⟩ := mem_filterMap.mp taken
      obtain ⟨k, before, rfl⟩ := mem_map.mp mem
      obtain ⟨variant, signature⟩ := field_of_fieldName? h.ran.linked h.ran.acyclic name
      obtain ⟨variant', signature'⟩ := field_of_fieldName? h.ran.linked h.ran.acyclic name'
      exact absurd ⟨variant'.trans variant.symm, signature'.trans signature.symm⟩ (apart k before)
    | method isMethod signature taken =>
      rw [variant_bare h.ran.linked h.ran.acyclic] at isMethod
      obtain ⟨_, mem, signature'⟩ := mem_filterMap.mp taken
      obtain ⟨k, earlier, rfl⟩ := mem_map.mp mem
      refine ⟨isMethod, .inr ⟨_, k, rfl, ?_, isMethod, signature', signature, apart k earlier⟩⟩
      rw [h.members_eq, added, ← append_assoc]
      exact (singleton_sublist.mpr earlier).append (singleton_sublist.mpr (.head _))
    | constructor isConstructor =>
      rw [variant_bare h.ran.linked h.ran.acyclic] at isConstructor
      obtain ⟨_, -, -, isField | isMethod⟩ := h.exists_added isAdded
      · cases isField.symm.trans isConstructor
      · cases isMethod.symm.trans isConstructor
    | body isMethod name missing =>
      rw [variant_bare h.ran.linked h.ran.acyclic] at isMethod
      rw [h.ran.linked.bare_eq h.ran.acyclic, Tree.kind, Kind.body?_map, Option.map_eq_none_iff] at missing
      exact ⟨isMethod, .inl ⟨_, rfl, missing⟩⟩

theorem Merged.isDeclaration (linked : Linked a) (acyclic : Acyclic a)
    (isType : a.TreeAt (fun t => ∃ owner, IsDeclaration Made owner t) type) (mem : m ∈ b.members type) :
    ∃ owner, IsDeclaration Made owner (b.commented m) := by
  rw [h.members_eq] at mem
  rcases mem_append.mp mem with old | added
  · rw [h.commented_old linked acyclic (Kind.mem_children_of_mem_members old)]
    exact (isType.member old).1.2
  · obtain ⟨x, declared, shown, -⟩ := h.exists_added added
    rw [shown]
    exact h.reads.isDeclaration_simple h.isType declared

end Loaded

theorem isCallable_of_signature? {t : Page} {s : String} (h : ClassInfo.signature? t.bare = some s) :
    t.kind.isCallable := by
  obtain ⟨label, kind⟩ := t
  cases kind with
  | method | constructor => rfl
  | _ => cases h

theorem variant_of_isCallable {t : Page} (callable : t.kind.isCallable) :
    t.variant = .constructor ∨ t.variant = .method := by
  obtain ⟨label, kind⟩ := t
  cases kind with
  | method => exact .inr rfl
  | constructor => exact .inl rfl
  | _ => cases callable

/-- A method or constructor and a method that a program takes for the same: the simple names of the types and their
dimensions are the same, with dots for one. But the first one is a constructor, or the types are written differently. -/
structure ErasedAlike (t u : Page) : Prop where
  name : t.kind.simpleName? = u.kind.simpleName?
  erasures : t.erasures = u.erasures
  apart : t.variant = .constructor ∨ t.variant = .method ∧ t.parameterTypes ≠ u.parameterTypes

/-- Methods that are written alike; a program takes them for the same if the same parameters have dots. -/
structure WrittenAlike (t u : Page) : Prop where
  name : t.kind.simpleName? = u.kind.simpleName?
  types : t.parameterTypes = u.parameterTypes
  erased : ClassInfo.signature? t.bare = ClassInfo.signature? u.bare ↔ t.dots = u.dots

theorem Clash.erasedAlike (linked : Linked b) (acyclic : Acyclic b) {type k : NodeId} {s : String}
    (clash : Clash b type s k m) (members : ∀ m ∈ b.members type, ∃ owner, IsDeclaration Made owner (b.commented m)) :
    ErasedAlike (b.commented k) (b.commented m) := by
  obtain ⟨order, isMethod, first, second, apart⟩ := clash
  rw [Arena.bare_eq] at first second
  obtain ⟨_, isFirst⟩ := members k (order.subset (.head _))
  obtain ⟨_, isSecond⟩ := members m (order.subset (.tail _ (.head _)))
  have callable := isCallable_of_signature? first
  have callable' := isCallable_of_signature? second
  obtain ⟨name, erasures⟩ := (signature?_eq_iff isFirst isSecond callable callable').mp (first.trans second.symm)
  refine ⟨name, erasures, ?_⟩
  refine (variant_of_isCallable callable).imp_right fun isMethod' => ⟨isMethod', fun types => apart ⟨?_, ?_⟩⟩
  · rw [← linked.variant_commented acyclic, isMethod', isMethod]
  · rw [linked.signature?_eq acyclic, linked.signature?_eq acyclic]
    exact (Tree.signature?_eq_iff isFirst isSecond callable callable').mpr ⟨name, types⟩

theorem writtenAlike {t u : Page} {owner owner' : Option String} (h : IsDeclaration Made owner t)
    (h' : IsDeclaration Made owner' u) (isMethod : t.variant = .method) (isMethod' : u.variant = .method)
    (same : t.signature? = u.signature?) : WrittenAlike t u := by
  have callable : ∀ {t : Page}, t.variant = .method → t.kind.isCallable := by
    rintro ⟨_, kind⟩ isMethod
    cases kind with
    | method => rfl
    | _ => cases isMethod
  obtain ⟨name, types⟩ := (Tree.signature?_eq_iff h h' (callable isMethod) (callable isMethod')).mp same
  exact ⟨name, types, Tree.erased_eq_iff_dots_eq h h' (callable isMethod) (callable isMethod') same⟩

/-- For every type that can be loaded into a program and every snippet whose missing members are added to it: it can be
loaded again unless two members clash, and it fails for no other reason than a clash or a missing body of an added
method. In a type of the grammar, a clash is one of erased types or with a constructor, and a method of the snippet that
was there already has the same signature in a program exactly if the same parameters have dots. -/
theorem missing_code_is_doubled_only_by_erasure {a b : Arena} (linked : Linked a) (acyclic : Acyclic a) {type : NodeId}
    {snippet : String} {outer : Option String} {info : ClassInfo} {report : Report}
    (loads : ClassInfo.ofTree outer (a.bare type) = .ok info)
    (made : (addMissingCode type snippet).on a = (.ok report, b)) :
    (∀ info', ClassInfo.ofTree outer (b.bare type) = .ok info' → ∀ s k m, ¬ Clash b type s k m) ∧
    (∀ e, ClassInfo.ofTree outer (b.bare type) = .error e → ∃ m ∈ report.added, b.variant m = .method ∧
      ((∃ name, e = .missingBody info.name name ∧ (b.kind m).body? = none) ∨
        ∃ s k, e = .duplicateMethod s info.name ∧ Clash b type s k m)) ∧
    (a.TreeAt (fun t => ∃ owner, IsDeclaration Made owner t) type →
      (∀ s k m, Clash b type s k m → ErasedAlike (b.commented k) (b.commented m)) ∧
      ∃ e : Excerpt, e.Reads a type snippet ∧ ∃ fates, report = ({} : Report).followed fates ∧
        List.Forall₂ (fun x fate => ∀ m, fate = Fate.present m → e.scratch.variant x = .method →
          m ∈ b.members type ∧ WrittenAlike (b.commented m) (e.scratch.commented x)) e.simple fates) := by
  obtain ⟨e, ids, c, fates, merged, rfl⟩ := (ends_add_merged linked acyclic false type snippet).of_ok made
  obtain ⟨loaded, failed⟩ := merged.loaded linked acyclic loads
  refine ⟨loaded, failed, fun isType => ?_⟩
  have members := fun m member => merged.isDeclaration linked acyclic isType (m := m) member
  refine ⟨fun s k m clash => clash.erasedAlike merged.ran.linked merged.ran.acyclic members,
    e, merged.reads, fates, rfl, ?_⟩
  refine forall₂_of_map_eq (f := id) (g := id) rfl merged.accounts fun x declared _ _ same fate accounts m present isMethod => ?_
  obtain rfl : x = _ := same
  subst present
  obtain ⟨-, member, variant, signature⟩ := accounts
  obtain ⟨linked', acyclic'⟩ := merged.reads.ordered
  obtain ⟨_, isMember⟩ := members m member
  obtain ⟨_, isDeclared⟩ := merged.reads.isDeclaration_simple merged.isType declared
  refine ⟨member, writtenAlike isMember isDeclared ?_ ?_ ?_⟩
  · rw [merged.ran.linked.variant_commented merged.ran.acyclic, variant, isMethod]
  · rw [linked'.variant_commented acyclic', isMethod]
  · rw [← merged.ran.linked.signature?_eq merged.ran.acyclic, signature, linked'.signature?_eq acyclic']

/-- A class whose one method has a parameter with dots. -/
def withDots : Arena := (Arena.empty.readUnit "A.java" "class A \x7b void m(int... a) \x7b \x7d \x7d").2

/-- A method with an array in its place, and one with a single value. -/
def twoMethods : String := "void m(int[] a) \x7b \x7d void m(int a) \x7b \x7d"

theorem outcome_twoMethods : ((addMissingCode 5 twoMethods).on withDots).1 = .ok ⟨[11], [], [4], []⟩ ∧
    (ClassInfo.ofTree none (withDots.bare 5)).isOk ∧
    failure? (ClassInfo.ofTree none (((addMissingCode 5 twoMethods).on withDots).2.bare 5)) =
      some (.duplicateMethod "m(int[])" "A") := by
  decide +kernel

theorem isDeclaration_withDots : withDots.TreeAt (fun t => ∃ owner, IsDeclaration Made owner t) 5 := by
  have read : (Arena.empty.readUnit "A.java" "class A \x7b void m(int... a) \x7b \x7d \x7d").1 = .ok 6 ∧
      5 ∈ withDots.children 6 ∧ (withDots.variant 5).isType := by decide +kernel
  exact isDeclaration_of_below (isUnit_of_readUnit (run_eq_of_ok read.1)) (.single read.2.1) read.2.2

/-- The method with an array is added and clashes with the one with dots; the method with a single value is taken for
that one. -/
theorem missing_code_is_doubled_only_by_erasure_twoMethods :
    Linked withDots ∧ Acyclic withDots ∧ (∃ info, ClassInfo.ofTree none (withDots.bare 5) = .ok info) ∧
      ((addMissingCode 5 twoMethods).on withDots).1 = .ok ⟨[11], [], [4], []⟩ ∧
      withDots.TreeAt (fun t => ∃ owner, IsDeclaration Made owner t) 5 ∧
      (∃ k, Clash ((addMissingCode 5 twoMethods).on withDots).2 5 "m(int[])" k 11 ∧ ErasedAlike (((addMissingCode 5 twoMethods).on withDots).2.commented k) (((addMissingCode 5 twoMethods).on withDots).2.commented 11)) ∧
      ∃ e : Excerpt, e.Reads withDots 5 twoMethods ∧ ∃ fates, fates.filterMap Fate.present? = [4] ∧
        List.Forall₂ (fun x fate => ∀ m, fate = Fate.present m → e.scratch.variant x = .method →
          m ∈ ((addMissingCode 5 twoMethods).on withDots).2.members 5 ∧ WrittenAlike (((addMissingCode 5 twoMethods).on withDots).2.commented m) (e.scratch.commented x)) e.simple fates := by
  have grown := grown_readUnit Arena.empty "A.java" "class A \x7b void m(int... a) \x7b \x7d \x7d"
  have linked : Linked withDots := grown.linked linked_empty
  have acyclic : Acyclic withDots := grown.acyclic acyclic_empty
  obtain ⟨outcome, before, after⟩ := outcome_twoMethods
  obtain ⟨info, loads⟩ := exists_ok_of_isOk before
  obtain ⟨-, failed, grammar⟩ := missing_code_is_doubled_only_by_erasure linked acyclic loads (run_eq_of_ok outcome)
  obtain ⟨clashes, e, reads, fates, report, present⟩ := grammar isDeclaration_withDots
  refine ⟨linked, acyclic, ⟨info, loads⟩, outcome, isDeclaration_withDots, ?_, e, reads, fates,
    (Report.mk.inj report).2.2.1.symm, present⟩
  obtain ⟨m, added, -, ⟨_, missing, -⟩ | ⟨s, k, duplicate, clash⟩⟩ := failed _ (eq_error_of_failure? after)
  · cases missing
  · obtain rfl := List.mem_singleton.mp added
    obtain ⟨rfl, -⟩ := LoadError.duplicateMethod.inj duplicate
    exact ⟨k, clash, clashes _ k _ clash⟩

/-- A class that is a program is none with a missing method added: dots are brackets to a program and not to an
addition, which also takes the method with a single value for the one with dots. -/
theorem method_with_dots_is_doubled : (ClassInfo.ofTree none (withDots.bare 5)).isOk = true ∧
      ((addMissingCode 5 twoMethods).on withDots).1 = .ok ⟨[11], [], [4], []⟩ ∧
      ClassInfo.ofTree none (((addMissingCode 5 twoMethods).on withDots).2.bare 5) = .error (.duplicateMethod "m(int[])" "A") := by
  obtain ⟨outcome, before, after⟩ := outcome_twoMethods
  exact ⟨before, outcome, eq_error_of_failure? after⟩

end Fragment

end JavaEdit
