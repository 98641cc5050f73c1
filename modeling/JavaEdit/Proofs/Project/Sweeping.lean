import JavaEdit.Proofs.Arena.Sweeps
import JavaEdit.Proofs.Project.Placement
import JavaEdit.Proofs.Project.Scope
import JavaEdit.Proofs.Project.Standalone

/-!
# Sweeps over operators

A transform that exchanges operators leaves grafted code as it was written, and knows it by its having
no position. In a loaded project nothing was grafted, but the parser has made copies without a
position (`Loaded.placed`). Those of types hold no operators, so what a sweep misses is in the
annotations of a field that follows another one in the same declaration (`Loaded.shared_annotation`):
there the operator stays and is not counted (`sweep_spares_only_repeated_annotations`).
-/

namespace JavaEdit

open Arena Relation List

theorem Arena.mem_operatorUses_iff {a : Arena} (linked : Linked a) (acyclic : Acyclic a) {roots : List NodeId}
    {op : BinaryOperator} {x : NodeId} :
    x ∈ Transform.operatorUses a roots op ↔ a.Uses roots op x ∧ (a.position x).isReal := by
  unfold Transform.operatorUses
  rw [mem_filter, mem_flatMap]
  simp only [mem_operations_iff linked acyclic, Uses, mem_singleton, exists_eq_left]
  simp only [← and_assoc, exists_and_right]

/-! ## Loaded projects -/

namespace Project

variable {p : Project}

/-- Nodes without a position are in what declarators share. -/
theorem Loaded.placed (loaded : p.Loaded) : Placed [] Arena.empty p.arena := by
  refine loaded.holds (P := fun p => Placed [] Arena.empty p.arena) (.refl _) fun p source role placed => ?_
  refine ends_addUnit (fun _ _ _ => trivial) fun root arena read _ => ?_
  have grown := placed.trans (placed_readUnit read)
  refine (ends_register source.name role _ { p with arena }).mono (fun _ q same => ?_) fun _ _ _ => trivial
  exact same.1 ▸ grown

/-- A type below one of some units. -/
def IsEntry (a : Arena) (units : List ProjectUnit) (id : NodeId) : Prop :=
  (a.variant id).isType = true ∧ ∃ u ∈ units, a.Reaches u.root id

theorem IsEntry.lasts {a b : Arena} {units more : List ProjectUnit} {id : NodeId} (h : IsEntry a units id)
    (lasts : Lasts a b) (sub : units ⊆ more) : IsEntry b more id := by
  obtain ⟨isType, u, unit, reached⟩ := h
  have inside : id < a.size := lt_of_variant_ne fun empty => by simp [empty, Variant.isType] at isType
  exact ⟨by rwa [lasts.variant_eq inside], u, sub unit, lasts.reaches reached⟩

theorem Loaded.entered (loaded : p.Loaded) : ∀ e ∈ p.types.entries, IsEntry p.arena p.units e.2 := by
  refine loaded.holds (P := fun p => ∀ e ∈ p.types.entries, IsEntry p.arena p.units e.2) nofun
    fun p source role entered => ?_
  refine ends_addUnit (fun _ _ _ => trivial) fun root arena read _ => ?_
  have lasts := (placed_readUnit read).toLasts
  let units := p.units ++ [⟨source.name, source.path, root, role⟩]
  have old : ∀ e ∈ p.types.entries, IsEntry arena units e.2 := fun e mem =>
    (entered e mem).lasts lasts (subset_append_left _ _)
  have new : ∀ id ∈ arena.elements root fun a id => (a.variant id).isType, IsEntry arena units id := by
    intro id mem
    obtain ⟨visited, isType⟩ := mem_filter.mp mem
    refine ⟨isType, _, mem_append_right _ (mem_singleton.mpr rfl), ?_⟩
    exact walk_subset (fun _ reached _ child => ReflTransGen.tail reached child) _
      (by simpa using ReflTransGen.refl) _ visited
  refine ((ends_register source.name role _ { p with arena }).and
    (ends_register_all source.name role _ (p := { p with arena }) old new)).mono ?_ fun _ _ _ => trivial
  rintro _ q ⟨⟨sameArena, sameUnits⟩, made⟩
  rw [sameArena, sameUnits]
  exact made

theorem Loaded.addressed (loaded : p.Loaded) (t : Transform) : ∀ root ∈ t.addressed p,
    ((p.arena.variant root).isType = true ∨ p.arena.variant root = .compilationUnit) ∧
      ∃ u ∈ p.units, p.arena.Reaches u.root root := by
  intro root mem
  unfold Transform.addressed at mem
  split at mem
  · obtain ⟨e, entry, rfl⟩ := mem_entries_of_findType? (Option.mem_toList.mp mem)
    obtain ⟨isType, below⟩ := loaded.entered e entry
    exact ⟨.inl isType, below⟩
  · obtain ⟨u, input, rfl⟩ := mem_map.mp mem
    have unit : u ∈ p.units := mem_of_mem_filter input
    exact ⟨.inr (loaded.indexed.heads u unit).isUnit, u, unit, .refl⟩

/-- Nothing lies below two of the nodes that a transform addresses. -/
theorem Loaded.addressed_apart (loaded : p.Loaded) (t : Transform) :
    (t.addressed p).Pairwise fun y z => ∀ x, p.arena.Reaches y x → ¬ p.arena.Reaches z x := by
  have indexed := loaded.indexed
  unfold Transform.addressed
  split
  · rename_i name _
    cases p.findType? name with
    | none => exact .nil
    | some id => exact pairwise_singleton _ _
  · have roots : (p.inputs.map fun u => u.root).Nodup := (filter_sublist.map _).nodup indexed.roots
    refine roots.pairwise_of_forall_ne fun y left z right differ x below below' => ?_
    have detached : ∀ y ∈ p.inputs.map fun u => u.root, p.arena.parent y = none :=
      forall_mem_map.mpr fun u input => (indexed.heads u (mem_of_mem_filter input)).detached
    rcases indexed.linked.reaches_total below below' with above | above
    · exact indexed.linked.not_reaches_of_detached (detached z right) differ.symm above
    · exact indexed.linked.not_reaches_of_detached (detached y left) differ above

/-- Fields and local variables of a unit have types, and there are only inner nodes in their parts. -/
theorem Loaded.parts (loaded : p.Loaded) {u : ProjectUnit} (unit : u ∈ p.units) {id : NodeId}
    (below : p.arena.Reaches u.root id)
    (isVariable : p.arena.variant id = .field ∨ p.arena.variant id = .localVariable) :
    (∀ type ∈ (p.arena.kind id).declaredType?, p.arena.TreeAt (IsType .plain) type) ∧
      ∀ c ∈ p.arena.children id, p.arena.TreeAt (Tree.Every (Detail Made)) c := by
  rcases declaration_or_detail_of_reaches (loaded.written u unit) below with rfl | ⟨rooted, form⟩
  · rw [(loaded.indexed.heads u unit).isUnit] at isVariable
    exact absurd isVariable (by decide)
  · obtain ⟨declared, children⟩ := variable_parts form (by rwa [rooted.variant_commented])
    refine ⟨fun type mem => ?_, fun c child => ⟨rooted.child child, children _ (rooted.commented_mem child)⟩⟩
    have child : type ∈ p.arena.children id :=
      Kind.mem_children_of_mem_shared (mem_append_right _ (Option.mem_toList.mpr mem))
    refine ⟨rooted.child child, declared _ ?_⟩
    rw [rooted.commented_eq, Tree.kind, Kind.declaredType?_map, Option.mem_def.mp mem]
    rfl

end Project

namespace Arena

/-- A node in an annotation of a field below some roots that stands behind another field of its declaration. -/
def InRepeatedNote (a : Arena) (roots : List NodeId) (x : NodeId) : Prop :=
  ∃ owner field note, (∃ root ∈ roots, a.Reaches root owner) ∧ a.Repeats (a.members owner) field ∧
    note ∈ (a.kind field).notes ∧ a.Reaches note x

end Arena

namespace Project

variable {p : Project} {op : BinaryOperator} {x : NodeId}

/-- Uses of an operator without a position are in the annotations of fields behind the first of their
declaration. -/
theorem Loaded.inRepeatedNote (loaded : p.Loaded) {t : Transform} (uses : p.arena.Uses (t.addressed p) op x)
    (synthetic : (p.arena.position x).isReal = false) : p.arena.InRepeatedNote (t.addressed p) x := by
  have indexed := loaded.indexed
  have linked := indexed.linked
  obtain ⟨⟨root, here, above⟩, left, right, binary⟩ := uses
  obtain ⟨isRoot, u, unit, reached⟩ := loaded.addressed t root here
  have inside : x < p.arena.size := lt_of_variant_ne (by rw [Arena.variant, binary]; rintro ⟨⟩)
  obtain ⟨id, declares, part, mem, below⟩ := loaded.placed.shared x (Nat.zero_le x) inside synthetic
  have child := Kind.mem_children_of_mem_shared mem
  have isVariable : p.arena.variant id = .field ∨ p.arena.variant id = .localVariable := by
    rcases declares with isLocal | ⟨_, none, _⟩ | ⟨owner, _, _, _, isField, _⟩
    · exact .inr isLocal
    · cases none
    · exact .inl isField
  -- the variable is below the unit, which is detached
  have inUnit : p.arena.Reaches u.root id := by
    rcases linked.reaches_total (reached.trans above) (below.head child) with down | up
    · exact down
    · by_cases same : u.root = id
      · exact same ▸ .refl
      · exact absurd up (linked.not_reaches_of_detached (indexed.heads u unit).detached same)
  obtain ⟨declared, parts⟩ := loaded.parts unit inUnit isVariable
  rcases mem_append.mp mem with isNote | isType
  · -- types and units are not inside annotations, so the field and its owner are below the root
    have outside : ¬ p.arena.Reaches part root := by
      intro up
      have detail := (parts part child).every_reaches up
      have notType := detail.notType
      have notUnit := detail.notUnit
      rw [Kind.variant_map] at notType notUnit
      exact isRoot.elim (Bool.eq_false_iff.mp notType) notUnit
    have isField : p.arena.variant id = .field := Kind.variant_of_mem_notes isNote
    rcases declares with isLocal | ⟨_, none, _⟩ | ⟨owner, repeats⟩
    · cases isLocal.symm.trans isField
    · cases none
    · have aboveNote := (linked.reaches_total above below).resolve_right outside
      have aboveField := linked.reaches_parent aboveNote (fun same => outside (same ▸ .refl)) child
      have notField : root ≠ id := fun same => by
        rw [same, isField] at isRoot
        exact absurd isRoot (by decide)
      have aboveOwner := linked.reaches_parent aboveField notField (Kind.mem_children_of_mem_members repeats.mem)
      exact ⟨owner, id, part, ⟨root, here, aboveOwner⟩, repeats, isNote, below⟩
  · have types := ((declared part (Option.mem_toList.mp isType)).mono fun _ => IsType.every).every_reaches below
    rw [binary] at types
    exact absurd types (by simp [Kind.map, Kind.shape, Kind.variant])

theorem Loaded.nodup_operatorUses (loaded : p.Loaded) (t : Transform) (op : BinaryOperator) :
    (Transform.operatorUses p.arena (t.addressed p) op).Nodup := by
  have indexed := loaded.indexed
  have below : ∀ root x, x ∈ p.arena.elements root (isOperation op) → p.arena.Reaches root x := fun root x mem =>
    (mem_preorder_iff indexed.linked indexed.acyclic).mp
      (mem_preorder_of_mem_elements indexed.linked indexed.acyclic mem)
  refine List.Nodup.filter _ (nodup_flatMap.mpr ⟨fun root _ => ?_, ?_⟩)
  · exact nodup_operations indexed.linked indexed.acyclic root op
  · refine (loaded.addressed_apart t).imp fun apart => disjoint_left.mpr fun x here there => ?_
    exact apart x (below _ x here) (below _ x there)

theorem ends_apply_sweep {t : Transform} {old new : String} {op op' : BinaryOperator}
    (operation : t.operation = .replaceOperator old new) (readOld : BinaryOperator.read old = .ok op)
    (readNew : BinaryOperator.read new = .ok op') {good : TransformResult → Project → Prop}
    (swept : good (.counted (Transform.operatorUses p.arena (t.addressed p) op).length)
      { p with arena := Edit.sweep op' (Transform.operatorUses p.arena (t.addressed p) op) p.arena }) :
    Ends t.apply p good fun _ _ => True := by
  unfold Transform.apply
  simp only [operation, readOld, readNew, ends_bind, Change.ends_ofExcept]
  refine Transform.ends_sweepRoots (fun _ => trivial) ?_
  exact swept

/-- In a loaded project an exchange of operators is made to the uses of the operator with a position, each counted once,
and changes nothing but their operators. The uses that stay are those without a position, and they all are in
annotations of fields that stand behind another one in the same declaration. -/
theorem sweep_spares_only_repeated_annotations (loaded : p.Loaded) {t : Transform} {old new : String}
    {op op' : BinaryOperator} (operation : t.operation = .replaceOperator old new)
    (readOld : BinaryOperator.read old = .ok op) (readNew : BinaryOperator.read new = .ok op') (differ : op' ≠ op)
    {result : TransformResult} {q : Project} (made : t.apply.on p = (.ok result, q)) :
    ∃ swept : List NodeId, swept.Nodup ∧ result.changes = swept.length ∧
      (∀ x, x ∈ swept ↔ p.arena.Uses (t.addressed p) op x ∧ (p.arena.position x).isReal = true) ∧
      q.units = p.units ∧ q.types = p.types ∧
      (∀ x, q.arena.node x =
        if x ∈ swept then { p.arena.node x with kind := (p.arena.kind x).withOperator op' } else p.arena.node x) ∧
      (∀ x, q.arena.Uses (t.addressed p) op x ↔ p.arena.Uses (t.addressed p) op x ∧ x ∉ swept) ∧
      ∀ x, q.arena.Uses (t.addressed p) op x → p.arena.InRepeatedNote (t.addressed p) x := by
  have indexed := loaded.indexed
  let swept := Transform.operatorUses p.arena (t.addressed p) op
  have found : ∀ x, x ∈ swept ↔ p.arena.Uses (t.addressed p) op x ∧ (p.arena.position x).isReal = true := fun x =>
    mem_operatorUses_iff indexed.linked indexed.acyclic
  have ended : Ends t.apply p (fun result q => result.changes = swept.length ∧
      q = { p with arena := Edit.sweep op' swept p.arena }) fun _ _ => True :=
    ends_apply_sweep operation readOld readNew ⟨TransformResult.changes_counted _, rfl⟩
  obtain ⟨changes, rfl⟩ := ended.of_ok made
  have left : ∀ x, (Edit.sweep op' swept p.arena).Uses (t.addressed p) op x ↔
      p.arena.Uses (t.addressed p) op x ∧ x ∉ swept := fun x => by
    simp only [uses_sweep, differ.symm, and_false, or_false]
  refine ⟨swept, loaded.nodup_operatorUses t op, changes, found, rfl, rfl, node_sweep op' swept p.arena, left,
    fun x stays => ?_⟩
  obtain ⟨uses, missed⟩ := (left x).mp stays
  refine loaded.inRepeatedNote uses (Bool.eq_false_iff.mpr fun real => missed ((found x).mpr ⟨uses, real⟩))

/-- Two fields with one annotation, and a use of the operator in the initial value of the second one. -/
def annotated : Project :=
  ((addUnit ⟨"A.java", none, "class A \x7b @V(1 + 2) int x, y = 3 + 4; \x7d"⟩ .input).run.run empty).2

theorem loaded_annotated : annotated.Loaded := .unit .empty (by decide +kernel)

/-- All three uses are below the unit. The one in the copy has no position, so it stays, and is in the annotation of the
second field. -/
theorem sweep_spares_only_repeated_annotations_annotated : annotated.Loaded ∧ differences.addressed annotated = [16] ∧
      annotated.arena.elements 16 (isOperation .plus) = [2, 12, 7] ∧
      (differences.apply.on annotated).1 = .ok (.applied 2) ∧
      annotated.arena.InRepeatedNote (differences.addressed annotated) 12 := by
  have run : differences.addressed annotated = [16] ∧ annotated.arena.elements 16 (isOperation .plus) = [2, 12, 7] ∧
      (differences.apply.on annotated).1 = .ok (.applied 2) ∧ annotated.arena.kind 12 = .binary .plus 10 11 ∧
      (annotated.arena.position 12).isReal = false := by decide +kernel
  obtain ⟨addressed, elements, outcome, binary, synthetic⟩ := run
  obtain ⟨swept, _, _, found, _, _, _, stays, inNote⟩ :=
    sweep_spares_only_repeated_annotations loaded_annotated rfl (show BinaryOperator.read "+" = .ok .plus by decide)
      (show BinaryOperator.read "-" = .ok .minus by decide) (by decide) (run_eq_of_ok outcome)
  have indexed := loaded_annotated.indexed
  have member : 12 ∈ annotated.arena.elements 16 (isOperation .plus) := by simp [elements]
  have below : annotated.arena.Reaches 16 12 := (mem_preorder_iff indexed.linked indexed.acyclic).mp
    (mem_preorder_of_mem_elements indexed.linked indexed.acyclic member)
  have uses : annotated.arena.Uses (differences.addressed annotated) .plus 12 :=
    ⟨⟨16, by simp [addressed], below⟩, 10, 11, binary⟩
  have missed : 12 ∉ swept := fun member =>
    Bool.eq_false_iff.mp synthetic ((found 12).mp member).2
  exact ⟨loaded_annotated, addressed, elements, outcome, inNote 12 ((stays 12).mpr ⟨uses, missed⟩)⟩

/-- Of the three uses in the source two are counted, and one is still there behind the exchange. -/
theorem sweep_misses_repeated_annotation :
    annotated.Loaded ∧ (annotated.arena.elements 16 (isOperation .plus)).length = 3 ∧
      (differences.apply.on annotated).1 = .ok (.applied 2) ∧
      (differences.apply.on annotated).2.arena.elements 16 (isOperation .plus) = [12] :=
  ⟨loaded_annotated, by decide +kernel⟩

end Project

end JavaEdit
