import JavaEdit.Proofs.Project.Index

/-!
# Units that are refused

A text that cannot be read as a unit leaves units, types and all look-ups of a project as they were.
So does a unit with a duplicate type, except for the index: the types in front of the duplicate have
been registered by then and stay, although their unit is not part of the project
(`refused_unit_leaves_all_but_earlier_types`). The index is what it was exactly if the duplicate is
the first type of the unit.
-/

namespace JavaEdit

open Arena Relation List

variable {id : NodeId} {name : String}

namespace TypeIndex

theorem mem_insertEntry {entries : List (String × NodeId)}
    {entry : String × NodeId} (h : entry ∈ insertEntry name id entries) : entry = (name, id) ∨ entry ∈ entries := by
  induction entries with
  | nil => exact .inl (mem_singleton.mp h)
  | cons first rest ih =>
    rw [insertEntry] at h
    split at h
    · exact (mem_cons.mp h).imp_right (mem_cons_of_mem _)
    · split at h
      · exact mem_cons.mp h
      · rcases mem_cons.mp h with rfl | later
        · exact .inr (.head _)
        · exact (ih later).imp_right (mem_cons_of_mem _)

theorem mem_entries_of_get? {index : TypeIndex} (h : index.get? name = some id) : (name, id) ∈ index.entries := by
  obtain ⟨before, after, parts, -⟩ := lookup_eq_some_iff.mp h
  rw [parts]
  simp

end TypeIndex

namespace Project

variable {p : Project}

/-- Every entry of the index is a node of the arena. -/
def Entered (p : Project) : Prop := ∀ entry ∈ p.types.entries, entry.2 < p.arena.size

theorem ends_register_all {P : NodeId → Prop} (unitName : String) (role : UnitRole) (ids : List NodeId)
    (h : ∀ entry ∈ p.types.entries, P entry.2) (given : ∀ id ∈ ids, P id) :
    Ends (register unitName role ids) p (fun _ q => ∀ entry ∈ q.types.entries, P entry.2)
      fun _ q => ∀ entry ∈ q.types.entries, P entry.2 := by
  induction ids generalizing p with
  | nil => exact h
  | cons id rest ih =>
    obtain ⟨here, later⟩ := forall_mem_cons.mp given
    have inserted : ∀ name, ∀ entry ∈ (p.types.insert name id).entries, P entry.2 := by
      intro name entry mem
      rcases TypeIndex.mem_insertEntry mem with rfl | old
      · exact here
      · exact h entry old
    rw [register, ends_bind, ends_get]
    split
    · exact ih h later
    · split
      · rw [ends_bind, ends_set]
        exact ih (inserted _) later
      · simp only [ends_ite, ends_bind, ends_set, ends_throw]
        split
        · exact ih h later
        · split
          · exact ih (inserted _) later
          · exact h

theorem entered_register (unitName : String) (role : UnitRole) (ids : List NodeId)
    (h : Entered p) (inside : ∀ id ∈ ids, id < p.arena.size) :
    Ends (register unitName role ids) p (fun _ q => Entered q) fun _ q => Entered q := by
  have entries := ends_register_all (P := fun id => id < p.arena.size) unitName role ids h inside
  refine ((ends_register unitName role ids p).and entries).mono ?_ ?_
  · exact fun _ q ⟨same, entries⟩ => by rwa [Entered, same.1]
  · exact fun _ q ⟨same, entries⟩ => by rwa [Entered, same.1]

theorem mem_entries_of_findType? (found : p.findType? name = some id) : ∃ entry ∈ p.types.entries, entry.2 = id := by
  unfold findType? at found
  split at found
  · rename_i other entry
    exact ⟨(name, other), TypeIndex.mem_entries_of_get? entry, Option.some.inj found⟩
  · split at found
    · cases found
    · exact mem_map.mp (mem_of_find?_eq_some found)

theorem Entered.follow {q : Project} (h : Entered p) (types : q.types = p.types)
    (size_le : p.arena.size ≤ q.arena.size) : Entered q := fun entry mem =>
  Nat.lt_of_lt_of_le (h entry (types ▸ mem)) size_le

theorem Built.entered (built : Built p) : Entered p := by
  induction built with
  | empty => nofun
  | @unit p source role built ih =>
    refine Ends.state (ends_addUnit (fun _ _ grown => ih.follow rfl grown.size_le) fun root arena read grown => ?_)
    refine entered_register _ role _ (ih.follow rfl grown.size_le) fun id mem => ?_
    have linked : Linked arena := grown.linked built.sound.linked
    refine walk_subset (fun x _ c child => linked.child_lt child) _ ?_ id (mem_of_mem_filter mem)
    simpa using (isUnit_of_readUnit read).1.lt
  | action act built inRange ih =>
    have effect : Action.Effect false _ _ := Action.effect_of_linked built.sound.linked inRange nofun nofun
    exact ih.follow rfl effect.size_le
  | transform t built ih =>
    have ended := (t.ends_apply built.sound.linked).mono (fun _ _ continues => continues) fun _ _ failed => failed.1
    exact ih.follow ended.state.types ended.state.follows.2

/-! ## Look-ups -/

section Retains

variable {p q : Project} (retains : Retains p.arena q.arena)
include retains

/-- Elements of the units are found as before. -/
theorem findNamed?_eq (units : q.units = p.units) (roots : ∀ u ∈ p.units, u.root < p.arena.size)
    (v : Variant) (name : String) : q.findNamed? v name = p.findNamed? v name := by
  unfold findNamed? inputs
  rw [units, ← head?_filterMap, ← head?_filterMap]
  refine congrArg head? (filterMap_congr fun u mem => ?_)
  have old := roots u (mem_of_mem_filter mem)
  unfold Arena.findNamed?
  rw [retains.elements_eq old fun y inside => ?_]
  rw [isNamed, isNamed, retains.variant_eq inside, retains.simpleName?_eq inside]

/-- Types are found as before if the index is as before. -/
theorem findType?_eq (types : q.types = p.types) (entered : Entered p) (name : String) :
    q.findType? name = p.findType? name ∧ q.getType name = p.getType name := by
  have found : q.findType? name = p.findType? name := by
    unfold findType?
    rw [types, ← head?_filter, ← head?_filter]
    have same : ((p.types.entries.map fun e => e.2).filter fun id => q.arena.simpleName? id == some name) =
        (p.types.entries.map fun e => e.2).filter fun id => p.arena.simpleName? id == some name := by
      refine filter_congr fun id mem => ?_
      obtain ⟨entry, inside, rfl⟩ := mem_map.mp mem
      rw [retains.simpleName?_eq (entered entry inside)]
    rw [same]
  refine ⟨found, ?_⟩
  unfold getType
  rw [found, types]

end Retains

/-! ## Refusals -/

theorem record_ne {a : Arena} {index : TypeIndex} {n : Nat} {ids : List NodeId}
    (older : ∀ entry ∈ index.entries, entry.2 < n) (newer : ∀ x ∈ id :: ids, n ≤ x)
    (isType : (a.variant id).isType) : record a (id :: ids) index ≠ index := by
  intro same
  obtain ⟨name, called⟩ : ∃ name, a.qualifiedName? id = some name := by
    unfold qualifiedName?
    rw [if_pos isType]
    exact ⟨_, rfl⟩
  have some : named a name (id :: ids) ≠ [] := by
    rw [named_cons_self called]
    exact cons_ne_nil _ _
  have entry := get?_record a (id :: ids) index name
  rw [same, getLast?_eq_some_getLast some, Option.some_or] at entry
  have old := older _ (TypeIndex.mem_entries_of_get? entry)
  have new := newer _ (mem_of_mem_filter (getLast_mem some))
  exact absurd old (Nat.not_lt.mpr new)

/-- What is left of a unit that is refused with an error. -/
def Leaves (p : Project) (source : SourceText) (e : ProjectError) (q : Project) : Prop :=
  match e with
  | .unreadable _ => q.types = p.types
  | .duplicateType name _ _ => ∃ root before id after,
      p.arena.readUnit source.name source.text = (.ok root, q.arena) ∧
      (q.arena.elements root fun a id => (a.variant id).isType) = before ++ id :: after ∧
      q.arena.qualifiedName? id = some name ∧
      q.types = record q.arena before p.types ∧ (q.types = p.types ↔ before = [])

theorem ends_addUnit_refused (built : p.Built) (acyclic : Acyclic p.arena)
    (source : SourceText) (role : UnitRole) : Ends (addUnit source role) p (fun _ _ => True) fun e q =>
      Retains p.arena q.arena ∧ q.units = p.units ∧ Leaves p source e q := by
  refine ends_addUnit (fun _ _ grown => ⟨grown.retains built.sound.linked acyclic, rfl, rfl⟩)
    fun root arena read grown => ?_
  have retains : Retains p.arena arena := grown.retains built.sound.linked acyclic
  obtain ⟨new, heads⟩ := headsUnit_of_readUnit read retains.linked' retains.acyclic'
  have registered := ends_register source.name role
    (arena.elements root fun a id => (a.variant id).isType) { p with arena }
  cases role with
  | classpath =>
    exact (ends_register_classpath source.name _ { p with arena }).mono (fun _ _ _ => trivial)
      fun _ _ failed => failed.elim
  | input =>
    have other : ∀ u ∈ p.units, u.root ≠ root := fun u mem same =>
      absurd (built.sound.roots u mem) (Nat.not_lt.mpr (same ▸ new))
    have unfinished : ∀ id ∈ arena.elements root fun a id => (a.variant id).isType,
        unitOf? { p with arena } id = none := fun id mem =>
      unitOf?_of_unknown retains.linked' retains.acyclic' heads other mem
    refine (registered.and (ends_register_input source.name _ { p with arena } unfinished)).mono
      (fun _ _ _ => trivial) ?_
    rintro e q ⟨⟨sameArena, sameUnits⟩, before, id, after, name, first, parts, entries, called, rfl⟩
    -- all types of the unit are new, so whatever is entered changes the index
    have newer : ∀ x ∈ before, p.arena.size ≤ x ∧ (arena.variant x).isType := by
      intro x mem
      have found : x ∈ arena.elements root fun a id => (a.variant id).isType := by
        rw [parts]
        exact mem_append_left _ mem
      obtain ⟨visited, isType⟩ := mem_filter.mp found
      exact ⟨grown.apart.walk _ (by simpa using new) x visited, isType⟩
    have unchanged : q.types = p.types ↔ before = [] := by
      rw [entries]
      cases before with
      | nil => exact iff_of_true rfl rfl
      | cons x rest =>
        refine iff_of_false ?_ (cons_ne_nil _ _)
        exact record_ne built.entered (fun y mem => (newer y mem).1) (newer x (.head _)).2
    unfold Leaves
    rw [sameArena]
    exact ⟨retains, sameUnits, root, before, id, after, read, parts, called, entries, unchanged⟩

/-- A refused unit is not among the units, and elements are found as before. The index and the types
that are found in it are as before when the text could not be read; when there is a duplicate, the
types in front of it have been entered, and the index is as before exactly if there are none. -/
theorem refused_unit_leaves_all_but_earlier_types {p q : Project} (built : p.Built)
    (acyclic : Acyclic p.arena) {source : SourceText} {role : UnitRole} {e : ProjectError}
    (refused : (addUnit source role).run.run p = (.error e, q)) :
    q.units = p.units ∧
      (∀ v name, q.findNamed? v name = p.findNamed? v name) ∧
      (q.types = p.types → ∀ name, q.findType? name = p.findType? name ∧ q.getType name = p.getType name) ∧
      Leaves p source e q := by
  have ended := ends_addUnit_refused built acyclic source role
  unfold Ends at ended
  rw [refused] at ended
  obtain ⟨retains, units, leaves⟩ := ended
  exact ⟨units, findNamed?_eq retains units built.sound.roots,
    fun types => findType?_eq retains types built.entered, leaves⟩

/-- A project with one class. -/
def owning : Project := ((addUnit ⟨"A.java", none, "class A \x7b \x7d"⟩ .input).run.run empty).2

/-- A unit that declares the class again, behind another one. -/
def again : SourceText := ⟨"B.java", none, "class B \x7b \x7d class A \x7b \x7d"⟩

def refusing : Project := ((addUnit again .input).run.run owning).2

theorem again_refused :
    (addUnit again .input).run.run owning = (.error (.duplicateType "A" "A.java" "B.java"), refusing) := by
  have refused : (match ((addUnit again .input).run.run owning).1 with
      | .error e => e == .duplicateType "A" "A.java" "B.java"
      | .ok _ => false) = true := by decide +kernel
  have error : ((addUnit again .input).run.run owning).1 = .error (.duplicateType "A" "A.java" "B.java") := by
    split at refused
    · rename_i error
      rw [error, beq_iff_eq.mp refused]
    · cases refused
  exact Prod.mk.eta.symm.trans (congrArg (fun outcome => (outcome, refusing)) error)

/-- The duplicate is the second type of its unit. The first one is left in the index. -/
theorem refused_unit_leaves_all_but_earlier_types_again :
    (addUnit again .input).run.run owning = (.error (.duplicateType "A" "A.java" "B.java"), refusing) ∧
      refusing.units = owning.units ∧
      (∀ v name, refusing.findNamed? v name = owning.findNamed? v name) ∧
      refusing.types ≠ owning.types ∧
      Leaves owning again (.duplicateType "A" "A.java" "B.java") refusing := by
  have built : owning.Built := .unit _ _ .empty
  have loaded : owning.Loaded := .unit .empty (by decide +kernel)
  obtain ⟨units, elements, -, leaves⟩ :=
    refused_unit_leaves_all_but_earlier_types built loaded.indexed.acyclic again_refused
  exact ⟨again_refused, units, elements, by decide +kernel, leaves⟩

/-- A refused unit can be seen: one of its types is found that was not found before. -/
theorem refused_unit_stays_visible :
    ((addUnit again .input).run.run owning).1.isOk = false ∧ owning.findType? "B" = none ∧
      refusing.findType? "B" = some 2 := by
  decide +kernel

end Project

end JavaEdit
