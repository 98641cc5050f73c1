import JavaEdit.Proofs.Project.Failure

/-!
# The index of a project

The types of a unit are registered one after the other while the unit is not yet part of the
project. In a unit of the classpath a name that is taken already is passed over; in an input unit it
takes the place of a type of the classpath, and anything else is a duplicate (`ends_register_classpath`,
`ends_register_input`). A project whose units were all accepted is `Loaded`: each of its units heads
a tree that no other unit shares, so the role of an entry can be found by its parents
(`Arranged.unitOf?`). Whatever the order of the units, an entry is the declaration in an input unit,
of which there is but one, or else the first one in the classpath
(`entries_are_input_or_first_classpath`).
-/

namespace JavaEdit

open Arena Relation List

variable {arena : Arena} {p : Project}

/-! ## Look-ups -/

namespace TypeIndex

theorem lookup_cons_entry (key other : String) (value : NodeId) (entries : List (String × NodeId)) :
    ((key, value) :: entries).lookup other = if other = key then some value else entries.lookup other := by
  rw [lookup_cons]
  by_cases same : other = key
  · simp [same]
  · rw [beq_false_of_ne same, if_neg same]

theorem lookup_insertEntry (name other : String) (id : NodeId) (entries : List (String × NodeId)) :
    (insertEntry name id entries).lookup other =
      if other = name then some id else entries.lookup other := by
  induction entries with
  | nil => exact lookup_cons_entry ..
  | cons entry rest ih =>
    obtain ⟨key, value⟩ := entry
    rw [insertEntry]
    by_cases here : name = key
    · subst here
      simp only [beq_self_eq_true, if_true, lookup_cons_entry]
      split <;> rfl
    · rw [if_neg (by simpa using here)]
      split
      · exact lookup_cons_entry ..
      · simp only [lookup_cons_entry, ih]
        by_cases same : other = key
        · rw [if_pos same, if_pos same, if_neg fun again => here (again.symm.trans same)]
        · rw [if_neg same, if_neg same]

theorem get?_insert (index : TypeIndex) (name other : String) (id : NodeId) :
    (index.insert name id).get? other = if other = name then some id else index.get? other :=
  lookup_insertEntry name other id index.entries

end TypeIndex

namespace Project

variable {u : ProjectUnit}

/-- The nodes of a list that have a qualified name. -/
def named (a : Arena) (name : String) (ids : List NodeId) : List NodeId :=
  ids.filter fun id => a.qualifiedName? id == some name

section Named

variable {a : Arena} {name other : String} {id : NodeId} {rest : List NodeId}

theorem named_cons_of_none (unnamed : a.qualifiedName? id = none) : named a name (id :: rest) = named a name rest := by
  simp [named, unnamed]

theorem named_cons_self (called : a.qualifiedName? id = some name) :
    named a name (id :: rest) = id :: named a name rest := by
  simp [named, called]

theorem named_cons_of_ne (called : a.qualifiedName? id = some other) (differ : name ≠ other) :
    named a name (id :: rest) = named a name rest := by
  simp [named, called, Ne.symm differ]

end Named

theorem ends_register_classpath (unitName : String) (ids : List NodeId) (p : Project) :
    Ends (register unitName .classpath ids) p (fun _ q => ∀ name, q.types.get? name =
        (p.types.get? name).or (named p.arena name ids).head?) fun _ _ => False := by
  induction ids generalizing p with
  | nil => exact fun name => by simp [named]
  | cons id rest ih =>
    rw [register, ends_bind, ends_get]
    split
    · rename_i unnamed
      exact (ih p).imp fun _ q entries name => by rw [entries, named_cons_of_none unnamed]
    · rename_i taken called
      split
      · rename_i free
        refine (ih { p with types := p.types.insert taken id }).imp fun _ q entries name => ?_
        rw [entries, TypeIndex.get?_insert]
        by_cases same : name = taken
        · subst same
          simp [named_cons_self called, free]
        · rw [if_neg same, named_cons_of_ne called same]
      · rename_i other found
        refine (ih p).imp fun _ q entries name => ?_
        rw [entries]
        by_cases same : name = taken
        · subst same
          simp [found]
        · rw [named_cons_of_ne called same]

/-- A name may be entered for a type of an input unit: it is free, or taken by a type of the
classpath. -/
def Available (p : Project) (name : String) : Prop :=
  ∀ other, p.types.get? name = some other → ∃ u, p.unitOf? other = some u ∧ u.role = .classpath

/-- All declarations of some nodes entered in an index. -/
def record (a : Arena) : List NodeId → TypeIndex → TypeIndex
  | [], index => index
  | id :: rest, index =>
    match a.qualifiedName? id with
    | none => record a rest index
    | some name => record a rest (index.insert name id)

/-- In an input unit all declarations are entered, up to the first one whose name is taken by
another type that is not in the classpath. -/
theorem ends_register_input (unitName : String) (ids : List NodeId) (p : Project)
    (unfinished : ∀ id ∈ ids, p.unitOf? id = none) : Ends (register unitName .input ids) p
      (fun _ q => q.types = record p.arena ids p.types ∧
        ∀ name, (named p.arena name ids).length ≤ 1 ∧ (named p.arena name ids ≠ [] → Available p name))
      fun e q => ∃ before id after name first, ids = before ++ id :: after ∧
        q.types = record p.arena before p.types ∧ p.arena.qualifiedName? id = some name ∧
        e = .duplicateType name first unitName := by
  induction ids generalizing p with
  | nil => exact ⟨rfl, fun name => ⟨Nat.zero_le _, fun some => absurd rfl some⟩⟩
  | cons id rest ih =>
    obtain ⟨here, later⟩ := forall_mem_cons.mp unfinished
    -- what follows an entry that was made
    have entered : ∀ name, p.arena.qualifiedName? id = some name → Available p name →
        Ends (register unitName .input rest) { p with types := p.types.insert name id }
          (fun _ q => q.types = record p.arena (id :: rest) p.types ∧
            ∀ name, (named p.arena name (id :: rest)).length ≤ 1 ∧
              (named p.arena name (id :: rest) ≠ [] → Available p name))
          fun e q => ∃ before other after name first, id :: rest = before ++ other :: after ∧
            q.types = record p.arena before p.types ∧ p.arena.qualifiedName? other = some name ∧
            e = .duplicateType name first unitName := by
      intro taken called available
      refine (ih { p with types := p.types.insert taken id } later).mono ?_ ?_
      · rintro _ q ⟨entries, once⟩
        refine ⟨by rw [entries, record, called], fun name => ?_⟩
        obtain ⟨single, allowed⟩ := once name
        by_cases same : name = taken
        · -- a second one would have met the entry of the first, whose unit is unknown yet
          subst same
          have none : named p.arena name rest = [] := by
            by_contra again
            obtain ⟨u, found, -⟩ := allowed again id (by rw [TypeIndex.get?_insert, if_pos rfl])
            exact absurd (here.symm.trans found) nofun
          rw [named_cons_self called, none]
          exact ⟨Nat.le_refl _, fun _ => available⟩
        · rw [named_cons_of_ne called same]
          refine ⟨single, fun some other found => allowed some other ?_⟩
          rw [TypeIndex.get?_insert, if_neg same]
          exact found
      · rintro e q ⟨before, other, after, name, first, parts, entries, named, error⟩
        refine ⟨id :: before, other, after, name, first, by rw [parts, cons_append], ?_, named, error⟩
        rw [entries, record, called]
    rw [register, ends_bind, ends_get]
    split
    · rename_i unnamed
      refine (ih p later).mono ?_ ?_
      · rintro _ q ⟨entries, once⟩
        refine ⟨by rw [entries, record, unnamed], fun name => ?_⟩
        rw [named_cons_of_none unnamed]
        exact once name
      · rintro e q ⟨before, other, after, name, first, parts, entries, rest⟩
        refine ⟨id :: before, other, after, name, first, by rw [parts, cons_append], ?_, rest⟩
        rw [entries, record, unnamed]
    · rename_i taken called
      split
      · rename_i free
        refine entered taken called fun other found => ?_
        rw [free] at found
        cases found
      · rename_i other found
        simp only [ends_ite, ends_bind, ends_set, ends_throw]
        split
        · rename_i classpath
          cases classpath
        · split
          · rename_i shadowed
            refine entered taken called fun another found' => ?_
            rw [found, Option.some_inj] at found'
            obtain ⟨u, unit, role⟩ := (Option.any_eq_true _ _).mp shadowed
            exact ⟨u, found' ▸ unit, beq_iff_eq.mp role⟩
          · exact ⟨[], id, rest, taken, _, rfl, rfl, called, rfl⟩

theorem get?_record (a : Arena) (ids : List NodeId) (index : TypeIndex) (name : String) :
    (record a ids index).get? name = (named a name ids).getLast?.or (index.get? name) := by
  induction ids generalizing index with
  | nil => rfl
  | cons id rest ih =>
    rw [record]
    split
    · rename_i unnamed
      rw [ih, named_cons_of_none unnamed]
    · rename_i taken called
      rw [ih, TypeIndex.get?_insert]
      by_cases same : name = taken
      · subst same
        rw [if_pos rfl, named_cons_self called, getLast?_cons]
        cases (named a name rest).getLast? <;> rfl
      · rw [if_neg same, named_cons_of_ne called same]

/-! ## Units that were accepted -/

/-- Units that only take part in look-ups. -/
def classpath (p : Project) : List ProjectUnit := p.units.filter fun u => u.role == .classpath

theorem mem_units_iff : u ∈ p.units ↔ u ∈ p.inputs ∨ u ∈ p.classpath := by
  simp only [inputs, classpath, mem_filter, beq_iff_eq]
  cases u.role <;> simp

/-- The declarations of a name in a unit, in pre-order. -/
def declarations (p : Project) (name : String) (u : ProjectUnit) : List NodeId :=
  named p.arena name (p.arena.tree u.root).preorder

/-- Every unit heads a tree of its own. -/
structure Arranged (p : Project) : Prop where
  linked : Linked p.arena
  acyclic : Acyclic p.arena
  heads : ∀ u ∈ p.units, HeadsUnit p.arena u.root
  roots : (p.units.map fun u => u.root).Nodup

theorem Arranged.unitOf? (h : Arranged p) (mem : u ∈ p.units)
    {id : NodeId} (below : id ∈ (p.arena.tree u.root).preorder) : p.unitOf? id = some u := by
  have root : p.arena.unitOf? id = some u.root := (h.heads u mem).unitOf? h.linked h.acyclic below
  have found : (p.units.find? fun v => v.root == u.root).isSome := find?_isSome.mpr ⟨u, mem, beq_self_eq_true _⟩
  obtain ⟨v, hit⟩ := Option.isSome_iff_exists.mp found
  have same : v.root = u.root := by simpa using find?_some hit
  have there := mem_of_find?_eq_some hit
  unfold Project.unitOf?
  rw [root, Option.bind_eq_bind, Option.bind_some, hit, inj_on_of_nodup_map h.roots there mem same]

/-- The types of a unit that is not part of the project belong to no unit of it. -/
theorem unitOf?_of_unknown (linked : Linked p.arena) (acyclic : Acyclic p.arena)
    {root id : NodeId} (heads : HeadsUnit p.arena root) (other : ∀ u ∈ p.units, u.root ≠ root)
    {accepts : Arena → NodeId → Bool} (mem : id ∈ p.arena.elements root accepts) : p.unitOf? id = none := by
  unfold Project.unitOf?
  rw [heads.unitOf? linked acyclic (mem_preorder_of_mem_elements linked acyclic mem)]
  simpa using other

theorem Arranged.retains (h : Arranged p) (retains : Retains p.arena arena) : Arranged { p with arena } where
  linked := retains.linked'
  acyclic := retains.acyclic'
  heads u mem := retains.headsUnit (h.heads u mem).inside (h.heads u mem)
  roots := h.roots

theorem Arranged.declarations_eq (h : Arranged p)
    (retains : Retains p.arena arena) (name : String) (mem : u ∈ p.units) :
    declarations { p with arena } name u = p.declarations name u := by
  obtain ⟨tree, inside⟩ := retains.tree_eq u.root (h.heads u mem).inside
  unfold declarations named
  rw [tree]
  exact filter_congr fun id below => by rw [retains.qualifiedName?_eq (inside id below)]

end Project

theorem Arena.headsUnit_of_readUnit {a b : Arena} {file text : String} {root : NodeId}
    (read : a.readUnit file text = (.ok root, b)) (linked : Linked b) (acyclic : Acyclic b) :
    a.size ≤ root ∧ HeadsUnit b root := by
  obtain ⟨new, inside, detached⟩ := (owns_readUnit read).fresh root (.head _)
  obtain ⟨rooted, isUnit⟩ := isUnit_of_readUnit read
  rw [rooted.commented_eq] at isUnit
  obtain ⟨unit, types⟩ := isUnit.child
  obtain ⟨_, _, below⟩ := rooted
  refine ⟨new, inside, detached, by simpa [Tree.variant, Tree.kind, Arena.variant] using unit, ?_⟩
  -- below the root, all children have inner nodes only
  have inner : ∀ p, ReflTransGen (fun p c => c ∈ b.children p) root p →
      ∀ x ∈ b.children p, b.TreeAt (Tree.Every (Inner Made)) x := by
    intro p reached
    induction reached with
    | refl =>
      refine fun x child => ⟨below x child, (types _ ?_).every_inner⟩
      simpa [Tree.kind] using ⟨x, child, rfl⟩
    | tail _ step ih => exact (ih _ step).every_child
  intro p x reached child
  have here := (inner p ((mem_preorder_iff linked acyclic).mp reached) x child).every_kind.notUnit
  simpa [Arena.variant] using here

namespace Project

/-- Projects whose units were read one after the other, each with success. -/
inductive Loaded : Project → Prop
  | empty : Loaded empty
  | unit {p : Project} {source : SourceText} {role : UnitRole} : Loaded p →
      ((addUnit source role).run.run p).1.isOk = true → Loaded ((addUnit source role).run.run p).2

/-- Every entry is the declaration in an input unit, of which there is at most one, or else the first
in the classpath. -/
structure Indexed (p : Project) : Prop extends Arranged p where
  once : ∀ name, (p.inputs.flatMap (p.declarations name)).length ≤ 1
  entry : ∀ name, p.types.get? name = (p.inputs.flatMap (p.declarations name)).head?.or
    (p.classpath.flatMap (p.declarations name)).head?

theorem Indexed.retains (h : Indexed p) (retains : Retains p.arena arena) : Indexed { p with arena } := by
  have inputs : ∀ name, p.inputs.flatMap (declarations { p with arena } name) =
      p.inputs.flatMap (p.declarations name) := fun name => flatMap_congr fun u mem =>
    h.declarations_eq retains name (mem_of_mem_filter mem)
  have classpath : ∀ name, p.classpath.flatMap (declarations { p with arena } name) =
      p.classpath.flatMap (p.declarations name) := fun name => flatMap_congr fun u mem =>
    h.declarations_eq retains name (mem_of_mem_filter mem)
  refine ⟨h.toArranged.retains retains, fun name => ?_, fun name => ?_⟩
  · exact inputs name ▸ h.once name
  · refine (h.entry name).trans ?_
    rw [← inputs name, ← classpath name]
    rfl

theorem Indexed.no_input_of_available (h : Indexed p) {name : String}
    (available : Available p name) : p.inputs.flatMap (p.declarations name) = [] := by
  cases declared : p.inputs.flatMap (p.declarations name) with
  | nil => rfl
  | cons id rest =>
    obtain ⟨u, mem, inside⟩ := mem_flatMap.mp (declared ▸ mem_cons_self)
    obtain ⟨loaded, role⟩ := mem_filter.mp mem
    have entry : p.types.get? name = some id := by rw [h.entry, declared]; rfl
    obtain ⟨v, unit, classpath⟩ := available id entry
    rw [h.unitOf? loaded (mem_of_mem_filter inside), Option.some_inj] at unit
    rw [unit, classpath] at role
    cases role

/-- Only classes and interfaces have qualified names. -/
theorem named_elements {a : Arena} (linked : Linked a) (acyclic : Acyclic a) (root : NodeId)
    (name : String) : named a name (a.elements root fun a id => (a.variant id).isType) =
      named a name (a.tree root).preorder := by
  rw [Arena.elements_eq linked acyclic, named, filter_filter]
  refine filter_congr fun id _ => ?_
  unfold qualifiedName?
  split
  · rename_i isType
    rw [isType, Bool.and_true]
  · rfl

section Append

variable {u : ProjectUnit} {types : TypeIndex}

theorem Arranged.append (h : Arranged p) (heads : HeadsUnit p.arena u.root)
    (other : ∀ v ∈ p.units, v.root ≠ u.root) : Arranged ⟨p.arena, p.units ++ [u], types⟩ where
  linked := h.linked
  acyclic := h.acyclic
  heads := forall_mem_append.mpr ⟨h.heads, forall_mem_singleton.mpr heads⟩
  roots := by
    rw [map_append, nodup_append]
    exact ⟨h.roots, nodup_singleton _, by simpa using other⟩

theorem Indexed.append_classpath (h : Indexed p) (heads : HeadsUnit p.arena u.root)
    (other : ∀ v ∈ p.units, v.root ≠ u.root) (role : u.role = .classpath)
    (entries : ∀ name, types.get? name = (p.types.get? name).or (p.declarations name u).head?) :
    Indexed ⟨p.arena, p.units ++ [u], types⟩ := by
  have inputs : inputs ⟨p.arena, p.units ++ [u], types⟩ = p.inputs := by
    simp [Project.inputs, filter_append, role]
  have classpath : classpath ⟨p.arena, p.units ++ [u], types⟩ = p.classpath ++ [u] := by
    simp [Project.classpath, filter_append, role]
  refine ⟨h.toArranged.append heads other, fun name => ?_, fun name => ?_⟩
  · rw [inputs]
    exact h.once name
  · rw [inputs, classpath, flatMap_append, flatMap_singleton, head?_append, ← Option.or_assoc]
    exact (entries name).trans (by rw [h.entry]; rfl)

theorem Indexed.append_input (h : Indexed p) (heads : HeadsUnit p.arena u.root)
    (other : ∀ v ∈ p.units, v.root ≠ u.root) (role : u.role = .input)
    (entries : ∀ name, types.get? name = (p.declarations name u).getLast?.or (p.types.get? name))
    (single : ∀ name, (p.declarations name u).length ≤ 1)
    (available : ∀ name, p.declarations name u ≠ [] → Available p name) : Indexed ⟨p.arena, p.units ++ [u], types⟩ := by
  have inputs : inputs ⟨p.arena, p.units ++ [u], types⟩ = p.inputs ++ [u] := by
    simp [Project.inputs, filter_append, role]
  have classpath : classpath ⟨p.arena, p.units ++ [u], types⟩ = p.classpath := by
    simp [Project.classpath, filter_append, role]
  refine ⟨h.toArranged.append heads other, fun name => ?_, fun name => ?_⟩
  · rw [inputs, flatMap_append, flatMap_singleton, length_append]
    show (p.inputs.flatMap (p.declarations name)).length + (p.declarations name u).length ≤ 1
    cases here : p.declarations name u with
    | nil => exact h.once name
    | cons id rest =>
      rw [h.no_input_of_available (available name (by simp [here])), ← here]
      simpa using single name
  · rw [inputs, classpath, flatMap_append, flatMap_singleton, head?_append]
    refine (entries name).trans ?_
    rw [h.entry]
    show _ = ((p.inputs.flatMap (p.declarations name)).head?.or (p.declarations name u).head?).or
      (p.classpath.flatMap (p.declarations name)).head?
    match here : p.declarations name u, single name with
    | [], _ => simp
    | [id], _ => simp [h.no_input_of_available (available name (by simp [here]))]

end Append

/-- Reading one more unit keeps the entries in order. -/
theorem Indexed.addUnit (h : Indexed p) (source : SourceText) (role : UnitRole) :
    Ends (addUnit source role) p (fun _ q => Indexed q) fun _ _ => True := by
  refine ends_addUnit (fun _ _ _ => trivial) fun root arena read grown => ?_
  have retains : Retains p.arena arena := grown.retains h.linked h.acyclic
  obtain ⟨new, heads⟩ := headsUnit_of_readUnit read retains.linked' retains.acyclic'
  have before : Indexed { p with arena } := h.retains retains
  have other : ∀ u ∈ p.units, u.root ≠ root := fun u mem same =>
    absurd (h.heads u mem).inside (Nat.not_lt.mpr (same ▸ new))
  let ids := arena.elements root fun a id => (a.variant id).isType
  have declared : ∀ name, named arena name ids = named arena name (arena.tree root).preorder :=
    named_elements retains.linked' retains.acyclic' root
  have registered := ends_register source.name role ids { p with arena }
  cases role with
  | classpath =>
    refine (registered.and (ends_register_classpath source.name ids { p with arena })).mono ?_
      fun _ _ _ => trivial
    rintro _ q ⟨⟨sameArena, sameUnits⟩, entries⟩
    rw [sameArena, sameUnits]
    exact before.append_classpath heads other rfl fun name => by
      rw [entries, declared]
      rfl
  | input =>
    have unfinished : ∀ id ∈ ids, unitOf? { p with arena } id = none := fun id mem =>
      unitOf?_of_unknown before.linked before.acyclic heads other mem
    refine (registered.and (ends_register_input source.name ids { p with arena } unfinished)).mono ?_
      fun _ _ _ => trivial
    rintro _ q ⟨⟨sameArena, sameUnits⟩, entries, single⟩
    simp only [declared] at single
    rw [sameArena, sameUnits]
    exact before.append_input heads other rfl
      (fun name => by rw [entries, get?_record, declared]; rfl) (fun name => (single name).1)
      fun name => (single name).2

/-- What holds of the empty project, and behind a unit that is accepted if it held before it, holds
of all loaded projects. -/
theorem Loaded.holds {P : Project → Prop} (start : P Project.empty) (step : ∀ p source role, P p →
    Ends (addUnit source role) p (fun _ q => P q) fun _ _ => True) (loaded : Loaded p) : P p := by
  induction loaded with
  | empty => exact start
  | @unit p source role _ accepted ih =>
    have ended := step p source role ih
    unfold Ends at ended
    cases run : (addUnit source role).run.run p with
    | mk outcome q =>
      rw [run] at accepted ended
      cases outcome with
      | ok root => exact ended
      | error e => cases accepted

theorem Loaded.indexed (loaded : Loaded p) : Indexed p := by
  refine loaded.holds ?_ fun p source role indexed => indexed.addUnit source role
  exact ⟨⟨linked_empty, acyclic_empty, nofun, nodup_nil⟩, fun _ => Nat.zero_le _, fun _ => rfl⟩

/-- For every name of a loaded project: it has an entry exactly if a unit declares it; if an input
unit declares it, there is one declaration in all of them and the entry is that; otherwise the entry
is the first declaration in the first unit of the classpath that has one. -/
theorem entries_are_input_or_first_classpath {p : Project} (loaded : p.Loaded) (name : String) :
    ((p.types.get? name).isSome = true ↔ ∃ u ∈ p.units, p.declarations name u ≠ []) ∧
      ((∃ u ∈ p.inputs, p.declarations name u ≠ []) →
        ∃ id, p.inputs.flatMap (p.declarations name) = [id] ∧ p.types.get? name = some id) ∧
      ((∀ u ∈ p.inputs, p.declarations name u = []) →
        p.types.get? name = p.classpath.findSome? fun u => (p.declarations name u).head?) := by
  have h := loaded.indexed
  have inputs : p.inputs.flatMap (p.declarations name) = [] ↔
      ∀ u ∈ p.inputs, p.declarations name u = [] := List.flatMap_eq_nil_iff
  refine ⟨?_, fun declared => ?_, fun none => ?_⟩
  · rw [h.entry, Option.isSome_or, Bool.or_eq_true]
    simp [List.flatMap_eq_nil_iff, mem_units_iff, or_and_right, exists_or]
  · obtain ⟨u, member, some⟩ := declared
    have single := h.once name
    match here : p.inputs.flatMap (p.declarations name), single with
    | [], _ => exact absurd (inputs.mp here u member) some
    | [id], _ => exact ⟨id, rfl, by rw [h.entry, here]; rfl⟩
  · rw [h.entry, inputs.mpr none, List.head?_nil, Option.none_or, List.head?_flatMap]

/-- A class with a nested one in the classpath. -/
def library : Project := ((addUnit ⟨"A.java", none, "class A \x7b class B \x7b \x7d \x7d"⟩ .classpath).run.run empty).2

/-- An input unit that shadows one of the two classes. -/
def shadowed : Project := ((addUnit ⟨"Own.java", none, "class C \x7b \x7d class A \x7b \x7d"⟩ .input).run.run library).2

/-- The same unit of the classpath once more. -/
def repeated : Project :=
  ((addUnit ⟨"A.java", none, "class A \x7b class B \x7b \x7d \x7d"⟩ .classpath).run.run shadowed).2

/-- The input unit declares `A`, so the entry is its declaration; the entry of `A.B` is the first of
the two in the classpath. -/
theorem entries_are_input_or_first_classpath_repeated : repeated.Loaded ∧
      (∃ id, repeated.inputs.flatMap (repeated.declarations "A") = [id] ∧ repeated.types.get? "A" = some id) ∧
      (repeated.classpath.map fun u => repeated.declarations "A.B" u) = [[0], [6]] ∧
      repeated.types.get? "A.B" =
        repeated.classpath.findSome? fun u => (repeated.declarations "A.B" u).head? := by
  have loaded : repeated.Loaded :=
    .unit (.unit (.unit .empty (by decide +kernel)) (by decide +kernel)) (by decide +kernel)
  have declared : ∃ u ∈ repeated.inputs, repeated.declarations "A" u ≠ [] := by decide +kernel
  have undeclared : ∀ u ∈ repeated.inputs, repeated.declarations "A.B" u = [] := by decide +kernel
  exact ⟨loaded, (entries_are_input_or_first_classpath loaded "A").2.1 declared, by decide +kernel,
    (entries_are_input_or_first_classpath loaded "A.B").2.2 undeclared⟩

end Project

end JavaEdit
