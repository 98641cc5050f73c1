import JavaEdit.Project.Sources
import JavaEdit.Proofs.Project.Standalone

/-!
# Where units are written

A unit is written to a file that is named after one of its types, in a folder for each part of its package. From the
parts of the path the package and the name of the type can be told (`parts_unitPath`), so two units with one path
would declare one qualified name. The index has room for one of them only (`Indexed.once`), and a project that
was read without an error has no other (`printed_paths_differ`).
-/

namespace JavaEdit

open List

variable {p : Project}

/-! ## The parts of a path -/

namespace Path

variable {part : String}

/-- What can be one part of a path: no slash, and neither empty nor a point. -/
structure IsPart (part : String) : Prop where
  nonempty : part ≠ ""
  noSlash : '/' ∉ part.toList
  notPoint : part ≠ "."

theorem isPart_of_isIdentifier {n : String} (h : isIdentifier n) : IsPart n := by
  obtain ⟨nonempty, named⟩ := isNamePart_of_isIdentifier h
  refine ⟨fun empty => nonempty (by rw [empty]; rfl), fun slash => absurd (named _ slash) (by decide), ?_⟩
  rintro rfl
  exact absurd (named '.' (by decide)) (by decide)

theorem isPart_source {n : String} (h : isIdentifier n) : IsPart (n ++ ".java") := by
  refine ⟨fun empty => by simpa using congrArg String.length empty, fun slash => ?_, fun point => ?_⟩
  · rw [String.toList_append, mem_append] at slash
    exact slash.elim (isPart_of_isIdentifier h).noSlash (by decide)
  · have := congrArg String.length point
    rw [String.length_append, show ".java".length = 5 from rfl, show ".".length = 1 from rfl] at this
    omega

theorem join_empty (h : '/' ∉ part.toList) : join "" part = part := by
  unfold join
  have noSlash : (part.toList.head? == some '/') = false := by
    rw [beq_eq_false_iff_ne]
    exact fun first => h (mem_of_mem_head? first)
  simp [noSlash]

theorem join_part {base : String} (h : '/' ∉ part.toList) (nonempty : base ≠ "")
    (open_ : base.toList.getLast? ≠ some '/') : join base part = base ++ "/" ++ part := by
  unfold join
  have noSlash : (part.toList.head? == some '/') = false := by
    rw [beq_eq_false_iff_ne]
    exact fun first => h (mem_of_mem_head? first)
  simp [noSlash, nonempty, open_]

/-- Folders one below the other. -/
theorem foldl_join {parts : List String} (isPart : ∀ part ∈ parts, IsPart part) :
    parts.foldl join "" = "/".intercalate parts := by
  have rest : ∀ (base : String) (parts : List String), base ≠ "" → base.toList.getLast? ≠ some '/' →
      (∀ part ∈ parts, IsPart part) → parts.foldl join base = "/".intercalate (base :: parts) := by
    intro base parts nonempty open_ isPart
    induction parts generalizing base with
    | nil => simp
    | cons part parts ih =>
      obtain ⟨first, others⟩ := forall_mem_cons.mp isPart
      have some : part.toList ≠ [] := by simpa using first.nonempty
      rw [foldl_cons, join_part first.noSlash nonempty open_, ih _ (by simp [nonempty]) ?_ others]
      · rw [← String.toList_inj]
        cases parts <;> simp [String.toList_intercalate]
      · rw [String.toList_append, List.getLast?_append_of_ne_nil _ some]
        exact fun last => first.noSlash (mem_of_mem_getLast? last)
  cases parts with
  | nil => rfl
  | cons part parts =>
    obtain ⟨first, others⟩ := forall_mem_cons.mp isPart
    rw [foldl_cons, join_empty first.noSlash]
    exact rest part parts first.nonempty (fun last => first.noSlash (mem_of_mem_getLast? last)) others

theorem parts_intercalate {more : List String} (isPart : ∀ n ∈ part :: more, IsPart n) :
    parts ("/".intercalate (part :: more)) = part :: more := by
  have cut : Text.split '/' ("/".intercalate (part :: more)) = part :: more := by
    unfold Text.split
    rw [String.toList_intercalate, map_cons, show "/".toList = ['/'] from rfl, Text.splitChars_intercalate]
    · simp
    · intro p mem
      rw [← map_cons, mem_map] at mem
      obtain ⟨n, inside, rfl⟩ := mem
      exact (isPart n inside).noSlash
  obtain ⟨first, others⟩ := forall_mem_cons.mp isPart
  have kept : more.filter (fun p => !p.isEmpty && p != ".") = more := filter_eq_self.mpr fun n mem => by
    simpa using ⟨(others n mem).nonempty, (others n mem).notPoint⟩
  have some : part.isEmpty = false := by simpa using first.nonempty
  unfold parts
  rw [cut]
  simp only [kept]
  rw [filter_cons, some]
  rfl

end Path

theorem IsDeclaration.isType {ok : Page → Prop} {t : Page} (h : IsDeclaration ok none t) : t.variant.isType := by
  cases h <;> rfl

namespace Project

open Arena Path Relation

def folders (package : Option String) : List String := package.elim [] (Text.split '.')

theorem folders_inj {m n : Option String} (h : folders m = folders n) : m = n := by
  have some : ∀ s, folders (some s) ≠ [] := fun s => by
    simpa [folders, Text.split] using Text.splitChars_ne_nil '.' s.toList
  cases m with
  | none =>
    cases n with
    | none => rfl
    | some n => exact absurd h.symm (some n)
  | some m =>
    cases n with
    | none => exact absurd h (some m)
    | some n =>
      have same : (Text.split '.' m).map String.toList = (Text.split '.' n).map String.toList := congrArg _ h
      simp only [Text.split, List.map_map, Function.comp_def, String.toList_ofList, map_id'] at same
      refine congrArg _ (String.toList_inj.mp ?_)
      rw [← Text.intercalate_splitChars '.' m.toList, same, Text.intercalate_splitChars]

theorem unitPath_eq (package : Option String) (name : String) : unitPath package name =
    join (((folders package).filter fun part => !part.isEmpty).foldl join "") (name ++ ".java") := by
  cases package <;> rfl

theorem parts_unitPath {package : Option String} {name : String} (isPackage : ∀ n ∈ package, isDotted n)
    (isName : isIdentifier name) : parts (unitPath package name) = folders package ++ [name ++ ".java"] := by
  have identifiers : ∀ n ∈ folders package, isIdentifier n := by
    cases package with
    | none => nofun
    | some package => exact fun n mem => all_eq_true.mp (isPackage package rfl) n mem
  have isPart : ∀ n ∈ folders package, IsPart n := fun n mem => isPart_of_isIdentifier (identifiers n mem)
  have all : ∀ n ∈ folders package ++ [name ++ ".java"], IsPart n :=
    forall_mem_append.mpr ⟨isPart, forall_mem_singleton.mpr (isPart_source isName)⟩
  have kept : (folders package).filter (fun part => !part.isEmpty) = folders package :=
    filter_eq_self.mpr fun n mem => by simpa using (isPart n mem).nonempty
  have path : unitPath package name = "/".intercalate (folders package ++ [name ++ ".java"]) := by
    rw [← foldl_join all, foldl_append, foldl_cons, foldl_nil, unitPath_eq, kept]
  rw [path]
  cases here : folders package with
  | nil | cons first more => exact parts_intercalate (by simpa [here] using all)

/-! ## The type that a unit is named after -/

/-- A unit with types is named after one of them, by the package and the name that the type is indexed by. -/
theorem Loaded.relativePath_eq (loaded : Loaded p) {u : ProjectUnit} (mem : u ∈ p.units)
    (some : p.arena.children u.root ≠ []) : ∃ package name, (∀ n ∈ package, isDotted n) ∧
      isIdentifier name ∧ p.relativePath u = unitPath package name ∧
      p.declarations (".".intercalate (package.toList ++ [name])) u ≠ [] := by
  have indexed := loaded.indexed
  have unit := loaded.written u mem
  obtain ⟨package, imports, types, kind, -, isPackage, -⟩ := unit.header
  rw [children, kind] at some
  -- the first public type, or else the first one
  have chosen : ∃ id ∈ types, (types.find? fun id => (p.arena.kind id).modifiers?.any fun ms => ms.contains .pub).orElse
      (fun _ => types.head?) = .some id := by
    cases found : types.find? fun id => (p.arena.kind id).modifiers?.any fun ms => ms.contains .pub with
    | some id => exact ⟨id, mem_of_find?_eq_some found, rfl⟩
    | none =>
      obtain ⟨id, rest, rfl⟩ := exists_cons_of_ne_nil some
      exact ⟨id, .head _, rfl⟩
  obtain ⟨id, inUnit, choice⟩ := chosen
  have child : id ∈ p.arena.children u.root := by rw [children, kind]; exact inUnit
  obtain ⟨rooted, isUnit⟩ := unit
  have isDeclaration : IsDeclaration Made none (p.arena.commented id) := isUnit.child.2 _ (rooted.commented_mem child)
  have isType : (p.arena.variant id).isType := by
    rw [← (rooted.child child).variant_commented]
    exact isDeclaration.isType
  obtain ⟨notes, ms, keyword, name, rest, opens⟩ :=
    opensText isDeclaration (by rwa [(rooted.child child).variant_commented])
  have named : p.arena.simpleName? id = .some name := by
    have shown := opens.named
    rw [(rooted.child child).commented_eq] at shown
    exact (Kind.simpleName?_map ..).symm.trans shown
  have up : p.arena.parent id = .some u.root := (indexed.linked.parent_iff id u.root).mpr child
  have heads := indexed.heads u mem
  have below : id ∈ (p.arena.tree u.root).preorder :=
    (mem_preorder_iff indexed.linked indexed.acyclic).mpr (.tail .refl child)
  have top : p.arena.enclosingType? id = none := by
    unfold enclosingType?
    rw [ancestors_of_parent indexed.linked indexed.acyclic up, ancestors_of_detached heads.detached]
    simp [heads.isUnit, Variant.isType]
  have packageOf : p.arena.packageOf? id = package := by
    unfold packageOf?
    simp only [heads.unitOf? indexed.linked indexed.acyclic below, Option.bind_eq_bind, Option.bind_some, kind]
  refine ⟨package, name, isPackage, opens.isName, ?_, ?_⟩
  · unfold relativePath
    rw [kind]
    simp only [choice, Option.bind_some, named, Option.getD_some]
  · refine ne_nil_of_mem (mem_filter.mpr ⟨below, ?_⟩)
    rw [qualifiedName?_of_top isType named top, packageOf, beq_self_eq_true]

end Project

/-! ## Projects that are read from files -/

namespace Building

open Project

variable {α : Type}

/-- A step of reading a project from files in memory that leads from loaded projects to loaded ones, unless it
fails. -/
def Loads {α : Type} (step : Building (StateM FileStore) α) : Prop :=
  ∀ p store, p.Loaded → ∀ x q, ((step.run.run p).run store).1 = (.ok x, q) → q.Loaded

theorem loads_pure (x : α) : Loads (pure x) := by
  intro p store loaded y q run
  cases run
  exact loaded

theorem loads_throw (e : SourcesError) : Loads (throw e : Building (StateM FileStore) α) := by
  intro p store loaded y q run
  cases run

/-- What is only asked of the files leaves the project as it is. -/
theorem loads_lift (action : StateM FileStore α) : Loads (liftM action : Building (StateM FileStore) α) := by
  intro p store loaded y q run
  cases run
  exact loaded

theorem Loads.bind {β : Type} {step : Building (StateM FileStore) α} {next : α → Building (StateM FileStore) β}
    (h : Loads step) (h' : ∀ x, Loads (next x)) : Loads (step >>= next) := by
  intro p store loaded y q run
  have parts : (((step >>= next).run.run p).run store).1 = match (step.run.run p).run store with
      | ((.ok x, q), store') => (((next x).run.run q).run store').1
      | ((.error e, q), _) => (.error e, q) := by
    have outer : ((step >>= next).run.run p).run store = StateT.run (StateT.run
        (ExceptT.bindCont next ((step.run.run p).run store).1.1) ((step.run.run p).run store).1.2)
        ((step.run.run p).run store).2 := rfl
    rw [outer]
    obtain ⟨⟨outcome, q⟩, store'⟩ := (step.run.run p).run store
    cases outcome <;> rfl
  have first := h p store loaded
  rw [parts] at run
  generalize (step.run.run p).run store = stepped at run first
  obtain ⟨⟨outcome, r⟩, store'⟩ := stepped
  cases outcome with
  | error e => cases run
  | ok x => exact h' x r store' (first x r rfl) y q run

theorem loads_get {next : Project → Building (StateM FileStore) α} (h : ∀ p store, Loaded p → ∀ y q,
    (((next p).run.run p).run store).1 = (.ok y, q) → Loaded q) : Loads (get >>= next) :=
  h

theorem loads_mapM {β : Type} {step : α → Building (StateM FileStore) β} (h : ∀ x, Loads (step x)) (xs : List α) :
    Loads (xs.mapM step) := by
  induction xs with
  | nil => exact loads_pure _
  | cons x xs ih =>
    rw [mapM_cons]
    exact (h x).bind fun _ => ih.bind fun _ => loads_pure _

theorem loads_readSource (path : String) : Loads (readSource path) := by
  refine (loads_lift _).bind fun outcome => ?_
  cases outcome with
  | ok text => exact loads_pure _
  | error e => exact loads_throw _

theorem loads_discover (path : String) : Loads (discover path) := by
  refine (loads_lift _).bind fun _ => ?_
  split
  · exact (loads_lift _).bind fun _ => loads_mapM loads_readSource _
  · exact (loads_readSource path).bind fun _ => loads_pure _

theorem loads_addSources (role : UnitRole) (sources : List SourceText) : Loads (addSources role sources) := by
  induction sources with
  | nil => exact loads_pure _
  | cons source rest ih =>
    rw [addSources]
    refine loads_get fun p store loaded => ?_
    have added : ((addUnit source role).run.run p).1.isOk → Loaded ((addUnit source role).run.run p).2 := .unit loaded
    generalize (addUnit source role).run.run p = unit at added ⊢
    obtain ⟨outcome, r⟩ := unit
    cases outcome with
    | error e => intro y q run; cases run
    | ok root => exact ih r store (added rfl)

theorem loads_addPaths (role : UnitRole) (paths : List String) : Loads (addPaths role paths) := by
  induction paths with
  | nil => exact loads_pure _
  | cons path rest ih => exact (loads_discover path).bind fun _ => (loads_addSources role _).bind fun _ => ih

theorem loaded_of_run {step : Building (StateM FileStore) Unit} (h : Loads step) {store : FileStore}
    (ended : ((step.run.run .empty).run store).1.1.map (fun _ => ((step.run.run .empty).run store).1.2) = .ok p) :
    p.Loaded := by
  have loaded := h .empty store .empty
  generalize ((step.run.run .empty).run store).1 = run at ended loaded
  obtain ⟨outcome, q⟩ := run
  cases outcome with
  | error e => cases ended
  | ok x =>
    cases ended
    exact loaded x q rfl

end Building

theorem ProjectSources.loaded_of_build {s : ProjectSources} {store : FileStore}
    (built : ((s.build : StateM FileStore _).run store).1 = .ok p) : p.Loaded := by
  refine Building.loaded_of_run (.bind (Building.loads_addPaths .input s.inputs) fun _ => ?_) built
  exact (Building.loads_addSources .input s.virtualFiles).bind fun _ =>
    Building.loads_addPaths .classpath s.classpath

/-! ## Paths of units -/

namespace Project

open Path

theorem Indexed.eq_nil_or (h : Indexed p) {u v : ProjectUnit} (units : [u, v].Sublist p.inputs)
    (name : String) : p.declarations name u = [] ∨ p.declarations name v = [] := by
  have few : (p.declarations name u ++ p.declarations name v).length ≤ 1 := by
    have both := (units.flatMap (p.declarations name)).length_le
    rw [flatMap_cons, flatMap_singleton] at both
    exact Nat.le_trans both (h.once name)
  rw [length_append] at few
  rcases Nat.eq_zero_or_pos (p.declarations name u).length with none | _
  · exact .inl (length_eq_zero_iff.mp none)
  · exact .inr (length_eq_zero_iff.mp (by omega))

/-- No two input units of a loaded project that declare types are written to one file: their paths differ, part by
part. -/
theorem printed_paths_differ {p : Project} (loaded : p.Loaded) : (p.inputs.zip p.printedUnits).Pairwise fun u v =>
      p.arena.children u.1.root ≠ [] → p.arena.children v.1.root ≠ [] → parts u.2.path ≠ parts v.2.path := by
  have zipped : p.inputs.zip p.printedUnits =
      p.inputs.map fun u => (u, ⟨u.name, p.relativePath u, p.arena.unitText u.root⟩) := by
    rw [printedUnits, List.zip_map_right, List.zip_eq_zipWith, List.zipWith_self, List.map_map]
    rfl
  rw [zipped, List.pairwise_map, List.pairwise_iff_forall_sublist]
  intro u v units some some' same
  have inside : u ∈ p.inputs ∧ v ∈ p.inputs := by simpa using units.subset
  obtain ⟨package, name, isPackage, isName, path, declared⟩ :=
    loaded.relativePath_eq (List.mem_of_mem_filter inside.1) some
  obtain ⟨package', name', isPackage', isName', path', declared'⟩ :=
    loaded.relativePath_eq (List.mem_of_mem_filter inside.2) some'
  dsimp only at same
  rw [path, path', parts_unitPath isPackage isName, parts_unitPath isPackage' isName'] at same
  obtain ⟨sameFolders, sameFile⟩ := List.append_inj' same rfl
  have sameName : name = name' := by
    rw [← String.toList_inj]
    have chars := congrArg String.toList (List.cons.inj sameFile).1
    rw [String.toList_append, String.toList_append] at chars
    exact List.append_cancel_right chars
  rw [← folders_inj sameFolders, ← sameName] at declared'
  exact (loaded.indexed.eq_nil_or units _).elim declared declared'

/-- Two files with classes of one name in two packages, and a class of this name without a package. -/
def threefold : Project :=
  let store : FileStore := ⟨[(["src", "A.java"], "package a; class B \x7b \x7d public class A \x7b \x7d"),
    (["src", "C.java"], "package a.b; class A \x7b class C \x7b \x7d \x7d")]⟩
  let sources : ProjectSources := {
    inputs := ["src/A.java", "src/C.java"]
    virtualFiles := [⟨"D.java", none, "interface A \x7b \x7d"⟩] }
  match ((sources.build : StateM FileStore _).run store).1 with
  | .ok p => p
  | .error _ => .empty

/-- The three units are read without an error and written to three files. -/
theorem printed_paths_differ_threefold :
    threefold.Loaded ∧ (threefold.printedUnits.map fun u => u.path) = ["a/A.java", "a/b/A.java", "A.java"] ∧
      (threefold.inputs.map fun u => threefold.arena.children u.root) = [[0, 1], [4], [6]] ∧
      (threefold.inputs.zip threefold.printedUnits).Pairwise fun u v => threefold.arena.children u.1.root ≠ [] →
        threefold.arena.children v.1.root ≠ [] → parts u.2.path ≠ parts v.2.path := by
  have loaded : threefold.Loaded := by
    unfold threefold
    dsimp only
    split
    · exact ProjectSources.loaded_of_build ‹_›
    · exact .empty
  exact ⟨loaded, by decide +kernel, by decide +kernel, printed_paths_differ loaded⟩

end Project

end JavaEdit
