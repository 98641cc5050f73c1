import JavaEdit.Proofs.Machine.Loading
import JavaEdit.Proofs.Project.Index

/-!
# Types on their own

The text of a type on its own has the package and the imports of its unit, and then the type at the
top. The tree of every type of a loaded project is one of the grammar (`Loaded.isDeclaration`), so the text,
if it can be read, declares the type under the package and its own name
(`opens_of_read_header`). That is the name it is indexed by, unless it is nested in others
(`qualifiedName?_of_top`).
-/

namespace JavaEdit

open Arena Relation Layout List

variable {a : Arena} {id : NodeId} {name : String} {rest : List Char} {t : Page}

/-! ## Texts of types -/

theorem Modifiers.Canonical.nodup {ms : Modifiers} (h : ms.Canonical) : ms.Nodup := by
  rw [← show ofPredicate ms.contains = ms from h]
  exact List.Nodup.filter _ (by decide)

theorem IsNote.variant_eq {ok : Page → Prop} (h : IsNote ok .use t) : t.variant = .annotationUse := by
  cases h with
  | noted => rfl
  | expression other => exact absurd rfl other

theorem heads_typeParameterText (ps : List Piece) (depth : Nat) (next : Heads endsName rest) :
    Heads endsName ((typeParameterText ps depth).toList ++ rest) := by
  unfold typeParameterText
  split
  · simpa using next
  · simp only [String.toList_append, append_assoc]
    exact .cons (by decide)

theorem heads_clause (keyword : String) (types : List Piece) (depth : Nat)
    (next : Heads endsName rest) : Heads endsName ((clause keyword types depth).toList ++ rest) := by
  unfold clause
  split
  · simpa using next
  · simp only [String.toList_append, append_assoc]
    exact .cons (by decide)

theorem heads_typeBodyText (members : List Piece) (depth : Nat) (rest : List Char) :
    Heads endsName ((typeBodyText members depth).toList ++ rest) := by
  unfold typeBodyText
  simp only [String.toList_append, append_assoc]
  exact .cons (by decide)

/-- The text of a type up to its name, and what may stand behind it. -/
structure OpensText (ok : Page → Prop) (t : Page) (notes : List Page) (ms : Modifiers) (keyword name : String)
    (rest : List Char) : Prop where
  isOk : ok t
  preface : IsPreface ok notes ms
  children : ∀ s ∈ notes, s ∈ t.kind.children
  known : keyword = "class" ∨ keyword = "interface"
  isName : isIdentifier name = true
  named : t.kind.simpleName? = some name
  stop : ∀ tail, Heads endsName (rest ++ tail)
  text : t.text.toList = (above t.label (notes.map piece) 0 ++ modifierText ms ++ (keyword ++ " ") ++ name).toList ++ rest

theorem opensText {ok : Page → Prop} {owner : Option String} (h : IsDeclaration ok owner t)
    (isType : t.variant.isType) : ∃ notes ms keyword name rest, OpensText ok t notes ms keyword name rest := by
  cases h with
  | @classDecl _ cs name ms notes typeParameters superclass interfaces members isName preface _ _ _ _ isOk =>
    refine ⟨notes, ms, "class", name, (typeParameterText (typeParameters.map piece) 0).toList ++
      ((clause "extends" (superclass.map piece).toList 0).toList ++ ((clause "implements" (interfaces.map piece) 0).toList ++
        (typeBodyText (members.map piece) 0).toList)), isOk, preface, fun s mem => ?_, .inl rfl, isName, rfl, fun tail => ?_, ?_⟩
    · simp [Tree.kind, Kind.children, mem]
    · simp only [append_assoc]
      exact heads_typeParameterText _ 0 (heads_clause _ _ 0 (heads_clause _ _ 0 (heads_typeBodyText _ 0 tail)))
    · simp only [Tree.text, text_node, Kind.map, nodeText, declarationPart, String.toList_append, append_assoc]
      rfl
  | @interfaceDecl _ cs name ms notes typeParameters supertypes members isName preface _ _ _ isOk =>
    refine ⟨notes, ms, "interface", name, (typeParameterText (typeParameters.map piece) 0).toList ++
      ((clause "extends" (supertypes.map piece) 0).toList ++ (typeBodyText (members.map piece) 0).toList), isOk, preface,
      fun s mem => ?_, .inr rfl, isName, rfl, fun tail => ?_, ?_⟩
    · simp [Tree.kind, Kind.children, mem]
    · simp only [append_assoc]
      exact heads_typeParameterText _ 0 (heads_clause _ _ 0 (heads_typeBodyText _ 0 tail))
    · simp only [Tree.text, text_node, Kind.map, nodeText, declarationPart, String.toList_append, append_assoc]
      rfl
  | method | constructor | field => cases isType

/-- A text with the package and imports of a unit and a type behind them, if it can be read, opens with
the type. -/
theorem OpensText.opens {package : Option String} {imports : List Import}
    (isPackage : ∀ n ∈ package, isDotted n) (isImport : ∀ i ∈ imports, isDotted i.path)
    {notes : List Page} {ms : Modifiers} {keyword : String} (h : OpensText Made t notes ms keyword name rest)
    (clear : ∀ s ∈ t.kind.children, s.variant = .annotationUse → IsNote Clear .use s) {file tail : String} {b : Arena}
    (read : a.readUnit file (headerText package imports ++ t.text ++ tail) = (.ok id, b)) :
    b.Opens package name id := by
  have isNote : ∀ s ∈ notes, IsNote Clear .use s := fun s mem =>
    clear s (h.children s mem) (h.preface.notes s mem).variant_eq
  refine opens_of_readUnit isPackage isImport h.isOk.1 isNote h.preface.modifiers.nodup h.known h.isName
    (h.stop tail.toList) ?_ read
  simp only [String.toList_append, h.text, append_assoc]

/-! ## Types of a unit -/

theorem Arena.TreeAt.header {root : NodeId} (unit : a.TreeAt (IsUnit Made) root) :
    ∃ package imports types, a.kind root = .compilationUnit package imports types ∧
      (a.commented root).headerText = headerText package imports ∧ (∀ n ∈ package, isDotted n) ∧
      ∀ i ∈ imports, isDotted i.path := by
  obtain ⟨rooted, isUnit⟩ := unit
  rw [rooted.commented_eq] at isUnit ⊢
  cases kind : a.kind root with
  | compilationUnit package imports types =>
    rw [kind] at isUnit
    obtain ⟨isPackage, _, isImport, _, _⟩ := isUnit
    exact ⟨package, imports, types, rfl, rfl, isPackage, isImport⟩
  | _ =>
    rw [kind] at isUnit
    cases isUnit

theorem Arena.qualifiedName?_of_top (isType : (a.variant id).isType)
    (named : a.simpleName? id = some name) (top : a.enclosingType? id = none) :
    a.qualifiedName? id = some (".".intercalate ((a.packageOf? id).toList ++ [name])) := by
  have none : (a.ancestors id).filter (fun up => (a.variant up).isType) = [] :=
    filter_eq_nil_iff.mpr (List.find?_eq_none.mp top)
  have only : ((id :: a.ancestors id).filter fun n => (a.variant n).isType).filterMap a.simpleName? = [name] := by
    rw [filter_cons, if_pos isType, none, filterMap_cons, named]
    rfl
  unfold qualifiedName?
  simp only [if_pos isType, only]
  cases a.packageOf? id <;> rfl

/-! ## Types of a project -/

namespace Project

variable {p : Project}

theorem ends_addUnit_written (written : ∀ u ∈ p.units, p.arena.TreeAt (IsUnit Made) u.root)
    (source : SourceText) (role : UnitRole) :
    Ends (addUnit source role) p (fun _ q => ∀ u ∈ q.units, q.arena.TreeAt (IsUnit Made) u.root) fun _ _ => True := by
  refine ends_addUnit (fun _ _ _ => trivial) fun root arena read grown => ?_
  refine (ends_register source.name role _ { p with arena }).mono ?_ fun _ _ _ => trivial
  rintro _ q ⟨sameArena, sameUnits⟩
  rw [sameArena, sameUnits]
  refine forall_mem_append.mpr ⟨fun u mem => (written u mem).extends ?_, ?_⟩
  · exact ⟨grown.size_le, fun x old => congrArg Node.kind (grown.node_eq old),
      fun x old => congrArg Node.comments (grown.node_eq old)⟩
  · exact forall_mem_singleton.mpr (isUnit_of_readUnit read)

theorem Loaded.written (loaded : Loaded p) : ∀ u ∈ p.units, p.arena.TreeAt (IsUnit Made) u.root :=
  loaded.holds nofun fun _ source role written => ends_addUnit_written written source role

theorem Indexed.declared (h : Indexed p) (entry : p.types.get? name = some id) :
    ∃ u ∈ p.units, id ∈ (p.arena.tree u.root).preorder ∧ p.arena.qualifiedName? id = some name := by
  have found : ∃ u ∈ p.units, id ∈ p.declarations name u := by
    rw [h.entry, Option.or_eq_some_iff] at entry
    rcases entry with input | ⟨-, classpath⟩
    · obtain ⟨u, mem, inside⟩ := mem_flatMap.mp (mem_of_mem_head? input)
      exact ⟨u, mem_units_iff.mpr (.inl mem), inside⟩
    · obtain ⟨u, mem, inside⟩ := mem_flatMap.mp (mem_of_mem_head? classpath)
      exact ⟨u, mem_units_iff.mpr (.inr mem), inside⟩
  obtain ⟨u, mem, inside⟩ := found
  obtain ⟨below, called⟩ := mem_filter.mp inside
  exact ⟨u, mem, below, beq_iff_eq.mp called⟩

/-- The text of an indexed type on its own, if it can be read, declares the type under the package of its unit and
its own name; if the type is in no other, that is the name it is indexed by. -/
theorem standalone_types_are_found {p : Project} (loaded : p.Loaded) {name : String} {id : NodeId}
    (entry : p.types.get? name = some id)
    (clear : ∀ s ∈ (p.arena.commented id).kind.children, s.variant = .annotationUse → IsNote Clear .use s) :
    ∃ simple, p.arena.simpleName? id = some simple ∧
      (∀ missing, Program.load (".".intercalate ((p.arena.packageOf? id).toList ++ [simple])) (p.standaloneSource id) ≠
        .error (.classNotFound missing)) ∧
      (p.arena.enclosingType? id = none → name = ".".intercalate ((p.arena.packageOf? id).toList ++ [simple])) := by
  have indexed := loaded.indexed
  obtain ⟨u, member, below, called⟩ := indexed.declared entry
  have unit := loaded.written u member
  have isType : (p.arena.variant id).isType = true := by
    unfold qualifiedName? at called
    split at called
    · assumption
    · cases called
  have reached := (mem_preorder_iff indexed.linked indexed.acyclic).mp below
  obtain ⟨rooted, owner, isDeclaration⟩ := isDeclaration_of_below unit reached isType
  obtain ⟨package, imports, types, kind, header, isPackage, isImport⟩ := unit.header
  have root : p.arena.unitOf? id = some u.root := (indexed.heads u member).unitOf? indexed.linked indexed.acyclic below
  have source : p.standaloneSource id = headerText package imports ++ (p.arena.commented id).text ++ "\n" := by
    unfold standaloneSource Fragment.headerOf
    rw [root]
    exact congrArg (· ++ _ ++ _) header
  have packageOf : p.arena.packageOf? id = package := by
    unfold packageOf?
    simp only [root, Option.bind_eq_bind, Option.bind_some, kind]
  obtain ⟨notes, ms, keyword, simple, rest, opens⟩ := opensText isDeclaration (by rwa [rooted.variant_commented])
  have named : p.arena.simpleName? id = some simple := by
    have shown := opens.named
    rw [rooted.commented_eq] at shown
    exact (Kind.simpleName?_map ..).symm.trans shown
  refine ⟨simple, named, fun missing => ?_, fun top => ?_⟩
  · rw [packageOf, source]
    exact Program.load_ne_classNotFound (fun _ _ _ read => opens.opens isPackage isImport clear read) missing
  · exact Option.some_inj.mp (called.symm.trans (qualifiedName?_of_top isType named top))

/-- A class inside another one. -/
def nestedClass : Project :=
  ((addUnit ⟨"A.java", none, "package p; class A \x7b class B \x7b \x7d \x7d"⟩ .input).run.run empty).2

/-- The text of a nested type on its own does not declare it under its name: the types around it are
not part of the text. -/
theorem nested_class_is_not_found :
    nestedClass.findType? "p.A.B" = some 0 ∧ nestedClass.arena.qualifiedName? 0 = some "p.A.B" ∧
      nestedClass.standaloneSource 0 = "package p;\n\nclass B \x7b\n\x7d\n" ∧
      (match Program.load "p.A.B" (nestedClass.standaloneSource 0) with
        | .error e => e == .classNotFound "p.A.B"
        | .ok _ => false) = true := by
  decide +kernel

theorem standalone_types_are_found_top : nestedClass.Loaded ∧
    ∀ missing, Program.load "p.A" (nestedClass.standaloneSource 1) ≠ .error (.classNotFound missing) := by
  have loaded : nestedClass.Loaded := .unit .empty (by decide +kernel)
  obtain ⟨entry, noNotes, named, top, package⟩ : nestedClass.types.get? "p.A" = some 1 ∧
      (∀ s ∈ (nestedClass.arena.commented 1).kind.children, s.variant ≠ .annotationUse) ∧
      nestedClass.arena.simpleName? 1 = some "A" ∧ nestedClass.arena.enclosingType? 1 = none ∧
      nestedClass.arena.packageOf? 1 = some "p" := by decide +kernel
  obtain ⟨simple, _, found, same⟩ :=
    standalone_types_are_found loaded entry fun s member isNote => absurd isNote (noNotes s member)
  exact ⟨loaded, same top ▸ found⟩

end Project

end JavaEdit
