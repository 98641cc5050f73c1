import JavaEdit.Proofs.Machine.Members
import JavaEdit.Proofs.RoundTrip.Heads

/-!
# Classes of a program

A source that is read declares its classes and interfaces under the names of the package, of the types
around them and their own. A class is missing only where none of them has the name that is asked for:
whatever is wrong with the classes themselves is reported in another way. So the first type of a unit
is never missing under the package and its own name.
-/

namespace JavaEdit

open List Kind

/-! ## Declarations -/

namespace Tree

variable {ι β : Type}

theorem combine_node (f : ι → Kind (Tree ι × β) → β) (label : ι) (kind : Kind (Tree ι)) :
    (Tree.node label kind).combine f = f label (kind.map fun t => (t, t.combine f)) := by
  have pair : ∀ t : Tree ι, t.fold (fun label kind => (Tree.node label (kind.map Prod.fst), f label kind)) =
      (t, t.combine f) := by
    intro t
    induction t using Tree.induct with
    | step label kind ih =>
      refine Prod.ext ?_ rfl
      rw [fold_node, Kind.map_map]
      show Tree.node label (kind.map _) = _
      rw [Kind.map_congr fun t child => congrArg Prod.fst (ih t child), Kind.map_id]
  unfold combine
  rw [fold_node]
  exact congrArg (f label) (map_congr fun t _ => pair t)

theorem typeDeclarations_unit (package : Option String) (imports : List Import) (types : List (Tree Unit))
    (around : List String) : typeDeclarations (.node () (.compilationUnit package imports types)) around =
      types.flatMap fun t => t.typeDeclarations around := by
  unfold typeDeclarations
  rw [combine_node]
  simp only [Kind.map, Kind.children, flatMap_map]

/-- A class or an interface is among the declarations from it on. -/
theorem mem_typeDeclarations {k : Kind (Tree Unit)} (isType : k.variant.isType) (around : List String) :
    ⟨around, .node () k⟩ ∈ typeDeclarations (.node () k) around := by
  have back : (k.map fun t => (t, t.typeDeclarations)).map Prod.fst = k := by
    rw [Kind.map_map, Kind.map_id]
  unfold typeDeclarations at back ⊢
  rw [combine_node]
  cases k with
  | classDecl | interfaceDecl =>
    refine mem_cons.mpr (.inl ?_)
    rw [back]
  | _ => cases isType

end Tree

/-! ## Missing classes -/

variable {e : LoadError}

theorem ClassInfo.addMembers_error {c : ClassInfo} {signatures : List String} {ts : List (Tree Unit)}
    (failed : c.addMembers signatures ts = .error e) (name : String) : e ≠ .classNotFound name := by
  obtain ⟨before, t, after, -, refused⟩ := addMembers_refused failed
  cases refused <;> nofun

theorem ClassInfo.ofTree_error {outer : Option String} {t : Tree Unit}
    (failed : ClassInfo.ofTree outer t = .error e) (name : String) : e ≠ .classNotFound name := by
  unfold ClassInfo.ofTree at failed
  split at failed
  · exact addMembers_error failed name
  · exact addMembers_error failed name
  · cases failed; nofun

namespace Program

theorem addClasses_error {p : Program} {ds : List TypeDeclaration}
    (failed : p.addClasses ds = .error e) (name : String) : e ≠ .classNotFound name := by
  induction ds generalizing p with
  | nil => cases failed
  | cons d ds ih =>
    unfold addClasses at failed
    split at failed
    · next refused => cases failed; exact ClassInfo.ofTree_error refused name
    · split at failed
      · cases failed; nofun
      · exact ih failed

theorem ofTree_ne_classNotFound {t : Tree Unit} {d : TypeDeclaration} (declared : d ∈ t.typeDeclarations [])
    (missing : String) : ofTree (d.qualifiedName (packageOf t)) t ≠ .error (.classNotFound missing) := by
  intro failed
  simp only [ofTree] at failed
  split at failed
  · next refused => cases failed; exact addClasses_error refused missing rfl
  · have found : ((t.typeDeclarations []).any fun other =>
        other.qualifiedName (packageOf t) == d.qualifiedName (packageOf t)) :=
      any_eq_true.mpr ⟨d, declared, beq_self_eq_true _⟩
    rw [if_pos found] at failed
    cases failed

variable {package : Option String}

/-- The first type of a unit is a declaration of the program, under the package and its own name. -/
theorem ofTree_ne_classNotFound_of_opens {a : Arena} {id : NodeId} (rooted : a.Rooted id)
    {name : String} (opens : a.Opens package name id) (missing : String) :
    ofTree (".".intercalate (package.toList ++ [name])) (a.bare id) ≠ .error (.classNotFound missing) := by
  obtain ⟨imports, first, others, unit, declares⟩ := opens
  have child : first ∈ a.children id := by
    unfold Arena.children
    rw [unit]
    exact .head _
  have firstBare : (a.commented first).bare = .node () ((a.kind first).map fun c => (a.commented c).bare) := by
    rw [(rooted.child child).commented_eq, Tree.bare_node, Kind.map_map]
  have unitBare : a.bare id = .node () (.compilationUnit package imports
      ((first :: others).map fun c => (a.commented c).bare)) := by
    rw [Arena.bare_eq, rooted.commented_eq, Tree.bare_node, Kind.map_map, unit]
    rfl
  have declared : ⟨[], (a.commented first).bare⟩ ∈ (a.bare id).typeDeclarations [] := by
    rw [unitBare, Tree.typeDeclarations_unit, mem_flatMap]
    refine ⟨(a.commented first).bare, .head _, ?_⟩
    rw [firstBare]
    exact Tree.mem_typeDeclarations ((congrArg _ (variant_map ..)).trans declares.isType) []
  have same := ofTree_ne_classNotFound declared missing
  have package_eq : packageOf (a.bare id) = package := by rw [unitBare]; rfl
  have name_eq : (a.commented first).bare.kind.simpleName? = some name := by
    rw [firstBare]
    exact (Kind.simpleName?_map ..).trans declares.named
  unfold TypeDeclaration.qualifiedName at same
  rw [package_eq, name_eq, reverse_nil, append_nil] at same
  exact same

theorem load_ne_classNotFound {name source : String}
    (opens : ∀ file id a, Arena.empty.readUnit file source = (.ok id, a) → a.Opens package name id) (missing : String) :
    load (".".intercalate (package.toList ++ [name])) source ≠ .error (.classNotFound missing) := by
  unfold load
  split
  · nofun
  · next id a read => exact ofTree_ne_classNotFound_of_opens (Arena.isUnit_of_readUnit read).1 (opens _ id a read) missing

end Program

end JavaEdit
