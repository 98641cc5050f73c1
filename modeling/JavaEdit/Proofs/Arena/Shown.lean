import JavaEdit.Proofs.Arena.Descent

/-!
# The trees that arenas show

A node that was made after everything below it shows a tree: `Shows a id t` says that the tree
below `id`, with its comments, is `t`. What is shown stays shown while the arena grows, and a new
node shows the trees of its children under its own payload (`Shows.alloc`). Two nodes are
structurally equal exactly if the trees that they hold are alike (`structurallyEqual_iff`).
-/

namespace JavaEdit.Arena

variable {a b : Arena} {id : NodeId}

/-- Everything below a node is in the arena and was made before what stands above it. -/
inductive Rooted (a : Arena) : NodeId → Prop
  | node {id : NodeId} : id < a.size → (∀ c ∈ a.children id, c < id) →
      (∀ c ∈ a.children id, Rooted a c) → Rooted a id

theorem Rooted.lt (h : Rooted a id) : id < a.size := by
  cases h
  assumption

theorem Rooted.older {c : NodeId} (h : Rooted a id) (mem : c ∈ a.children id) : c < id := by
  cases h with
  | node _ older _ => exact older c mem

theorem Rooted.child {c : NodeId} (h : Rooted a id) (mem : c ∈ a.children id) : Rooted a c := by
  cases h with
  | node _ _ rooted => exact rooted c mem

theorem Rooted.reached {x : NodeId} (h : Rooted a id) (reached : a.Reaches id x) : Rooted a x := by
  induction reached with
  | refl => exact h
  | tail _ child ih => exact ih.child child

theorem Rooted.acyclicBelow (h : Rooted a id) : AcyclicBelow a id :=
  acyclicBelow_of_older fun _ reached _ child => (h.reached reached).older child

/-- A node shows its comments and payload above what its children show. -/
theorem AcyclicBelow.commented_eq (h : AcyclicBelow a id) :
    a.commented id = .node (a.comments id) ((a.kind id).map a.commented) := by
  unfold commented
  rw [h.tree_eq, Tree.mapLabels, Tree.fold_node, Kind.map_map]
  rfl

theorem Rooted.commented_eq (h : Rooted a id) :
    a.commented id = .node (a.comments id) ((a.kind id).map a.commented) := h.acyclicBelow.commented_eq

/-- The arena `b` has the nodes of `a`, which may have got other parents, and maybe more. -/
structure Extends (a b : Arena) : Prop where
  size_le : a.size ≤ b.size
  kind_eq : ∀ id, id < a.size → b.kind id = a.kind id
  comments_eq : ∀ id, id < a.size → b.comments id = a.comments id

theorem Extends.refl (a : Arena) : Extends a a := ⟨Nat.le_refl _, fun _ _ => rfl, fun _ _ => rfl⟩

theorem Extends.trans {c : Arena} (h : Extends a b) (h' : Extends b c) : Extends a c where
  size_le := Nat.le_trans h.size_le h'.size_le
  kind_eq id old := by rw [h'.kind_eq id (Nat.lt_of_lt_of_le old h.size_le), h.kind_eq id old]
  comments_eq id old := by
    rw [h'.comments_eq id (Nat.lt_of_lt_of_le old h.size_le), h.comments_eq id old]

theorem comments_alloc (a : Arena) (k : Kind NodeId) (pos : Position) (cs : List Comment) (other : NodeId) :
    (a.alloc k pos cs).2.comments other = if other = a.size then cs else a.comments other := by
  unfold comments
  rw [node_alloc]
  split
  · rfl
  · split <;> rfl

@[simp] theorem comments_setKind (a : Arena) (id other : NodeId) (k : Kind NodeId) :
    (a.setKind id k).comments other = a.comments other := by
  unfold comments setKind
  rw [node_modify]
  split <;> rfl

@[simp] theorem comments_setParent (a : Arena) (id other : NodeId) (p : Option NodeId) :
    (a.setParent id p).comments other = a.comments other := by
  unfold comments setParent
  rw [node_modify]
  split <;> rfl

theorem extends_alloc (a : Arena) (k : Kind NodeId) (pos : Position) (cs : List Comment) :
    Extends a (a.alloc k pos cs).2 where
  size_le := by rw [size_alloc]; exact Nat.le_succ _
  kind_eq id old := by rw [kind_alloc, if_neg (Nat.ne_of_lt old)]
  comments_eq id old := by rw [comments_alloc, if_neg (Nat.ne_of_lt old)]

/-- The tree below a node depends only on the nodes that were made up to it, from one on that no link leads behind. -/
theorem Rooted.congr_from {n : Nat} (apart : ∀ x, n ≤ x → ∀ c ∈ a.children x, n ≤ c) (h : Rooted a id) (first : n ≤ id)
    (size_le : a.size ≤ b.size) (kind_eq : ∀ x, n ≤ x → x ≤ id → b.kind x = a.kind x)
    (comments_eq : ∀ x, x ≤ id → b.comments x = a.comments x) : Rooted b id ∧ b.commented id = a.commented id := by
  induction h with
  | @node id inside older rooted ih =>
    have same : b.children id = a.children id := by
      unfold children
      rw [kind_eq id first (Nat.le_refl _)]
    have below : ∀ c ∈ a.children id, Rooted b c ∧ b.commented c = a.commented c := by
      intro c mem
      refine ih c mem (apart id first c mem) (fun x start le => kind_eq x start ?_) fun x le => comments_eq x ?_
      · exact Nat.le_trans le (Nat.le_of_lt (older c mem))
      · exact Nat.le_trans le (Nat.le_of_lt (older c mem))
    have there : Rooted b id := by
      refine .node (Nat.lt_of_lt_of_le inside size_le) ?_ ?_
      · rw [same]
        exact older
      · rw [same]
        exact fun c mem => (below c mem).1
    refine ⟨there, ?_⟩
    rw [there.commented_eq, (Rooted.node inside older rooted).commented_eq,
      kind_eq id first (Nat.le_refl _), comments_eq id (Nat.le_refl _)]
    exact congrArg _ (Kind.map_congr fun c mem => (below c mem).2)

theorem Rooted.congr (h : Rooted a id) (size_le : a.size ≤ b.size) (kind_eq : ∀ x, x ≤ id → b.kind x = a.kind x)
    (comments_eq : ∀ x, x ≤ id → b.comments x = a.comments x) : Rooted b id ∧ b.commented id = a.commented id :=
  h.congr_from (fun _ _ _ _ => Nat.zero_le _) (Nat.zero_le _) size_le (fun x _ => kind_eq x) comments_eq

theorem Rooted.extends (h : Rooted a id) (grown : Extends a b) : Rooted b id ∧ b.commented id = a.commented id :=
  h.congr grown.size_le (fun x le => grown.kind_eq x (Nat.lt_of_le_of_lt le h.lt))
    fun x le => grown.comments_eq x (Nat.lt_of_le_of_lt le h.lt)

theorem Rooted.tree_extends (h : Rooted a id) (grown : Extends a b) : b.tree id = a.tree id := by
  induction h with
  | @node id inside older rooted ih =>
    have here : Rooted a id := .node inside older rooted
    rw [(here.extends grown).1.acyclicBelow.tree_eq, here.acyclicBelow.tree_eq, grown.kind_eq id inside]
    exact congrArg _ (Kind.map_congr ih)

/-! ## Comments put on a node -/

theorem foldl_addComment (cs : List Comment) (id : NodeId) (a : Arena) :
    let b := cs.foldl (fun a c => a.addComment id c) a
    b.size = a.size ∧ (∀ x, b.kind x = a.kind x) ∧
      ∀ x, b.comments x = if x = id ∧ id < a.size then a.comments x ++ cs else a.comments x := by
  induction cs generalizing a with
  | nil => exact ⟨rfl, fun _ => rfl, fun x => by simp⟩
  | cons c cs ih =>
    obtain ⟨size, kind, comments⟩ := ih (a.addComment id c)
    have same : (a.addComment id c).size = a.size := size_modify ..
    refine ⟨size.trans same, fun x => (kind x).trans (links_modify_comments a id x (· ++ [c])).1, fun x => ?_⟩
    refine (comments x).trans ?_
    rw [same]
    unfold Arena.comments addComment
    rw [node_modify]
    split <;> simp

/-- Comments may be put on nodes that an arena got later. -/
theorem Extends.attached (h : Extends a b) (fresh : a.size ≤ id) (cs : List Comment) :
    Extends a (cs.foldl (fun a c => a.addComment id c) b) := by
  obtain ⟨size, kind, comments⟩ := foldl_addComment cs id b
  refine ⟨Nat.le_trans h.size_le (Nat.le_of_eq size.symm), fun x old => ?_, fun x old => ?_⟩
  · exact (kind x).trans (h.kind_eq x old)
  · refine (comments x).trans ((if_neg fun same => ?_).trans (h.comments_eq x old))
    exact absurd (same.1 ▸ old) (Nat.not_lt.mpr fresh)

/-- Comments that are put on a node show behind those it has. -/
theorem Rooted.attached (h : Rooted a id) (cs : List Comment) :
    let b := cs.foldl (fun a c => a.addComment id c) a
    Rooted b id ∧ b.commented id = .node (a.comments id ++ cs) ((a.kind id).map a.commented) := by
  intro b
  obtain ⟨size, kind, comments⟩ := foldl_addComment cs id a
  have inside := h.lt
  have children : b.children id = a.children id := congrArg Kind.children (kind id)
  cases h with
  | node _ older below =>
    have lower : ∀ c ∈ a.children id, Rooted b c ∧ b.commented c = a.commented c := by
      intro c mem
      refine (below c mem).congr (Nat.le_of_eq size.symm) (fun x _ => kind x) fun x le => ?_
      refine (comments x).trans (if_neg fun same => ?_)
      exact absurd (same.1 ▸ older c mem) (Nat.not_lt.mpr le)
    have there : Rooted b id := by
      refine .node (size ▸ inside) ?_ ?_
      · rw [children]
        exact older
      · rw [children]
        exact fun c mem => (lower c mem).1
    refine ⟨there, ?_⟩
    rw [there.commented_eq, kind id, (comments id).trans (if_pos ⟨rfl, inside⟩)]
    exact congrArg _ (Kind.map_congr fun c mem => (lower c mem).2)

/-! ## Shown trees -/

/-- The tree below a node. -/
def Shows (a : Arena) (id : NodeId) (t : Tree (List Comment)) : Prop := Rooted a id ∧ a.commented id = t

/-- The trees below some nodes. -/
def ShowsAll (a : Arena) (ids : List NodeId) (ts : List (Tree (List Comment))) : Prop :=
  (∀ id ∈ ids, Rooted a id) ∧ ids.map a.commented = ts

section Shows

variable {ids : List NodeId} {t : Tree (List Comment)} {ts : List (Tree (List Comment))}

theorem Shows.extends (h : Shows a id t) (grown : Extends a b) : Shows b id t := by
  obtain ⟨rooted, same⟩ := h.1.extends grown
  exact ⟨rooted, same.trans h.2⟩

theorem ShowsAll.nil (a : Arena) : ShowsAll a [] [] := ⟨fun _ mem => absurd mem List.not_mem_nil, rfl⟩

theorem ShowsAll.cons (first : Shows a id t) (others : ShowsAll a ids ts) : ShowsAll a (id :: ids) (t :: ts) :=
  ⟨List.forall_mem_cons.mpr ⟨first.1, others.1⟩, by rw [List.map_cons, first.2, others.2]⟩

theorem ShowsAll.extends (h : ShowsAll a ids ts) (grown : Extends a b) : ShowsAll b ids ts := by
  refine ⟨fun id mem => ((h.1 id mem).extends grown).1, ?_⟩
  rw [← h.2]
  exact List.map_congr_left fun id mem => ((h.1 id mem).extends grown).2

theorem Shows.alloc {k : Kind NodeId} {shown : Kind (Tree (List Comment))}
    (rooted : ∀ c ∈ k.children, Rooted a c) (same : k.map a.commented = shown) (pos : Position)
    (cs : List Comment) : Shows (a.alloc k pos cs).2 a.size (.node cs shown) := by
  have grown := extends_alloc a k pos cs
  have kept := fun c mem => (rooted c mem).extends grown
  have there : Rooted (a.alloc k pos cs).2 a.size := by
    refine .node (by rw [size_alloc]; exact Nat.lt_succ_self _) ?_ ?_
    · rw [children_alloc, if_pos rfl]
      exact fun c mem => (rooted c mem).lt
    · rw [children_alloc, if_pos rfl]
      exact fun c mem => (kept c mem).1
  refine ⟨there, ?_⟩
  rw [there.commented_eq, comments_alloc, if_pos rfl, kind_alloc, if_pos rfl,
    Kind.map_congr fun c mem => (kept c mem).2, same]

end Shows

end JavaEdit.Arena

namespace JavaEdit.Tree

open List

variable {ι κ : Type}

theorem mapLabels_node (f : ι → κ) (label : ι) (kind : Kind (Tree ι)) :
    mapLabels f (.node label kind) = .node (f label) (kind.map (mapLabels f)) := by
  unfold mapLabels
  rw [fold_node]

theorem bare_node (label : ι) (kind : Kind (Tree ι)) : bare (.node label kind) = .node () (kind.map bare) :=
  mapLabels_node ..

/-- Of labels that are changed twice only the last ones are left. -/
theorem mapLabels_mapLabels {μ : Type} (g : κ → μ) (f : ι → κ) (t : Tree ι) :
    (t.mapLabels f).mapLabels g = t.mapLabels (fun label => g (f label)) := by
  induction t using Tree.induct with
  | step label kind ih =>
    rw [mapLabels_node, mapLabels_node, mapLabels_node, Kind.map_map]
    exact congrArg _ (Kind.map_congr ih)

theorem bare_mapLabels (f : ι → κ) (t : Tree ι) : (t.mapLabels f).bare = t.bare := mapLabels_mapLabels ..

theorem size_bare (t : Tree ι) : t.bare.size = t.size := by
  induction t using Tree.induct with
  | step label kind ih =>
    rw [bare_node, size_node, size_node, Kind.children_map, map_map]
    exact congrArg (fun ns : List Nat => 1 + ns.sum) (map_congr_left ih)

/-- Trees whose payloads agree node by node. -/
inductive Alike : Tree Unit → Tree Unit → Prop
  | node {k k' : Kind (Tree Unit)} : Kind.shapesAgree k.shape k'.shape = true →
      k.children.length = k'.children.length →
      (∀ p ∈ k.children.zip k'.children, Alike p.1 p.2) → Alike (.node () k) (.node () k')

theorem alike_node (k k' : Kind (Tree Unit)) : Alike (.node () k) (.node () k') ↔
      (Kind.shapesAgree k.shape k'.shape ∧ k.children.length = k'.children.length) ∧
        ∀ p ∈ k.children.zip k'.children, p.1.Alike p.2 := by
  constructor
  · rintro ⟨shapes, lengths, below⟩
    exact ⟨⟨shapes, lengths⟩, below⟩
  · rintro ⟨⟨shapes, lengths⟩, below⟩
    exact .node shapes lengths below

/-- A payload that agrees with itself; not a number does not. -/
def AgreesWithItself (k : Kind (Tree Unit)) : Prop := Kind.shapesAgree k.shape k.shape = true

/-- A tree is like itself exactly if all its payloads agree with themselves. -/
theorem alike_self_iff (t : Tree Unit) : t.Alike t ↔ t.Every AgreesWithItself := by
  induction t using Tree.induct with
  | step label k ih =>
    have pairs : (∀ p ∈ k.children.zip k.children, p.1.Alike p.2) ↔ ∀ t ∈ k.children, t.Alike t := by
      have doubled := zip_map' (f := id) (g := id) (l := k.children)
      rw [map_id] at doubled
      rw [doubled, forall_mem_map]
      rfl
    rw [alike_node, pairs]
    constructor
    · rintro ⟨⟨here, -⟩, below⟩
      exact .node here fun t mem => (ih t mem).mp (below t mem)
    · rintro ⟨here, below⟩
      exact ⟨⟨here, rfl⟩, fun t mem => (ih t mem).mpr (below t mem)⟩

end JavaEdit.Tree

namespace JavaEdit.Arena

open List

variable {a : Arena}

/-! ## Structural equality -/

/-- The payloads below a node are those of a tree. -/
inductive Holds (a : Arena) : NodeId → Tree Unit → Prop
  | node {id : NodeId} {k : Kind (Tree Unit)} : (a.kind id).shape = k.shape →
      (∀ p ∈ (a.children id).zip k.children, Holds a p.1 p.2) → Holds a id (.node () k)

theorem length_children_of_shape {α β : Type} {k : Kind α} {k' : Kind β}
    (h : k.shape = k'.shape) : k.children.length = k'.children.length := by
  have children := congrArg (fun k : Kind Unit => k.children.length) h
  simpa [Kind.shape] using children

/-- Items of two pairs of lists at one place. -/
theorem mem_zip_of_mem_zip_zip {α β γ δ : Type} {xs : List α} {ys : List β} {zs : List γ}
    {ws : List δ} {w : (α × β) × (γ × δ)} (h : w ∈ (xs.zip ys).zip (zs.zip ws)) :
    (w.1.1, w.2.1) ∈ xs.zip zs ∧ (w.1.2, w.2.2) ∈ ys.zip ws := by
  obtain ⟨i, inside, rfl⟩ := mem_iff_getElem.mp h
  simp only [length_zip] at inside
  simp only [getElem_zip]
  constructor
  · exact mem_iff_getElem.mpr ⟨i, by rw [length_zip]; omega, getElem_zip⟩
  · exact mem_iff_getElem.mpr ⟨i, by rw [length_zip]; omega, getElem_zip⟩

theorem pairsAgree_iff {b : Arena} (fuel : Nat) : ∀ work : List ((NodeId × NodeId) × (Tree Unit × Tree Unit)),
      (∀ w ∈ work, Holds a w.1.1 w.2.1 ∧ Holds b w.1.2 w.2.2) →
      (work.map fun w => w.2.1.size).sum ≤ fuel →
      (a.pairsAgree b fuel (work.map Prod.fst) ↔ ∀ w ∈ work, w.2.1.Alike w.2.2) := by
  induction fuel with
  | zero =>
    intro work _ enough
    cases work with
    | nil => simp [pairsAgree.eq_def]
    | cons w work =>
      obtain ⟨pair, ⟨label, k⟩, t⟩ := w
      rw [map_cons, sum_cons, Tree.size_node] at enough
      omega
  | succ fuel ih =>
    intro work held enough
    cases work with
    | nil => simp [pairsAgree.eq_def]
    | cons w work =>
      obtain ⟨⟨l, r⟩, ⟨label, k⟩, ⟨label', k'⟩⟩ := w
      obtain ⟨left, right⟩ := held _ (.head _)
      cases left with
      | node leftShape leftChildren =>
      cases right with
      | node rightShape rightChildren =>
      have leftLength : (a.children l).length = k.children.length := length_children_of_shape leftShape
      have rightLength : (b.children r).length = k'.children.length := length_children_of_shape rightShape
      have unfolded : a.pairsAgree b (fuel + 1) ((l, r) :: work.map Prod.fst) =
          (Kind.shapesAgree k.shape k'.shape && (k.children.length == k'.children.length)
            && a.pairsAgree b fuel ((a.children l).zip (b.children r) ++ work.map Prod.fst)) := by
        rw [pairsAgree, leftShape, rightShape, ← leftLength, ← rightLength]
        rfl
      rw [map_cons, unfolded, forall_mem_cons, Tree.alike_node]
      simp only [Bool.and_eq_true, beq_iff_eq]
      by_cases lengths : k.children.length = k'.children.length
      · -- the children are looked at next, each pair with the trees that the two hold
        let next := ((a.children l).zip (b.children r)).zip (k.children.zip k'.children)
        have firsts : next.map Prod.fst = (a.children l).zip (b.children r) :=
          map_fst_zip (by simp only [length_zip]; omega)
        have seconds : next.map Prod.snd = k.children.zip k'.children :=
          map_snd_zip (by simp only [length_zip]; omega)
        have sizes : (next.map fun w => w.2.1.size) = k.children.map Tree.size := by
          have trees : next.map (fun w => w.2.1) = k.children := by
            rw [← Function.comp_def Prod.fst Prod.snd, ← map_map, seconds]
            exact map_fst_zip (by omega)
          rw [← trees, map_map]
          rfl
        have rest := ih (next ++ work) ?_ ?_
        · rw [map_append, firsts, forall_mem_append] at rest
          rw [rest, ← seconds, forall_mem_map]
          exact and_assoc.symm
        · intro w mem
          rcases mem_append.mp mem with child | other
          · obtain ⟨inLeft, inRight⟩ := mem_zip_of_mem_zip_zip child
            exact ⟨leftChildren _ inLeft, rightChildren _ inRight⟩
          · exact held w (.tail _ other)
        · rw [map_append, sum_append, sizes]
          rw [map_cons, sum_cons, Tree.size_node] at enough
          omega
      · simp only [lengths, and_false, false_and]

variable {id : NodeId}

theorem holds_map {f : NodeId → Tree Unit}
    (below : ∀ c ∈ a.children id, Holds a c (f c)) : Holds a id (.node () ((a.kind id).map f)) := by
  refine .node (by simp [Kind.shape]) fun p mem => ?_
  rw [Kind.children_map] at mem
  obtain ⟨c, inside, rfl⟩ : ∃ c ∈ a.children id, p = (c, f c) := by
    obtain ⟨i, inside, rfl⟩ := mem_iff_getElem.mp mem
    simp only [length_zip, length_map] at inside
    exact ⟨(a.children id).get ⟨i, by omega⟩, get_mem .., by
      rw [getElem_zip, getElem_map]
      rfl⟩
  exact below c inside

/-- A tree without empty statements was not cut off. -/
theorem holds_unfold (n : Nat) (id : NodeId)
    (whole : (a.unfold n id).bare.Every fun k => k ≠ .empty) : Holds a id (a.unfold n id).bare := by
  induction n generalizing id with
  | zero =>
    cases whole with
    | node some _ => exact absurd rfl some
  | succ n ih =>
    rw [unfold, Tree.bare_node, Kind.map_map] at whole ⊢
    cases whole with
    | node _ below =>
      refine holds_map fun c mem => ih c (below _ ?_)
      rw [Kind.children_map]
      exact mem_map_of_mem mem

theorem AcyclicBelow.bare_eq {x : NodeId} (h : AcyclicBelow a x) : a.bare x = .node () ((a.kind x).map a.bare) := by
  unfold bare
  rw [h.tree_eq, Tree.bare_node, Kind.map_map]

theorem AcyclicBelow.holds_bare (h : AcyclicBelow a id) : Holds a id (a.bare id) :=
  h.induct fun _ acyclic ih => acyclic.bare_eq ▸ holds_map ih

theorem Rooted.holds (h : Rooted a id) : Holds a id (a.commented id).bare := by
  rw [commented, Tree.bare_mapLabels]
  exact h.acyclicBelow.holds_bare

theorem structurallyEqual_iff {b : Arena} {l r : NodeId} {t t' : Tree Unit}
    (left : Holds a l t) (size : (a.tree l).size = t.size) (right : Holds b r t') :
    a.structurallyEqual l b r ↔ t.Alike t' := by
  have pairs := pairsAgree_iff (a := a) (b := b) (a.tree l).size [((l, r), (t, t'))]
    (by simp [left, right]) (by simp [size])
  simpa [structurallyEqual] using pairs

end JavaEdit.Arena
