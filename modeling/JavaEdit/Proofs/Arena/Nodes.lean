import JavaEdit.Arena.Copy
import JavaEdit.Proofs.Node.Slots

/-!
# Nodes behind the basic changes

Every change of an arena is put together from `Arena.modify` and `Arena.alloc`. This module says
what node stands at each index behind them, so that later proofs speak about payloads and parents
and never about the array.
-/

namespace JavaEdit.Arena

variable {a : Arena} {id : NodeId}

/-! ## Reading -/

theorem node_of_le (h : a.size ≤ id) : a.node id = .blank := by
  unfold node
  rw [Array.getD_eq_getD_getElem?, Array.getElem?_eq_none h]
  rfl

theorem kind_of_le (h : a.size ≤ id) : a.kind id = .empty := by
  unfold kind
  rw [node_of_le h]
  rfl

theorem parent_of_le (h : a.size ≤ id) : a.parent id = none := by
  unfold parent
  rw [node_of_le h]
  rfl

theorem children_of_le (h : a.size ≤ id) : a.children id = [] := by
  unfold children kind
  rw [node_of_le h]
  rfl

/-! ## One node changed -/

section Changed

variable (a id) (other : NodeId) (k : Kind NodeId) (p : Option NodeId)

@[simp] theorem size_modify (f : Node → Node) : (a.modify id f).size = a.size := by
  simp [modify, size]

theorem node_modify (f : Node → Node) : (a.modify id f).node other =
      if other = id ∧ id < a.size then f (a.node other) else a.node other := by
  unfold modify node size
  simp only [Array.getD_eq_getD_getElem?, Array.getElem?_modify]
  by_cases same : id = other
  · subst same
    by_cases inside : id < a.nodes.size
    · simp [inside]
    · simp [inside]
  · have different : ¬ other = id := fun equal => same equal.symm
    simp [same, different]

@[simp] theorem size_setKind : (a.setKind id k).size = a.size := size_modify ..

@[simp] theorem size_setParent : (a.setParent id p).size = a.size := size_modify ..

@[simp] theorem parent_setKind : (a.setKind id k).parent other = a.parent other := by
  unfold parent setKind
  rw [node_modify]
  split <;> rfl

theorem kind_setKind : (a.setKind id k).kind other = if other = id ∧ id < a.size then k else a.kind other := by
  unfold kind setKind
  rw [node_modify]
  split <;> rfl

theorem children_setKind : (a.setKind id k).children other =
      if other = id ∧ id < a.size then k.children else a.children other := by
  unfold children
  rw [kind_setKind]
  split <;> rfl

@[simp] theorem kind_setParent : (a.setParent id p).kind other = a.kind other := by
  unfold kind setParent
  rw [node_modify]
  split <;> rfl

@[simp] theorem children_setParent : (a.setParent id p).children other = a.children other := by
  simp [children]

theorem parent_setParent :
    (a.setParent id p).parent other = if other = id ∧ id < a.size then p else a.parent other := by
  unfold parent setParent
  rw [node_modify]
  split <;> rfl

/-- A change of the comments alone leaves payload and parent. -/
theorem links_modify_comments (f : List Comment → List Comment) :
    (a.modify id fun n => { n with comments := f n.comments }).kind other = a.kind other ∧
    (a.modify id fun n => { n with comments := f n.comments }).parent other = a.parent other := by
  unfold kind parent
  rw [node_modify]
  split <;> exact ⟨rfl, rfl⟩

end Changed

/-! ## A new node -/

theorem node_adopt (cs : List NodeId) (id : NodeId) :
    ∀ a : Arena, (cs.foldl (fun a c => a.setParent c (some id)) a).size = a.size ∧
      ∀ other, (cs.foldl (fun a c => a.setParent c (some id)) a).node other =
        if other ∈ cs ∧ other < a.size then { a.node other with parent := some id }
        else a.node other := by
  induction cs with
  | nil =>
    intro a
    exact ⟨rfl, fun other => by simp⟩
  | cons c cs ih =>
    intro a
    obtain ⟨hsize, hnode⟩ := ih (a.setParent c (some id))
    refine ⟨by rw [List.foldl_cons, hsize, size_setParent], fun other => ?_⟩
    rw [List.foldl_cons, hnode, size_setParent, setParent, node_modify]
    by_cases same : other = c
    · subst same
      by_cases inside : other < a.size <;> simp [inside]
    · by_cases mem : other ∈ cs <;> simp [same, mem]

variable (a) (k : Kind NodeId) (pos : Position) (cs : List Comment) (other : NodeId)

@[simp] theorem size_alloc : (a.alloc k pos cs).2.size = a.size + 1 := by
  have := (node_adopt k.children a.size a).1
  unfold size at this
  simp [alloc, size, this]

/-- The nodes behind an allocation: the new one is detached, its children have it as parent, and
all others are as they were. -/
theorem node_alloc : (a.alloc k pos cs).2.node other =
      if other = a.size then ⟨k, none, pos, cs⟩
      else if other ∈ k.children ∧ other < a.size then
        { a.node other with parent := some a.size }
      else a.node other := by
  obtain ⟨hsize, hnode⟩ := node_adopt k.children a.size a
  unfold size at hsize
  by_cases new : other = a.size
  · subst new
    rw [if_pos rfl]
    show ((_ : Array Node).push _).getD _ _ = _
    rw [Array.getD_eq_getD_getElem?, Array.getElem?_push]
    unfold size
    rw [if_pos hsize.symm]
    rfl
  · rw [if_neg new, ← hnode other]
    show ((_ : Array Node).push _).getD _ _ = _
    rw [Array.getD_eq_getD_getElem?, Array.getElem?_push, if_neg (fun equal => new (equal.trans hsize))]
    unfold node
    rw [Array.getD_eq_getD_getElem?]

theorem kind_alloc : (a.alloc k pos cs).2.kind other = if other = a.size then k else a.kind other := by
  unfold kind
  rw [node_alloc]
  split
  · rfl
  · split <;> rfl

theorem children_alloc : (a.alloc k pos cs).2.children other =
      if other = a.size then k.children else a.children other := by
  unfold children
  rw [kind_alloc]
  split <;> rfl

theorem parent_alloc : (a.alloc k pos cs).2.parent other =
      if other = a.size then none
      else if other ∈ k.children ∧ other < a.size then some a.size else a.parent other := by
  unfold parent
  rw [node_alloc]
  split
  · rfl
  · split <;> rfl

end JavaEdit.Arena
