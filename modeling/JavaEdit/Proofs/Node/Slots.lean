import JavaEdit.Node.Slots

/-!
# Child slots and the list of children

What the operations on single slots do to the children of a payload. Removing a child takes one
occurrence of it away and nothing else (`without?_count`), replacing one changes the list of
children pointwise (`children_map`), and the changes of names, modifiers and operators leave it
alone. Occurrences are counted, because a payload may hold a child twice.
-/

namespace JavaEdit.Kind

open List

variable {α β : Type}

@[simp] theorem children_map (f : α → β) (k : Kind α) : (k.map f).children = k.children.map f := by
  cases k <;> simp [map, children, Option.toList_map]

variable {k : Kind α}

/-- A payload changed in two ways that agree on its children. -/
theorem map_congr {f g : α → β} (h : ∀ c ∈ k.children, f c = g c) : k.map f = k.map g := by
  cases k <;> simp_all [map, children]
  all_goals exact Option.map_congr fun c _ => by grind

@[simp] theorem map_map {γ : Type} (g : β → γ) (f : α → β) (k : Kind α) : (k.map f).map g = k.map fun c => g (f c) := by
  cases k <;> simp [map, Function.comp_def]

theorem shape_map (f : α → β) (k : Kind α) : (k.map f).shape = k.shape := map_map ..

@[simp] theorem map_id (k : Kind α) : (k.map fun c => c) = k := by
  cases k <;> simp [map]

variable {child : α} {list : List α}

theorem dropFrom?_count [BEq α] [LawfulBEq α] {rest : List α}
    (h : dropFrom? list child = some rest) (x : α) : list.count x = rest.count x + (if child == x then 1 else 0) := by
  unfold dropFrom? at h
  split at h
  · rename_i held
    injection h with h
    subst h
    have mem : child ∈ list := by simpa using held
    by_cases same : child = x
    · subst same
      have positive : 0 < list.count child := count_pos_iff.mpr mem
      simp only [count_erase_self, beq_self_eq_true, if_true]
      omega
    · rw [count_erase_of_ne (fun equal => same equal.symm)]
      simp [same]
  · cases h

theorem clearSlot?_eq_some [BEq α] [LawfulBEq α] {slot rest : Option α}
    (h : clearSlot? slot child = some rest) : slot = some child ∧ rest = none := by
  unfold clearSlot? at h
  cases slot with
  | none => cases h
  | some c =>
    simp only at h
    split at h
    · rename_i same
      injection h with h
      exact ⟨by rw [beq_iff_eq.mp same], h.symm⟩
    · cases h

theorem clearSlot?_count [BEq α] [LawfulBEq α] {slot rest : Option α}
    (h : clearSlot? slot child = some rest) (x : α) :
    slot.toList.count x = rest.toList.count x + (if child == x then 1 else 0) := by
  obtain ⟨rfl, rfl⟩ := clearSlot?_eq_some h
  simp [count_cons]

/-- `found` is, if anything, a payload of the same variant as `k` with one occurrence of `child` less. -/
def Loses [BEq α] (k : Kind α) (child : α) (found : Option (Kind α)) : Prop :=
  ∀ k', found = some k' → k'.variant = k.variant ∧ ∀ x,
    k.children.count x = k'.children.count x + (if child == x then 1 else 0)

section Loses

variable [BEq α] {k : Kind α} {child : α}

theorem Loses.none : Loses k child none := by
  intro k' h
  cases h

theorem Loses.orElse {first second : Option (Kind α)} (hfirst : Loses k child first)
    (hsecond : Loses k child second) : Loses k child (first <|> second) := by
  intro k' h
  cases first with
  | none => exact hsecond k' h
  | some found => exact hfirst k' h

theorem Loses.slot {γ : Type} (held : γ → List α) {slot : γ} {found : Option γ} {rebuild : γ → Kind α}
    (lost : ∀ rest, found = some rest → ∀ x, (held slot).count x = (held rest).count x + (if child == x then 1 else 0))
    (same : ∀ rest, (rebuild rest).variant = k.variant) (others : ∀ rest x, k.children.count x + (held rest).count x =
      (rebuild rest).children.count x + (held slot).count x) :
    Loses k child (found >>= fun rest => some (rebuild rest)) := by
  intro k' h
  obtain ⟨rest, taken, rebuilt⟩ := Option.bind_eq_some_iff.mp h
  injection rebuilt with rebuilt
  subst rebuilt
  refine ⟨same rest, fun x => ?_⟩
  have less := lost rest taken x
  have whole := others rest x
  omega

end Loses

theorem without?_loses [BEq α] [LawfulBEq α] (child : α) (k : Kind α) : Loses k child (k.without? child) := by
  cases k <;> simp only [without?]
  case catchClause =>
    split
    · refine .slot id (fun _ => dropFrom?_count) (fun _ => rfl) fun rest x => ?_
      simp only [children, count_append, id]
      omega
    · exact Loses.none
  all_goals
    repeat' apply Loses.orElse
    all_goals first
      | exact Loses.none
      | refine .slot id (fun _ => dropFrom?_count) (fun _ => rfl) fun rest x => ?_
        simp only [children, count_append, count_cons, id]
        omega
      | refine .slot Option.toList (fun _ => clearSlot?_count) (fun _ => rfl) fun rest x => ?_
        simp only [children, count_append, count_cons]
        omega

variable {k' : Kind α}

/-- Taking `child` out of a payload takes one occurrence of it out of the children. -/
theorem without?_count [BEq α] [LawfulBEq α] (h : k.without? child = some k') (x : α) :
    k.children.count x = k'.children.count x + (if child == x then 1 else 0) :=
  (without?_loses child k k' h).2 x

theorem removeChild_eq_removed [BEq α] :
    k.removeChild child = .removed k' ↔ k.without? child = some k' := by
  unfold removeChild
  split
  · rename_i taken
    rw [taken, Option.some_inj, Removal.removed.injEq]
  · rename_i none
    rw [none]
    split <;> exact iff_of_false nofun nofun

theorem removeChild_ne_notFound [BEq α] [LawfulBEq α] (held : child ∈ k.children) :
    k.removeChild child ≠ .notFound := by
  unfold removeChild
  split
  · nofun
  · rw [if_pos (contains_iff_mem.mpr held)]
    nofun

@[simp] theorem children_replaceChild [BEq α] (old new : α) (k : Kind α) : (k.replaceChild old new).children =
      k.children.map fun c => if c == old then new else c :=
  children_map _ k

theorem children_of_rename? {name : String} (h : k.rename? name = some k') :
    k'.children = k.children := by
  cases k <;> simp only [rename?, Option.some.injEq, reduceCtorEq] at h <;> subst h <;> rfl

variable {ms : Modifiers}

theorem children_of_withModifiers?
    (h : k.withModifiers? ms = some k') : k'.children = k.children := by
  cases k <;> simp only [withModifiers?, Option.some.injEq, reduceCtorEq] at h <;> subst h <;> rfl

/-- A member put behind the others is the last child. -/
theorem children_of_mapMembers? {member : α}
    (h : k.mapMembers? (· ++ [member]) = some k') : k'.children = k.children ++ [member] := by
  cases k <;> simp only [mapMembers?, Option.some.injEq, reduceCtorEq] at h <;> subst h <;>
    simp [children]

variable {f : List α → List α}

theorem members_of_mapMembers? (h : k.mapMembers? f = some k') :
    k'.members = f k.members := by
  cases k <;> simp only [mapMembers?, Option.some.injEq, reduceCtorEq] at h <;> subst h <;> rfl

@[simp] theorem members_map (f : α → β) (k : Kind α) : (k.map f).members = k.members.map f := by
  cases k <;> rfl

theorem members_sublist (k : Kind α) : k.members.Sublist k.children := by
  cases k with
  | classDecl | interfaceDecl => exact sublist_append_right _ _
  | _ => exact nil_sublist _

theorem mem_children_of_mem_members {c : α} (h : c ∈ k.members) : c ∈ k.children := k.members_sublist.mem h

/-! ## Children that stand in one slot -/

section Single

variable [BEq α] [LawfulBEq α] {child : α}

theorem dropFrom?_eq_none (free : list.count child = 0) : dropFrom? list child = none := by
  simp [dropFrom?, count_eq_zero.mp free]

theorem dropFrom?_of_mem (h : child ∈ list) : dropFrom? list child = some (list.erase child) := by
  simp [dropFrom?, h]

theorem clearSlot?_eq_none {slot : Option α} (free : slot.toList.count child = 0) : clearSlot? slot child = none := by
  cases slot with
  | none => rfl
  | some c =>
    have differ : c ≠ child := by simpa [count_cons] using free
    simp [clearSlot?, differ]

theorem without?_member (here : child ∈ k.members) (once : k.children.count child ≤ 1) :
    k.without? child = k.mapMembers? (·.erase child) := by
  have counted := count_pos_iff.mpr here
  cases k with
  | classDecl | interfaceDecl =>
    simp only [children, count_append, Kind.members] at here once counted
    simp (disch := omega) [without?, mapMembers?, dropFrom?_eq_none, clearSlot?_eq_none, dropFrom?_of_mem here]
  | _ => exact absurd here not_mem_nil

theorem without?_method {n : String} {as ts ps th : List α} {r : α}
    (once : (method n ms as ts r ps th (some child)).children.count child ≤ 1) :
    (method n ms as ts r ps th (some child)).without? child = some (method n ms as ts r ps th none) := by
  simp only [children, count_append, Option.toList_some, count_singleton_self] at once
  simp (disch := omega) [without?, dropFrom?_eq_none, clearSlot?]

theorem without?_constructor {n : String} {as ps th : List α}
    (once : (constructor n ms as ps th child).children.count child ≤ 1) :
    (constructor n ms as ps th child).without? child = none := by
  simp only [children, count_append, count_singleton_self] at once
  simp (disch := omega) [without?, dropFrom?_eq_none]

end Single

@[simp] theorem variant_map (f : α → β) (k : Kind α) : (k.map f).variant = k.variant := by
  cases k <;> rfl

@[simp] theorem simpleName?_map (f : α → β) (k : Kind α) : (k.map f).simpleName? = k.simpleName? := by
  cases k <;> rfl

@[simp] theorem body?_map (f : α → β) (k : Kind α) : (k.map f).body? = k.body?.map f := by
  cases k <;> rfl

theorem mem_children_of_body? {body : α} (h : k.body? = some body) : body ∈ k.children := by
  cases k <;> cases h <;> simp [children]

theorem isType_of_mem_members {c : α} (h : c ∈ k.members) : k.variant.isType := by
  cases k with
  | classDecl | interfaceDecl => rfl
  | _ => exact absurd h not_mem_nil

theorem mapMembers?_spec (type : k.variant.isType) :
    ∃ k', k.mapMembers? f = some k' ∧ k'.members = f k.members ∧ k'.variant = k.variant := by
  cases k with
  | classDecl | interfaceDecl => exact ⟨_, rfl, rfl, rfl⟩
  | _ => cases type

/-! ## Effects on children -/

theorem mapM_toList {m : Type → Type} [Monad m] [LawfulMonad m] (f : α → m β) (o : Option α) :
    o.toList.mapM f = Option.toList <$> o.mapM f := by
  cases o <;> simp

/-- Changing the children with an effect visits them in their order. -/
theorem children_mapM {m : Type → Type} [Monad m] [LawfulMonad m] (f : α → m β) (k : Kind α) :
    children <$> k.mapM f = k.children.mapM f := by
  cases k <;> simp [mapM, children, mapM_append, mapM_cons, mapM_toList]

/-! ## Shape and children -/

/-- Take the first of the items that are left. -/
def nextItem : StateT (List α) Option α
  | [] => none
  | x :: rest => some (x, rest)

theorem run_nextItem (x : α) (rest : List α) :
    (nextItem : StateT (List α) Option α).run (x :: rest) = some (x, rest) := rfl

theorem run_mapM_nextItem (xs rest : List α) :
    ((xs.map fun _ => ()).mapM fun _ => nextItem).run (xs ++ rest) = some (xs, rest) := by
  induction xs with
  | nil => rfl
  | cons x xs ih =>
    rw [map_cons, mapM_cons, cons_append, StateT.run_bind, run_nextItem]
    simp only [Option.bind_eq_bind, Option.bind_some, StateT.run_bind, ih]
    rfl

theorem run_mapM_nextItem_all (xs : List α) : ((xs.map fun _ => ()).mapM fun _ => nextItem).run xs = some (xs, []) := by
  simpa using run_mapM_nextItem xs []

theorem run_mapM_nextItem_option (o : Option α) (rest : List α) :
    ((o.map fun _ => ()).mapM fun _ => nextItem).run (o.toList ++ rest) = some (o, rest) := by
  cases o <;> rfl

theorem run_mapM_nextItem_lastOption (o : Option α) :
    ((o.map fun _ => ()).mapM fun _ => nextItem).run o.toList = some (o, []) := by
  cases o <;> rfl

theorem run_mapM_shape (k : Kind α) : (k.shape.mapM fun _ => nextItem).run k.children = some (k, []) := by
  cases k <;>
    simp only [shape, map, mapM, children, append_assoc, cons_append, nil_append,
      StateT.run_bind, StateT.run_pure, run_nextItem, run_mapM_nextItem, run_mapM_nextItem_all,
      run_mapM_nextItem_option, run_mapM_nextItem_lastOption, Option.bind_eq_bind, Option.bind_some, Option.pure_def]

theorem eq_of_shape_eq (sameShape : k.shape = k'.shape)
    (sameChildren : k.children = k'.children) : k = k' := by
  have filled := run_mapM_shape k
  rw [sameShape, sameChildren, run_mapM_shape k'] at filled
  simpa using filled.symm

/-- An effect on every item of a list answers as many items. -/
theorem unit_mapM {σ : Type} (f : α → StateM σ β) (xs : List α) (s : σ) :
    ((xs.mapM f).run s).1.map (fun _ => ()) = xs.map fun _ => () := by
  induction xs generalizing s with
  | nil => rfl
  | cons x xs ih =>
    rw [mapM_cons, map_cons, ← ih]
    rfl

theorem unit_mapM_option {σ : Type} (f : α → StateM σ β) (o : Option α) (s : σ) :
    ((o.mapM f).run s).1.map (fun _ => ()) = o.map fun _ => () := by
  cases o <;> rfl

/-- Changing the children with an effect keeps the shape. -/
theorem shape_mapM {σ : Type} (f : α → StateM σ β) (k : Kind α) (s : σ) : ((k.mapM f).run s).1.shape = k.shape := by
  have bind : ∀ {γ δ : Type} (x : StateM σ γ) (g : γ → StateM σ δ) (s : σ),
      (x >>= g).run s = (g (x.run s).1).run (x.run s).2 := fun _ _ _ => rfl
  have done : ∀ {γ : Type} (x : γ) (s : σ), (pure x : StateM σ γ).run s = (x, s) := fun _ _ => rfl
  cases k <;> simp only [shape, map, mapM, bind, done, unit_mapM, unit_mapM_option]

end JavaEdit.Kind
