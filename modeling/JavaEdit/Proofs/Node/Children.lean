import JavaEdit.Arena.Basic
import JavaEdit.Proofs.Node.Slots
import Mathlib.Data.List.Nodup

/-!
# Slots agree with the list of children

The operations on single slots against the list of children, for payloads whose children are distinct. A child that is
taken out is filtered out of its slot and everything else stays (`keep`); one that cannot be taken out stands in a
slot that is never empty. Changing children in place visits them in their order.
-/

namespace JavaEdit.Kind

open List

variable {α β : Type}

/-- The payload with the children in lists and optional slots filtered. Slots that cannot be empty stay as they are. -/
def keep (p : α → Bool) : Kind α → Kind α
  | compilationUnit package is types => compilationUnit package is (types.filter p)
  | classDecl n ms as ts sup is members =>
    classDecl n ms (as.filter p) (ts.filter p) (sup.filter p) (is.filter p) (members.filter p)
  | interfaceDecl n ms as ts sups members =>
    interfaceDecl n ms (as.filter p) (ts.filter p) (sups.filter p) (members.filter p)
  | method n ms as ts r ps th body =>
    method n ms (as.filter p) (ts.filter p) r (ps.filter p) (th.filter p) (body.filter p)
  | constructor n ms as ps th body => constructor n ms (as.filter p) (ps.filter p) (th.filter p) body
  | field n ms as type i => field n ms (as.filter p) type (i.filter p)
  | parameter n ms as type v => parameter n ms (as.filter p) type v
  | annotationUse n as => annotationUse n (as.filter p)
  | typeParameter n bs => typeParameter n (bs.filter p)
  | typeReference n as d dims => typeReference n (as.filter p) d dims
  | wildcardType b u => wildcardType (b.filter p) u
  | block ss => block (ss.filter p)
  | localVariable n ms type i => localVariable n ms type (i.filter p)
  | ifElse c t e => ifElse c t (e.filter p)
  | forLoop i c u b => forLoop (i.filter p) (c.filter p) (u.filter p) b
  | returnStmt v => returnStmt (v.filter p)
  | tryStmt b cs f => tryStmt b (cs.filter p) (f.filter p)
  | catchClause n ms ts b => catchClause n ms (ts.filter p) b
  | invocation t n as => invocation (t.filter p) n (as.filter p)
  | new t as => new t (as.filter p)
  | k => k

variable {k : Kind α}

/-- Where no child is left that fails the test, the children are those that pass it. -/
theorem children_keep {p : α → Bool} (passed : ∀ c ∈ (k.keep p).children, p c) :
    (k.keep p).children = k.children.filter p := by
  cases k
  case newArray => exact (filter_eq_self.mpr passed).symm
  all_goals simp_all [keep, children, filter_append, Option.toList_filter]

section Removal

variable [BEq α] [LawfulBEq α] {child : α} {k' : Kind α}

theorem filter_list {list : List α} (free : list.count child = 0) : list.filter (· != child) = list :=
  filter_eq_self.mpr fun _ held => bne_iff_ne.mpr fun same => count_eq_zero.mp free (same ▸ held)

theorem filter_slot {slot : Option α} (free : slot.toList.count child = 0) : slot.filter (· != child) = slot := by
  cases slot with
  | none => rfl
  | some c =>
    have differ : c ≠ child := by simpa [count_cons] using free
    simp [Option.filter, differ]

theorem erase_eq_filter {list : List α} (once : list.count child ≤ 1) : list.erase child = list.filter (· != child) := by
  induction list with
  | nil => rfl
  | cons c rest ih =>
    rw [count_cons] at once
    by_cases same : c = child
    · simp only [same, beq_self_eq_true, if_true] at once
      simp [same, filter_list (show rest.count child = 0 by omega)]
    · simp [same, ih (by omega)]

/-- `found` is, if anything, the payload without the child. -/
def Filters (k : Kind α) (child : α) (found : Option (Kind α)) : Prop :=
  ∀ k', found = some k' → k' = k.keep (· != child)

omit [LawfulBEq α] in
theorem Filters.none : Filters k child .none := fun _ h => nomatch h

omit [LawfulBEq α] in
theorem Filters.orElse {first second : Option (Kind α)} (hfirst : Filters k child first)
    (hsecond : Filters k child second) : Filters k child (first <|> second) := by
  intro k' h
  cases first with
  | none => exact hsecond k' h
  | some found => exact hfirst k' h

theorem Filters.list {list : List α} {rebuild : List α → Kind α} (once : list.count child ≤ 1)
    (same : 0 < list.count child → rebuild (list.filter (· != child)) = k.keep (· != child)) :
    Filters k child (dropFrom? list child >>= fun rest => some (rebuild rest)) := by
  intro k' h
  obtain ⟨rest, taken, rebuilt⟩ := Option.bind_eq_some_iff.mp h
  unfold dropFrom? at taken
  split at taken
  · next held =>
    rw [← same (count_pos_iff.mpr (by simpa using held)), ← erase_eq_filter once, Option.some.inj taken,
      Option.some.inj rebuilt]
  · cases taken

theorem Filters.slot {slot : Option α} {rebuild : Option α → Kind α}
    (same : 0 < slot.toList.count child → rebuild (slot.filter (· != child)) = k.keep (· != child)) :
    Filters k child (clearSlot? slot child >>= fun rest => some (rebuild rest)) := by
  intro k' h
  obtain ⟨rest, taken, rebuilt⟩ := Option.bind_eq_some_iff.mp h
  obtain ⟨rfl, rfl⟩ := clearSlot?_eq_some taken
  rw [← same (by simp), ← Option.some.inj rebuilt]
  simp [Option.filter]

/-- What is left when a child is taken out is the payload without it. -/
theorem without?_filters (once : k.children.count child ≤ 1) : Filters k child (k.without? child) := by
  cases k <;> simp only [without?, children, count_append, count_cons] at once ⊢
  case catchClause =>
    split
    · exact .list (by omega) fun _ => rfl
    · exact .none
  all_goals
    repeat' apply Filters.orElse
    all_goals first
      | exact .none
      | exact .list (by omega) fun held => by simp (disch := omega) only [keep, filter_list, filter_slot]
      | exact .slot fun held => by simp (disch := omega) only [keep, filter_list]

/-- A child that cannot be taken out stands in a slot that is never empty. -/
theorem mem_keep_of_without? (held : child ∈ k.children) (stays : k.without? child = none) :
    child ∈ (k.keep (· != child)).children ∨ ∃ n ms b, k = catchClause n ms [child] b := by
  have either : ∀ first second : Option (Kind α), (first <|> second) = .none ↔ first = .none ∧ second = .none := by
    intro first second
    cases first <;> simp
  have inList : ∀ (list : List α) (rebuild : List α → Kind α),
      (dropFrom? list child >>= fun rest => some (rebuild rest)) = .none ↔ child ∉ list := by
    intro list rebuild
    by_cases held : child ∈ list <;> simp [dropFrom?, held]
  have inSlot : ∀ (slot : Option α) (rebuild : Option α → Kind α),
      (clearSlot? slot child >>= fun rest => some (rebuild rest)) = .none ↔ child ∉ slot.toList := by
    intro slot rebuild
    cases slot with
    | none => simp [clearSlot?]
    | some c => by_cases same : c = child <;> simp [clearSlot?, same, Ne.symm]
  cases k <;> simp only [without?, children, keep, Option.pure_def, either, inList, inSlot] at held stays ⊢
  case catchClause n ms ts b =>
    split at stays
    · rw [inList] at stays
      exact .inl (mem_append_right _ ((mem_append.mp held).resolve_left stays))
    · next few =>
      rcases mem_append.mp held with held | last
      · obtain ⟨c, rfl⟩ : ∃ c, ts = [c] := length_eq_one_iff.mp (by have := length_pos_of_mem held; omega)
        exact .inr ⟨n, ms, b, by rw [mem_singleton.mp held]⟩
      · exact .inl (mem_append_right _ last)
  all_goals simp_all

end Removal

/-- Changing the children with an effect passes over them in their order. -/
theorem run_mapM {σ : Type} {f : α → StateM σ β} (g : α → β) (step : σ → α → σ)
    (effect : ∀ c s, (f c).run s = (g c, step s c)) (k : Kind α) (s : σ) :
    (k.mapM f).run s = (k.map g, k.children.foldl step s) := by
  have list : ∀ (cs : List α) (s : σ), (cs.mapM f).run s = (cs.map g, cs.foldl step s) := by
    intro cs
    induction cs with
    | nil => exact fun _ => rfl
    | cons c cs ih =>
      intro s
      rw [mapM_cons, StateT.run_bind, effect]
      show (cs.mapM f >>= _).run (step s c) = _
      rw [StateT.run_bind, ih]
      rfl
  have visited := (congrArg (fun run => StateT.run run s) (children_mapM f k)).trans (list k.children s)
  refine Prod.ext (eq_of_shape_eq ?_ ?_) (congrArg Prod.snd visited :)
  · rw [shape_mapM, shape_map]
  · rw [children_map]
    exact congrArg Prod.fst visited

/-- Put `new` in the place of `old`, and note that it was found. -/
def redirect (old new : NodeId) (c : NodeId) : StateM Bool NodeId := do
  if c == old then
    set true
    return new
  return c

/-- Change a child, and list it as visited. -/
def visit (f : NodeId → β) (c : NodeId) : StateM (List NodeId) β := do
  modify (· ++ [c])
  return f c

theorem run_redirect (old new c : NodeId) (found : Bool) :
    (redirect old new c).run found = (if c == old then new else c, found || c == old) := by
  unfold redirect
  cases c == old <;> cases found <;> rfl

/-- The operations on slots agree with the list of children. Taking a child out answers with the payload without it, or
refuses a child that must stay, or finds no child. Changing children in place visits each of them once and in their
order; putting `new` in the place of `old` tells whether `old` is a child. -/
theorem slots_follow_children (k : Kind NodeId) (distinct : k.children.Nodup) (child old new : NodeId) :
    (match k.removeChild child with
      | .removed k' => child ∈ k.children ∧ k' = k.keep (· != child) ∧ k'.children = k.children.erase child
      | .required => child ∈ k.children ∧
        (child ∈ (k.keep (· != child)).children ∨ ∃ n ms b, k = catchClause n ms [child] b)
      | .notFound => child ∉ k.children) ∧
    (k.mapM (redirect old new)).run false = (k.replaceChild old new, k.children.contains old) ∧
    (k.replaceChild old new).shape = k.shape ∧
    (∀ before after, k.children = before ++ old :: after →
      (k.replaceChild old new).children = before ++ new :: after) ∧
    (old ∉ k.children → k.replaceChild old new = k) ∧
    ∀ (β : Type) (f : NodeId → β), (k.mapM (visit f)).run [] = (k.map f, k.children) := by
  have once : k.children.count child ≤ 1 := nodup_iff_count.mp distinct child
  have other : ∀ {cs : List NodeId}, old ∉ cs → ∀ c ∈ cs, (if c == old then new else c) = c := by
    rintro cs free c held
    have differ : c ≠ old := fun same => free (same ▸ held)
    simp [differ]
  refine ⟨?_, ?_, ?_, fun before after whole => ?_, fun missing => ?_, fun β f => ?_⟩
  · unfold removeChild
    cases taken : k.without? child with
    | some k' =>
      have less := without?_count taken child
      rw [if_pos (beq_self_eq_true child)] at less
      have filtered := without?_filters once k' taken
      have gone : child ∉ k'.children := count_eq_zero.mp (by omega)
      refine ⟨count_pos_iff.mp (by omega), filtered, ?_⟩
      rw [erase_eq_filter once, filtered]
      refine children_keep fun c held => bne_iff_ne.mpr ?_
      rintro rfl
      exact gone (filtered ▸ held)
    | none =>
      by_cases held : child ∈ k.children
      · simpa [held] using mem_keep_of_without? held taken
      · simp [held]
  · rw [run_mapM _ _ (run_redirect old new)]
    refine Prod.ext rfl ?_
    generalize k.children = cs
    have found : ∀ b, cs.foldl (fun b c => b || c == old) b = (b || cs.contains old) := by
      induction cs with
      | nil => simp
      | cons c cs ih =>
        intro b
        rw [foldl_cons, ih, contains_cons, Bool.or_assoc, Bool.beq_comm]
    exact (found false).trans (Bool.false_or _)
  · rw [shape, shape, replaceChild, map_map]
  · rw [whole, nodup_middle, nodup_cons, mem_append, not_or] at distinct
    have same : ∀ cs : List NodeId, old ∉ cs → (cs.map fun c => if c == old then new else c) = cs := fun cs free =>
      (map_congr_left (other free)).trans (map_id' cs)
    rw [children_replaceChild, whole, map_append, map_cons, same before distinct.1.1, same after distinct.1.2]
    simp
  · exact (map_congr (other missing)).trans k.map_id
  · refine (run_mapM f (fun visited c => visited ++ [c]) (fun _ _ => rfl) k []).trans ?_
    rw [foldl_append_eq_append, ← flatMap_def, flatMap_singleton', nil_append]

/-- A method with a type, two parameters and a body. -/
def twoParameters : Kind NodeId := .method "m" [] [] [] 1 [2, 3] [] (some 4)

theorem slots_follow_children_method : twoParameters.children.Nodup ∧ 3 ∈ twoParameters.children ∧
    1 ∈ (twoParameters.keep (· != 1)).children ∧
    (twoParameters.mapM (redirect 3 7)).run false = (.method "m" [] [] [] 1 [2, 7] [] (some 4), true) := by
  have distinct : twoParameters.children.Nodup := by decide
  refine ⟨distinct, (slots_follow_children _ distinct 3 3 7).1.1, ?_, (slots_follow_children _ distinct 3 3 7).2.1⟩
  exact (slots_follow_children _ distinct 1 3 7).1.2.resolve_right nofun

end JavaEdit.Kind
