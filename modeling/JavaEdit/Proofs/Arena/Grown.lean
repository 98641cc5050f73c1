import JavaEdit.Proofs.Arena.Acyclic
import JavaEdit.Proofs.Tree.Induction

/-!
# Arenas that only grow

Parsers and copies never touch the nodes they find. They make nodes, each of which adopts detached
ones made since the start, and put comments on what they made. `Grown base a` says that `a` came
from `base` in this way; what a single such step keeps, the whole growth keeps: the old nodes, the
links and the absence of cycles.

`Owns base ids a` adds the nodes that are at the disposal of whoever is at work: made since `base`,
detached and different. A new node uses up its children and is owned instead (`Owns.alloc`).
-/

namespace JavaEdit.Arena

open List

/-- An arena made from `base` by new nodes and comments on them. -/
inductive Grown (base : Arena) : Arena → Prop
  | refl : Grown base base
  | alloc {a : Arena} {k : Kind NodeId} (pos : Position) (cs : List Comment) : Grown base a →
      (∀ c, k.children.count c ≤ 1) →
      (∀ c ∈ k.children, base.size ≤ c ∧ c < a.size ∧ a.parent c = none) →
      Grown base (a.alloc k pos cs).2
  | comment {a : Arena} {id : NodeId} (c : Comment) : Grown base a → base.size ≤ id →
      Grown base (a.addComment id c)

theorem node_addComment (a : Arena) (id other : NodeId) (c : Comment) : (a.addComment id c).kind other = a.kind other ∧
    (a.addComment id c).parent other = a.parent other :=
  links_modify_comments a id other fun cs => cs ++ [c]

section Grown

variable {base a : Arena}

theorem Grown.size_le (h : Grown base a) : base.size ≤ a.size := by
  induction h with
  | refl => exact Nat.le_refl _
  | alloc pos cs _ _ _ ih =>
    rw [size_alloc]
    omega
  | comment c _ _ ih =>
    rw [addComment, size_modify]
    exact ih

theorem Grown.node_eq (h : Grown base a) {id : NodeId} (old : id < base.size) : a.node id = base.node id := by
  induction h with
  | refl => rfl
  | @alloc a k pos cs grown _ fresh ih =>
    have size := grown.size_le
    rw [node_alloc, if_neg (by lia), if_neg, ih]
    rintro ⟨adopted, -⟩
    exact absurd old (Nat.not_lt.mpr (fresh id adopted).1)
  | comment c _ new ih =>
    rw [addComment, node_modify, if_neg (by lia), ih]

theorem Grown.linked (h : Grown base a) (linked : Linked base) : Linked a := by
  induction h with
  | refl => exact linked
  | alloc pos cs _ once fresh ih =>
    exact ih.alloc pos cs once (fun c mem => (fresh c mem).2.1) fun c mem => (fresh c mem).2.2
  | @comment a id c _ _ ih =>
    refine ih.congr (size_modify ..) (fun p => ?_) fun x => (node_addComment a id x c).2
    unfold children
    rw [(node_addComment a id p c).1]

theorem Grown.acyclic (h : Grown base a) (acyclic : Acyclic base) : Acyclic a := by
  induction h with
  | refl => exact acyclic
  | alloc pos cs _ _ _ ih => exact Acyclic.alloc ih _ pos cs
  | @comment a id c _ _ ih =>
    refine ih.mono fun x y up => ?_
    rw [(node_addComment a id x c).2] at up
    exact up

end Grown

/-! ## Ownership -/

/-- The nodes `ids` were made since `base`, are detached and different. -/
structure Owns (base : Arena) (ids : List NodeId) (a : Arena) : Prop where
  grown : Grown base a
  once : ∀ x, ids.count x ≤ 1
  fresh : ∀ id ∈ ids, base.size ≤ id ∧ id < a.size ∧ a.parent id = none

section Owns

variable {base a : Arena} {ids held : List NodeId}

theorem Owns.start (base : Arena) : Owns base [] base :=
  ⟨.refl, fun _ => Nat.zero_le _, fun _ mem => absurd mem not_mem_nil⟩

/-- Owned nodes may be forgotten, and listed in another order. -/
theorem Owns.sub (h : Owns base ids a) (fewer : ∀ x, held.count x ≤ ids.count x) : Owns base held a where
  grown := h.grown
  once x := Nat.le_trans (fewer x) (h.once x)
  fresh id mem := by
    refine h.fresh id (count_pos_iff.mp ?_)
    exact Nat.lt_of_lt_of_le (count_pos_iff.mpr mem) (fewer id)

theorem Owns.alloc {k : Kind NodeId} (h : Owns base (k.children ++ held) a) (pos : Position)
    (cs : List Comment) : Owns base (a.size :: held) (a.alloc k pos cs).2 := by
  have once : ∀ x, k.children.count x + held.count x ≤ 1 := by
    intro x
    rw [← count_append]
    exact h.once x
  have size := h.grown.size_le
  refine ⟨h.grown.alloc pos cs (fun c => ?_) fun c mem => ?_, fun x => ?_, fun id mem => ?_⟩
  · have := once c
    omega
  · exact h.fresh c (mem_append.mpr (.inl mem))
  · rw [count_cons]
    by_cases new : a.size = x
    · -- the index of the new node was not in use
      subst new
      have unused : held.count a.size = 0 := by
        refine count_eq_zero.mpr fun mem => ?_
        exact absurd (h.fresh a.size (mem_append.mpr (.inr mem))).2.1 (Nat.lt_irrefl _)
      simp [unused]
    · have := once x
      rw [if_neg (by simpa using new)]
      omega
  · rw [size_alloc, parent_alloc]
    rcases mem_cons.mp mem with new | mem
    · subst new
      exact ⟨size, Nat.lt_succ_self _, by rw [if_pos rfl]⟩
    · obtain ⟨new, inside, free⟩ := h.fresh id (mem_append.mpr (.inr mem))
      refine ⟨new, Nat.lt_succ_of_lt inside, ?_⟩
      rw [if_neg (Nat.ne_of_lt inside), if_neg, free]
      rintro ⟨adopted, -⟩
      have := once id
      have := count_pos_iff.mpr adopted
      have := count_pos_iff.mpr mem
      omega

theorem Owns.addComment (h : Owns base ids a) {id : NodeId} (c : Comment) (owned : id ∈ ids) :
    Owns base ids (a.addComment id c) where
  grown := h.grown.comment c (h.fresh id owned).1
  once := h.once
  fresh x mem := by
    obtain ⟨new, inside, free⟩ := h.fresh x mem
    refine ⟨new, ?_, ?_⟩
    · rw [Arena.addComment, size_modify]
      exact inside
    · rw [(node_addComment a id x c).2]
      exact free

end Owns

/-! ## Copies -/

/-- Trees are put into an arena one after the other, each from its leaves up. -/
inductive Plants : Arena → List (Tree (List Comment)) → List NodeId → Arena → Prop
  | nil (a : Arena) : Plants a [] [] a
  | cons {a b c : Arena} {k : Kind NodeId} {kind : Kind (Tree (List Comment))} {ts : List (Tree (List Comment))}
      {ids : List NodeId} (cs : List Comment) : Plants a kind.children k.children b → k.shape = kind.shape →
      Plants (b.alloc k .synthetic cs).2 ts ids c → Plants a (.node cs kind :: ts) (b.size :: ids) c

section Plants

variable {a b base : Arena} {held ids : List NodeId} {ts us : List (Tree (List Comment))}

theorem plants_list (h : ∀ t ∈ ts, ∀ {a b ids us}, Plants ((plant t).run a).2 us ids b →
      Plants a (t :: us) (((plant t).run a).1 :: ids) b) (a : Arena) :
    Plants a ts (((ts.map plant).mapM id).run a).1 (((ts.map plant).mapM id).run a).2 := by
  induction ts generalizing a with
  | nil => exact .nil a
  | cons t ts ih =>
    rw [map_cons, mapM_cons]
    exact h t (.head _) (ih (fun t' mem => h t' (.tail _ mem)) _)

theorem plants_plant (t : Tree (List Comment)) (others : Plants ((plant t).run a).2 us ids b) :
    Plants a (t :: us) (((plant t).run a).1 :: ids) b := by
  induction t using Tree.induct generalizing a us ids b with
  | step comments kind ih =>
    have unfolded : plant (.node comments kind) =
        (kind.map plant).mapM id >>= fun made => make made .synthetic comments := by
      unfold plant
      rw [Tree.fold_node]
    have parts := plants_list ih a
    -- the payload that is made holds the nodes that the children's actions made
    have children := congrArg (fun action : StateM Arena (List NodeId) => action.run a)
      (Kind.children_mapM (m := StateM Arena) id (kind.map plant))
    simp only [StateT.run_map, Kind.children_map] at children
    rw [← children] at parts
    have shape := Kind.shape_mapM id (kind.map plant) a
    rw [Kind.shape_map] at shape
    rw [unfolded] at others ⊢
    exact .cons comments parts shape others

theorem Plants.owns (h : Plants a ts ids b) (owns : Owns base held a) : Owns base (ids ++ held) b := by
  induction h generalizing held with
  | nil => exact owns
  | cons cs _ _ _ parts others =>
    refine (others ((parts owns).alloc .synthetic cs)).sub fun x => ?_
    simp only [cons_append, count_cons, count_append]
    exact Nat.le_of_eq (by ac_rfl)

theorem owns_copy (owns : Owns base held a) (id : NodeId) : Owns base ((a.copy id).1 :: held) (a.copy id).2 :=
  (plants_plant (a.commented id) (.nil _)).owns owns

theorem owns_importFrom (owns : Owns base held a) (source : Arena) (id : NodeId) :
    Owns base ((a.importFrom source id).1 :: held) (a.importFrom source id).2 :=
  (plants_plant (source.commented id) (.nil _)).owns owns

end Plants

end JavaEdit.Arena
