import JavaEdit.Proofs.Arena.Actions

/-!
# Work among some of the nodes

Some nodes, all new ones among them, are apart when no link leads from one of them to any other
node. What is done to nodes that are apart reaches no other: every change goes to a node that is
named, to its parent, or to something below it. So an action that names only such nodes leaves all
others as they are and keeps the nodes apart (`framed_apply`), and a run of actions does too
(`framed_perform`). The nodes from some index on may be apart, like those of a copy, and so may be
the nodes outside a tree.
-/

namespace JavaEdit.Arena

open List

/-- No link leads from a node of `S` to one outside, and new nodes will be in `S`. -/
structure Apart (S : NodeId → Prop) (a : Arena) : Prop where
  start : ∀ x, a.size ≤ x → S x
  children : ∀ x, S x → ∀ c ∈ a.children x, S c
  parent : ∀ x, S x → ∀ p, a.parent x = some p → S p

/-- Between `a` and `b` only nodes of `S` have changed, and they are apart. -/
structure Framed (S : NodeId → Prop) (a b : Arena) : Prop where
  old : ∀ x, ¬ S x → b.node x = a.node x
  apart : Apart S b

section Framed

variable {S : NodeId → Prop} {a b c : Arena}

theorem Framed.refl (apart : Apart S a) : Framed S a a := ⟨fun _ _ => rfl, apart⟩

theorem Framed.trans (h : Framed S a b) (h' : Framed S b c) : Framed S a c :=
  ⟨fun x before => (h'.old x before).trans (h.old x before), h'.apart⟩

/-! ## The basic changes -/

variable {id : NodeId}

theorem framed_modify (apart : Apart S a) (new : S id) {f : Node → Node}
    (inside : ∀ c ∈ (f (a.node id)).kind.children, S c) (above : ∀ p, (f (a.node id)).parent = some p → S p) :
    Framed S a (a.modify id f) where
  old x before := by
    rw [node_modify, if_neg]
    rintro ⟨rfl, -⟩
    exact before new
  apart := by
    refine ⟨by rw [size_modify]; exact apart.start, fun x hx => ?_, fun x hx => ?_⟩
    · unfold Arena.children kind
      rw [node_modify]
      split
      · rename_i here
        exact here.1 ▸ inside
      · exact apart.children x hx
    · unfold Arena.parent
      rw [node_modify]
      split
      · rename_i here
        exact here.1 ▸ above
      · exact apart.parent x hx

theorem framed_setKind (apart : Apart S a) {k : Kind NodeId} (new : S id)
    (inside : ∀ c ∈ k.children, S c) : Framed S a (a.setKind id k) :=
  framed_modify apart new inside (apart.parent id new)

theorem framed_setParent (apart : Apart S a) {up : Option NodeId} (new : S id)
    (above : ∀ p, up = some p → S p) : Framed S a (a.setParent id up) :=
  framed_modify apart new (apart.children id new) above

theorem framed_modify_comments (apart : Apart S a) (new : S id) (f : List Comment → List Comment) :
    Framed S a (a.modify id fun node => { node with comments := f node.comments }) :=
  framed_modify apart new (apart.children id new) (apart.parent id new)

theorem framed_alloc (apart : Apart S a) {k : Kind NodeId} (inside : ∀ c ∈ k.children, S c)
    (pos : Position) (cs : List Comment) : Framed S a (a.alloc k pos cs).2 where
  old x before := by
    rw [node_alloc, if_neg, if_neg]
    · rintro ⟨adopted, -⟩
      exact before (inside x adopted)
    · rintro rfl
      exact before (apart.start _ (Nat.le_refl _))
  apart := by
    refine ⟨fun x hx => ?_, fun x hx => ?_, fun x hx p up => ?_⟩
    · rw [size_alloc] at hx
      exact apart.start x (Nat.le_of_succ_le hx)
    · rw [children_alloc]
      split
      · exact inside
      · exact apart.children x hx
    · rw [parent_alloc] at up
      split at up
      · cases up
      · split at up
        · rw [Option.some_inj] at up
          exact up ▸ apart.start _ (Nat.le_refl _)
        · exact apart.parent x hx p up

theorem Grown.apart (h : Grown a b) : Apart (fun x => a.size ≤ x) b := by
  induction h with
  | refl =>
    refine ⟨fun x hx => hx, fun x hx c mem => ?_, fun x hx p up => ?_⟩
    · rw [children_of_le hx] at mem
      exact absurd mem not_mem_nil
    · rw [parent_of_le hx] at up
      cases up
  | alloc pos cs _ _ fresh ih =>
    exact (framed_alloc ih (fun c mem => (fresh c mem).1) pos cs).apart
  | comment c _ new ih => exact (framed_modify_comments ih new fun cs => cs ++ [c]).apart

theorem Grown.framed (h : Grown a b) (apart : Apart S a) : Framed S a b where
  old x before := h.node_eq (Nat.lt_of_not_le fun new => before (apart.start x new))
  apart := by
    refine ⟨fun x hx => apart.start x (Nat.le_trans h.size_le hx), fun x hx c mem => ?_, fun x hx p up => ?_⟩
    · by_cases there : x < a.size
      · unfold Arena.children kind at mem
        rw [h.node_eq there] at mem
        exact apart.children x hx c mem
      · exact apart.start c (h.apart.children x (Nat.le_of_not_lt there) c mem)
    · by_cases there : x < a.size
      · unfold Arena.parent at up
        rw [h.node_eq there] at up
        exact apart.parent x hx p up
      · exact apart.start p (h.apart.parent x (Nat.le_of_not_lt there) p up)

theorem walk_subset {P : NodeId → Prop} (closed : ∀ x, P x → ∀ c ∈ a.children x, P c) (fuel : Nat)
    {stack : List NodeId} (start : ∀ x ∈ stack, P x) : ∀ x ∈ a.walk fuel stack, P x := by
  induction fuel generalizing stack with
  | zero => exact fun x mem => absurd mem not_mem_nil
  | succ fuel ih =>
    cases stack with
    | nil => exact fun x mem => absurd mem not_mem_nil
    | cons id rest =>
      have first : P id := start id (.head _)
      intro x mem
      rcases mem_cons.mp mem with rfl | later
      · exact first
      · refine ih (fun y waiting => ?_) x later
        rcases mem_append.mp waiting with child | other
        · exact closed id first y child
        · exact start y (.tail _ other)

theorem Apart.walk (apart : Apart S a) (fuel : Nat) {stack : List NodeId}
    (new : ∀ x ∈ stack, S x) : ∀ x ∈ a.walk fuel stack, S x :=
  walk_subset apart.children fuel new

end Framed

end JavaEdit.Arena

namespace JavaEdit.Edit

open Arena List

/-! ## Edits -/

/-- However an edit ends, it has changed nodes of `S` only. -/
def Stays {α : Type} (S : NodeId → Prop) (edit : Edit α) (a : Arena) : Prop :=
  Ends edit a (fun _ b => Framed S a b) fun _ b => Framed S a b

section Stays

variable {S : NodeId → Prop} {a : Arena}

theorem framed_sweep (apart : Apart S a) (op : BinaryOperator) {ids : List NodeId}
    (new : ∀ id ∈ ids, S id) : Framed S a (sweep op ids a) := by
  induction ids generalizing a with
  | nil => exact .refl apart
  | cons id rest ih =>
    have later : ∀ x ∈ rest, S x := fun x mem => new x (.tail _ mem)
    rw [sweep]
    split
    · rename_i old left right found
      have first : Framed S a (a.setKind id (.binary op left right)) := by
        refine framed_setKind apart (new id (.head _)) fun c mem => ?_
        refine apart.children id (new id (.head _)) c ?_
        rw [Arena.children, found]
        exact mem
      exact first.trans (ih first.apart later)
    · exact ih apart later

/-- An update among nodes of `S` changes no other node. -/
theorem Update.framed {handles fresh : List NodeId} {b : Arena} (h : Update false handles fresh a b) (apart : Apart S a)
    (handled : ∀ id ∈ handles, S id) (new : ∀ id ∈ fresh, S id) : Framed S a b := by
  cases h with
  | none => exact .refl apart
  | @kind id k here same =>
    refine framed_setKind apart (handled id here) fun c mem => apart.children id (handled id here) c ?_
    rwa [← same]
  | @unlink c p k here up taken =>
    have above : S p := apart.parent c (handled c here) p up
    have first : Framed S a (a.setKind p k) := by
      refine framed_setKind apart above fun x mem => apart.children p above x ?_
      have count := Kind.without?_count taken x
      have held := count_pos_iff.mpr mem
      exact count_pos_iff.mp (by unfold Arena.children; omega)
    exact first.trans (framed_setParent first.apart (handled c here) nofun)
  | @graft c p k here arrives _ _ slots _ =>
    have first : Framed S a (a.setKind p k) := by
      refine framed_setKind apart (handled p here) fun x mem => ?_
      have count := slots x
      have held := count_pos_iff.mpr mem
      split at count
      · rename_i same
        exact beq_iff_eq.mp same ▸ new c arrives
      · exact apart.children p (handled p here) x (count_pos_iff.mp (by omega))
    exact first.trans (framed_setParent first.apart (new c arrives) fun q same => Option.some.inj same ▸ handled p here)
  | @swap old fresh p here arrives up _ _ =>
    have leaves : S old := by
      rcases here with here | ⟨q, here, child⟩
      · exact handled old here
      · exact apart.children q (handled q here) old child
    have above : S p := apart.parent old leaves p up
    have swapped : Framed S a (a.setKind p ((a.kind p).replaceChild old fresh)) := by
      refine framed_setKind apart above fun c mem => ?_
      rw [Kind.children_replaceChild] at mem
      obtain ⟨d, held, rfl⟩ := mem_map.mp mem
      split
      · exact new fresh arrives
      · exact apart.children p above d held
    have attached : Framed S _ ((a.setKind p _).setParent fresh (some p)) :=
      framed_setParent swapped.apart (new fresh arrives) fun q same => Option.some.inj same ▸ above
    exact (swapped.trans attached).trans (framed_setParent attached.apart leaves nofun)

theorem Updates.stays {α : Type} {handles fresh : List NodeId} {edit : Edit α} (h : Updates false handles fresh edit a)
    (apart : Apart S a) (handled : ∀ id ∈ handles, S id) (new : ∀ id ∈ fresh, S id) : Stays S edit a := by
  refine h.mono (fun _ _ update => update.framed apart handled new) ?_
  rintro _ _ ⟨rfl, -⟩
  exact .refl apart

theorem stays_deleteMembers (apart : Apart S a) {container : NodeId} (above : S container) {members : List NodeId}
    (new : ∀ member ∈ members, S member) : Stays S (deleteMembers container members) a := by
  induction members generalizing a with
  | nil => exact .refl apart
  | cons member rest ih =>
    unfold Stays
    rw [deleteMembers, ends_bind]
    have handled : ∀ id ∈ [container, member], S id := by simpa using ⟨above, new member (.head _)⟩
    refine ((updates_deleteMember container member).stays apart handled (by simp)).imp fun _ b first => ?_
    refine (ih first.apart fun x later => new x (.tail _ later)).mono ?_ ?_
    · exact fun _ _ => first.trans
    · exact fun _ _ => first.trans

theorem stays_deleteMethods (apart : Apart S a) {container : NodeId} (new : S container)
    (name : String) : Stays S (deleteMethods container name) a := by
  unfold Stays deleteMethods
  simp only [ends_bind, ends_get, ends_pure]
  refine stays_deleteMembers apart new fun mem doomed => ?_
  exact apart.children container new mem (Kind.mem_children_of_mem_members (mem_of_mem_filter doomed))

end Stays

end JavaEdit.Edit

namespace JavaEdit.Arena

/-! ## Runs -/

variable {S : NodeId → Prop} {a : Arena}

theorem framed_apply (apart : Apart S a) {act : Action} (new : ∀ id ∈ act.handles, S id) :
    Framed S a (act.apply a) := by
  have arrives : ∀ id ∈ act.handles, ∀ c ∈ [id], S c := fun id handled c only => List.mem_singleton.mp only ▸ new id handled
  cases act with
  | readUnit file text => exact (grown_readUnit a file text).framed apart
  | readExpression text => exact (grown_readExpression a text).framed apart
  | readBlock text => exact (grown_readBlock a text).framed apart
  | create kind =>
    refine (Ends.mono (Edit.ends_create kind) ?_ ?_).state (P := Framed S a)
    · rintro _ _ ⟨rfl, -, -⟩
      exact framed_alloc apart new .synthetic []
    · rintro _ _ ⟨rfl, -⟩
      exact .refl apart
  | copy id => exact (owns_copy (.start a) id).grown.framed apart
  | importFrom source id => exact (owns_importFrom (.start a) source id).grown.framed apart
  | setOperator id op => exact ((Edit.updates_setOperator id op).stays apart new nofun).state
  | replaceOperator root old fresh =>
    refine Edit.framed_sweep apart fresh fun x found => ?_
    refine apart.walk _ (fun y only => ?_) x (List.mem_of_mem_filter found)
    rw [List.mem_singleton.mp only]
    exact new root (by simp [Action.handles])
  | detach id => exact ((Edit.updates_detach (List.mem_singleton_self id)).stays apart new nofun).state
  | deleteMember container member => exact ((Edit.updates_deleteMember container member).stays apart new nofun).state
  | deleteMethods container name =>
    exact (Edit.stays_deleteMethods apart (new container (by simp [Action.handles])) name).state
  | replaceNode old fresh =>
    exact ((Edit.updates_replaceNode (.inl (.head _))).stays apart new (arrives fresh (by simp [Action.handles]))).state
  | replaceBody method block =>
    exact ((Edit.updates_replaceBody_unchecked method block).stays apart new
      (arrives block (by simp [Action.handles]))).state
  | addMember container member =>
    exact ((Edit.updates_addMember container member).stays apart new (arrives member (by simp [Action.handles]))).state
  | setName id name => exact ((Edit.updates_setName id name).stays apart new nofun).state
  | setModifiers id ms => exact ((Edit.updates_setModifiers id ms).stays apart new nofun).state
  | addComment id comment =>
    exact framed_modify_comments apart (new id (by simp [Action.handles])) fun cs => cs ++ [comment]
  | clearComments id =>
    exact framed_modify_comments apart (new id (by simp [Action.handles])) fun _ => []

/-- A run of actions among nodes that are apart changes no other node. -/
theorem framed_perform {acts : List Action} (apart : Apart S a)
    (new : ∀ act ∈ acts, ∀ id ∈ act.handles, S id) : Framed S a (a.perform acts) := by
  induction acts generalizing a with
  | nil => exact .refl apart
  | cons act rest ih =>
    have first := framed_apply apart (new act (.head _))
    exact first.trans (ih first.apart fun act' later => new act' (.tail _ later))

end JavaEdit.Arena
