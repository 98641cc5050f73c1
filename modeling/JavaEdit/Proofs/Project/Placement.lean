import JavaEdit.Proofs.Project.Failure

/-!
# Nodes without a position

A parser gives every node that it makes a position in the text. The declarators of one declaration
share a type and annotations, though, and all but the first get copies, which have no position.
`Placed ids a b` says that these copies are all that `b` has of nodes without a position besides
those of `a`; the fields in question are members of some type, or among the nodes `ids` that are
going to be. Most rules see to this as they see to the nodes at hand (`placement`); the work is in
the members of a type.
-/

namespace JavaEdit

open Arena Relation List

/-- The annotations of a field. -/
def Kind.notes {α : Type} : Kind α → List α
  | .field _ _ annotations _ _ => annotations
  | _ => []

theorem Kind.variant_of_mem_notes {α : Type} {k : Kind α} {note : α} (mem : note ∈ k.notes) : k.variant = .field := by
  cases k with
  | field => rfl
  | _ => exact absurd mem not_mem_nil

/-- What the declarators of one declaration share: the type, and the annotations of fields. -/
def Kind.shared {α : Type} (k : Kind α) : List α := k.notes ++ k.declaredType?.toList

theorem Kind.mem_children_of_mem_shared {α : Type} {k : Kind α} {part : α} (mem : part ∈ k.shared) :
    part ∈ k.children := by
  cases k with
  | field => exact mem_append_left _ mem
  | localVariable => exact mem_cons.mpr (.inl (mem_singleton.mp mem))
  | _ => exact absurd mem not_mem_nil

variable {root : NodeId}

namespace Arena

variable {a b c : Arena} {ids more : List NodeId} {x : NodeId}

/-- A field that stands behind another one of the same declaration: both have one position. -/
def Repeats (a : Arena) (ids : List NodeId) (id : NodeId) : Prop :=
  ∃ first, [first, id].Sublist ids ∧ a.variant first = .field ∧ a.variant id = .field ∧
    (a.position id).isReal = true ∧ a.position id = a.position first

theorem Repeats.mem (h : a.Repeats ids x) : x ∈ ids := by
  obtain ⟨first, order, -⟩ := h
  exact order.subset (.tail _ (.head _))

/-- A node in what a local variable or a field shares with those before it. -/
def IsShared (a : Arena) (ids : List NodeId) (x : NodeId) : Prop :=
  ∃ id, (a.variant id = .localVariable ∨ a.Repeats ids id ∨ ∃ owner, a.Repeats (a.members owner) id) ∧
    ∃ part ∈ (a.kind id).shared, a.Reaches part x

/-- The nodes of `a` have the payload and the position in `b` that they had. -/
structure Lasts (a b : Arena) : Prop where
  size_le : a.size ≤ b.size
  kind_eq : ∀ x, x < a.size → b.kind x = a.kind x
  position_eq : ∀ x, x < a.size → b.position x = a.position x

/-- New nodes without a position are in what declarators share. -/
structure Placed (ids : List NodeId) (a b : Arena) : Prop extends Lasts a b where
  shared : ∀ x, a.size ≤ x → x < b.size → (b.position x).isReal = false → b.IsShared ids x

theorem Lasts.refl (a : Arena) : Lasts a a := ⟨Nat.le_refl _, fun _ _ => rfl, fun _ _ => rfl⟩

theorem Lasts.trans (h : Lasts a b) (h' : Lasts b c) : Lasts a c where
  size_le := Nat.le_trans h.size_le h'.size_le
  kind_eq x old := by rw [h'.kind_eq x (Nat.lt_of_lt_of_le old h.size_le), h.kind_eq x old]
  position_eq x old := by rw [h'.position_eq x (Nat.lt_of_lt_of_le old h.size_le), h.position_eq x old]

theorem lt_of_mem_shared {part : NodeId} (mem : part ∈ (a.kind x).shared) : x < a.size := by
  by_contra outside
  rw [kind_of_le (Nat.le_of_not_lt outside)] at mem
  exact absurd mem not_mem_nil

section Lasts

variable (lasts : Lasts a b)
include lasts

theorem Lasts.variant_eq (old : x < a.size) : b.variant x = a.variant x := congrArg Kind.variant (lasts.kind_eq x old)

theorem Lasts.reaches (h : a.Reaches root x) : b.Reaches root x := by
  induction h with
  | refl => exact .refl
  | @tail p c _ child ih =>
    refine ih.tail ?_
    unfold Arena.children
    rwa [lasts.kind_eq p (Linked.parent_lt child)]

theorem Lasts.repeats (h : a.Repeats ids x) (sub : ids.Sublist more) : b.Repeats more x := by
  obtain ⟨first, order, isField, isField', real, same⟩ := h
  have old : first < a.size := lt_of_variant_ne (by rw [isField]; nofun)
  have old' : x < a.size := lt_of_variant_ne (by rw [isField']; nofun)
  refine ⟨first, order.trans sub, ?_, ?_, ?_, ?_⟩
  · rwa [lasts.variant_eq old]
  · rwa [lasts.variant_eq old']
  · rwa [lasts.position_eq x old']
  · rw [lasts.position_eq x old', lasts.position_eq first old, same]

theorem Lasts.isShared (h : a.IsShared ids x) (sub : ids.Sublist more) : b.IsShared more x := by
  obtain ⟨id, declares, part, mem, reached⟩ := h
  have old : id < a.size := lt_of_mem_shared mem
  refine ⟨id, ?_, part, by rwa [lasts.kind_eq id old], lasts.reaches reached⟩
  rcases declares with isLocal | repeats | ⟨owner, repeats⟩
  · exact .inl (by rwa [lasts.variant_eq old])
  · exact .inr (.inl (lasts.repeats repeats sub))
  · refine .inr (.inr ⟨owner, lasts.repeats repeats ?_⟩)
    have here : owner < a.size := by
      by_contra outside
      obtain ⟨_, order, _⟩ := repeats
      rw [Arena.members, kind_of_le (Nat.le_of_not_lt outside)] at order
      cases order
    rw [Arena.members, Arena.members, lasts.kind_eq owner here]

end Lasts

theorem Placed.refl (a : Arena) : Placed [] a a := ⟨.refl a, fun _ new inside => absurd inside (Nat.not_lt.mpr new)⟩

theorem Placed.trans (h : Placed ids a b) (h' : Placed more b c) : Placed (ids ++ more) a c where
  toLasts := h.toLasts.trans h'.toLasts
  shared x new inside synthetic := by
    by_cases before : x < b.size
    · have here := h.shared x new before (by rwa [← h'.position_eq x before])
      exact h'.toLasts.isShared here (sublist_append_left _ _)
    · have here := h'.shared x (Nat.le_of_not_lt before) inside synthetic
      exact (Lasts.refl c).isShared here (sublist_append_right _ _)

theorem Placed.mono (h : Placed ids a b) (sub : ids.Sublist more) : Placed more a b :=
  ⟨h.toLasts, fun x new inside synthetic => (Lasts.refl b).isShared (h.shared x new inside synthetic) sub⟩

/-- Nothing is new. -/
theorem placed_of_size_eq (lasts : Lasts a b) (size : b.size = a.size) : Placed [] a b :=
  ⟨lasts, fun _ new inside => absurd (size ▸ inside) (Nat.not_lt.mpr new)⟩

theorem position_alloc (a : Arena) (k : Kind NodeId) (pos : Position) (cs : List Comment) (x : NodeId) :
    (a.alloc k pos cs).2.position x = if x = a.size then pos else a.position x := by
  unfold Arena.position
  rw [node_alloc]
  split
  · rfl
  · split <;> rfl

theorem lasts_alloc (a : Arena) (k : Kind NodeId) (pos : Position) (cs : List Comment) :
    Lasts a (a.alloc k pos cs).2 where
  size_le := (extends_alloc a k pos cs).size_le
  kind_eq := (extends_alloc a k pos cs).kind_eq
  position_eq x old := by rw [position_alloc, if_neg (Nat.ne_of_lt old)]

theorem placed_addComment (a : Arena) (id : NodeId) (c : Comment) : Placed [] a (a.addComment id c) := by
  have same : ∀ x, (a.addComment id c).kind x = a.kind x ∧ (a.addComment id c).position x = a.position x := by
    intro x
    unfold Arena.kind Arena.position Arena.addComment
    rw [node_modify]
    split <;> exact ⟨rfl, rfl⟩
  exact placed_of_size_eq ⟨(size_modify ..).ge, fun x _ => (same x).1, fun x _ => (same x).2⟩ (size_modify ..)

theorem placed_alloc (a : Arena) (k : Kind NodeId) (file : String) (start : Location) (stop : Nat)
    (cs : List Comment) : Placed [] a (a.alloc k (.real file start stop) cs).2 where
  toLasts := lasts_alloc ..
  shared x new inside synthetic := by
    rw [size_alloc] at inside
    rw [position_alloc, if_pos (by lia)] at synthetic
    cases synthetic

/-- Members that wait for their type have one when it is made. -/
theorem Placed.members (h : Placed ids a b) {k : Kind NodeId} (members : k.members = ids) (file : String)
    (start : Location) (stop : Nat) (cs : List Comment) : Placed [] a (b.alloc k (.real file start stop) cs).2 := by
  have made := placed_alloc b k file start stop cs
  obtain ⟨lasts, shared⟩ := h.trans made
  refine ⟨lasts, fun x new inside synthetic => ?_⟩
  obtain ⟨id, declares, part⟩ := shared x new inside synthetic
  refine ⟨id, ?_, part⟩
  rcases declares with isLocal | repeats | repeats
  · exact .inl isLocal
  · refine .inr (.inr ⟨b.size, ?_⟩)
    rw [Arena.members, kind_alloc, if_pos rfl, members]
    rwa [append_nil] at repeats
  · exact .inr (.inr repeats)

theorem Rooted.reaches (h : Rooted a root) (mem : x ∈ (a.tree root).preorder) : a.Reaches root x := by
  induction h with
  | @node root inside older rooted ih =>
    rw [(Rooted.node inside older rooted).acyclicBelow.tree_eq, Tree.preorder_node, mem_cons] at mem
    rcases mem with rfl | below
    · exact .refl
    · obtain ⟨t, child, here⟩ := mem_flatMap.mp below
      rw [Kind.children_map] at child
      obtain ⟨c, mem, rfl⟩ := mem_map.mp child
      exact .head mem (ih c mem here)

variable {ts : List Page}

theorem Planted.below_shared (copies : Planted a ts ids b) {k : Kind NodeId}
    (used : ∀ id ∈ ids, id ∈ k.shared) (file : String) (start : Location) (stop : Nat) (cs : List Comment)
    (new : a.size ≤ x) (inside : x < (b.alloc k (.real file start stop) cs).2.size)
    (synthetic : ((b.alloc k (.real file start stop) cs).2.position x).isReal = false) :
    ∃ part ∈ k.shared, (b.alloc k (.real file start stop) cs).2.Reaches part x := by
  rw [size_alloc] at inside
  rw [position_alloc] at synthetic
  split at synthetic
  · cases synthetic
  · have here : x ∈ ids.flatMap fun id => (b.tree id).preorder := by
      rw [copies.nodes.mem_iff, mem_range'_1, ← copies.size]
      lia
    obtain ⟨id, mem, below⟩ := mem_flatMap.mp here
    refine ⟨id, used id mem, (lasts_alloc ..).reaches ?_⟩
    exact (copies.shown.1 id mem).reaches below

theorem Planted.lasts (copies : Planted a ts ids b) : Lasts a b where
  size_le := copies.grown.size_le
  kind_eq := copies.grown.kind_eq
  position_eq x old := by rw [copies.position, if_pos old]

theorem Planted.placed_local {t : Page} {type : NodeId} (copies : Planted a [t] [type] b) (start : Location)
    (stop : Nat) (file name : String) (ms : Modifiers) (i : Option NodeId) (cs : List Comment) :
    Placed [] a (b.alloc (.localVariable name ms type i) (.real file start stop) cs).2 where
  toLasts := copies.lasts.trans (lasts_alloc ..)
  shared x new inside synthetic := by
    refine ⟨b.size, .inl ?_, ?_⟩
    · rw [Arena.variant, kind_alloc, if_pos rfl]
      rfl
    · rw [kind_alloc, if_pos rfl]
      exact copies.below_shared (k := .localVariable name ms type i) (fun id mem => mem) file start stop cs new inside synthetic

/-- Fields of `b` with one position, in what they share all that is new and has none. -/
structure Later (a b : Arena) (pos : Position) (ids : List NodeId) : Prop extends Lasts a b where
  fields : ∀ id ∈ ids, b.variant id = .field ∧ b.position id = pos
  below : ∀ x, a.size ≤ x → x < b.size → (b.position x).isReal = false →
    ∃ id ∈ ids, ∃ part ∈ (b.kind id).shared, b.Reaches part x

theorem Later.nil (a : Arena) (pos : Position) : Later a a pos [] :=
  ⟨.refl a, nofun, fun _ new inside => absurd inside (Nat.not_lt.mpr new)⟩

section Later

variable {k : Kind NodeId} {file : String} {start : Location} {stop : Nat} {cs : List Comment}

/-- A node that was just made, when others have followed. -/
theorem Lasts.made {pos : Position} (lasts : Lasts (b.alloc k pos cs).2 c) :
    c.kind b.size = k ∧ c.position b.size = pos := by
  have inside : b.size < (b.alloc k pos cs).2.size := by
    rw [size_alloc]
    exact Nat.lt_succ_self _
  rw [lasts.kind_eq _ inside, lasts.position_eq _ inside, kind_alloc, position_alloc, if_pos rfl, if_pos rfl]
  exact ⟨rfl, rfl⟩

theorem Planted.later (copies : Planted a ts more b) (used : ∀ id ∈ more, id ∈ k.shared)
    (isField : k.variant = .field) (h : Later (b.alloc k (.real file start stop) cs).2 c (.real file start stop) ids) :
    Later a c (.real file start stop) (b.size :: ids) := by
  obtain ⟨kind, position⟩ := h.toLasts.made
  refine ⟨(copies.lasts.trans (lasts_alloc ..)).trans h.toLasts, ?_, fun x new inside synthetic => ?_⟩
  · exact forall_mem_cons.mpr ⟨⟨by rw [Arena.variant, kind, isField], position⟩, h.fields⟩
  · by_cases here : x < (b.alloc k (.real file start stop) cs).2.size
    · rw [h.position_eq x here] at synthetic
      obtain ⟨part, mem, reached⟩ := copies.below_shared used _ _ _ _ new here synthetic
      exact ⟨b.size, .head _, part, kind ▸ mem, h.toLasts.reaches reached⟩
    · obtain ⟨id, mem, below⟩ := h.below x (Nat.le_of_not_lt here) inside synthetic
      exact ⟨id, .tail _ mem, below⟩

/-- The first field of a declaration, with the others behind it. -/
theorem Later.placed (isField : k.variant = .field)
    (h : Later (a.alloc k (.real file start stop) cs).2 c (.real file start stop) ids) :
    Placed (a.size :: ids) a c := by
  obtain ⟨kind, position⟩ := h.toLasts.made
  have first := placed_alloc a k file start stop cs
  refine ⟨first.toLasts.trans h.toLasts, fun x new inside synthetic => ?_⟩
  by_cases here : x < (a.alloc k (.real file start stop) cs).2.size
  · have none := first.shared x new here (by rwa [← h.position_eq x here])
    exact h.toLasts.isShared none (nil_sublist _)
  · obtain ⟨id, mem, below⟩ := h.below x (Nat.le_of_not_lt here) inside synthetic
    obtain ⟨isField', position'⟩ := h.fields id mem
    refine ⟨id, .inr (.inl ⟨a.size, ?_, ?_, isField', by rw [position']; rfl, ?_⟩), below⟩
    · exact (singleton_sublist.mpr mem).cons_cons _
    · rw [Arena.variant, kind, isField]
    · rw [position', position]

end Later

end Arena

namespace Parser

variable {α β : Type}

/-- Answers some nodes. -/
abbrev all : List NodeId → List NodeId := fun ids => ids

/-- A parser that makes nodes without a position for members only, of its result and of others. -/
def PlacesAll (p : Parser α) (out : α → List NodeId) : Prop :=
  ∀ s, Ends p s (fun x s' => Placed (out x) s.arena s'.arena) fun _ _ => True

/-- Nodes without a position are made for members of types only. -/
def placement : Ledger where
  good base _ a := Placed [] base a
  bad _ _ := True
  failed _ := trivial
  sub placed _ := placed
  alloc placed _ _ _ _ := placed.trans (placed_alloc ..)
  addComment c placed _ := placed.trans (placed_addComment _ _ c)

/-- A parser that makes nodes without a position for members of types only. -/
class Placing (p : Parser α) : Prop where
  places : PlacesAll p fun _ => []

/-! ## Putting parsers together -/

section Combining

variable {p q : Parser α} {k : α → Parser β} {out : β → List NodeId}

theorem PlacesAll.behind [h : Placing p] (next : ∀ x, PlacesAll (k x) out) :
    PlacesAll (p >>= k) out := fun s =>
  (h.places s).bind fun x s' placed =>
    (next x s').imp fun _ _ placed' => placed.trans placed'

/-- Something comes first in one of two ways. -/
theorem PlacesAll.either {c : Prop} [Decidable c] [Placing p] [Placing q]
    (next : ∀ x, PlacesAll (k x) out) : PlacesAll (if c then p >>= k else q >>= k) out := by
  split
  · exact .behind next
  · exact .behind next

/-- Members behind members. -/
theorem PlacesAll.append {p q : Parser (List NodeId)} (h : PlacesAll p all) (h' : PlacesAll q all) :
    PlacesAll (p >>= fun first => q >>= fun others => pure (first ++ others)) all := fun s =>
  (h s).bind fun _ s' placed =>
    (h' s').bind fun _ _ placed' => ends_pure.mpr (placed.trans placed')

theorem PlacesAll.uses [Holds α] (h : PlacesAll p fun _ => []) (used : List NodeId) : Uses placement p used :=
  ⟨⟨fun _ _ s placed => (h s).imp fun _ _ placed' => placed.trans placed'⟩⟩

instance [h : Quiet p] : Placing p where
  places s := (h.arena_eq s).mono (fun _ _ same => same ▸ .refl _) fun _ _ _ => trivial

instance [Holds α] {used : List NodeId} [h : Uses placement p used] : Placing p where
  places s := h.uses.keeps s.arena [] s (.refl _)

end Combining

instance : CopiesLocals placement where
  later start ms declared cs names := by
    refine ⟨⟨fun _ _ s placed => ?_⟩⟩
    induction names generalizing cs s with
    | nil => exact placed
    | cons declarator names ih =>
      obtain ⟨name, i⟩ := declarator
      rw [makeLocals]
      simp only [Bool.false_eq_true, if_false, ends_bind, ends_copy, ends_makeCommented, ends_pure]
      have copied := planted_plant (s.arena.commented declared) s.arena
      have made := copied.placed_local start.start s.lastStop s.file name ms i cs
      exact (ih [] _ (placed.trans made)).imp fun _ _ => id

/-! ## Members -/

theorem ends_copies (ids : List NodeId) (s : ParserState) :
    Ends (ids.mapM copy) s (fun own s' => (∃ ts, Planted s.arena ts own s'.arena) ∧
      s'.file = s.file ∧ s'.lastStop = s.lastStop) fun _ _ => True := by
  induction ids generalizing s with
  | nil => exact ⟨⟨[], .nil _⟩, rfl, rfl⟩
  | cons id ids ih =>
    rw [mapM_cons]
    simp only [ends_bind, ends_copy, ends_pure]
    refine (ih _).imp ?_
    rintro own s' ⟨⟨ts, others⟩, file, stop⟩
    exact ⟨⟨_, (planted_plant (s.arena.commented id) s.arena).append others⟩, file, stop⟩

/-- Fields behind the first one of a declaration have copies of what it shares, and its position. -/
theorem later_makeFields (start : Token) (ms : Modifiers) (declared : NodeId) (annotations : List NodeId)
    (cs : List Comment) (names : List (String × Option NodeId)) (s : ParserState) :
    Ends (makeFields start ms declared annotations cs false names) s
      (fun ids s' => Later s.arena s'.arena (.real s.file start.start s.lastStop) ids) fun _ _ => True := by
  induction names generalizing cs s with
  | nil => exact .nil _ _
  | cons declarator names ih =>
    rw [makeFields]
    simp only [Bool.false_eq_true, if_false, ends_bind, ends_copy, ends_makeCommented, ends_pure]
    have type := planted_plant (s.arena.commented declared) s.arena
    refine (ends_copies annotations _).imp ?_
    rintro own s' ⟨⟨ts, notes⟩, file, stop⟩
    refine (ih [] _).imp fun ids _ later => ?_
    rw [file, stop] at later
    refine (type.append notes).later (fun id mem => ?_) rfl later
    rcases mem_append.mp mem with isType | isNote
    · exact mem_append_right _ isType
    · exact mem_append_left _ isNote

theorem placesAll_makeFields (start : Token) (ms : Modifiers) (declared : NodeId) (annotations : List NodeId)
    (cs : List Comment) (names : List (String × Option NodeId)) :
    PlacesAll (makeFields start ms declared annotations cs true names) all := by
  intro s
  cases names with
  | nil => exact .refl _
  | cons declarator names =>
    rw [makeFields]
    simp only [if_true, pure_bind, ends_bind, ends_makeCommented, ends_pure]
    refine (later_makeFields start ms declared annotations [] names _).imp ?_
    exact fun _ s' later => later.placed rfl

section Rules

variable {r : Rules} [Serves placement r] {start : Token} {cs : List Comment} {ms : Modifiers} {annotations : List NodeId}

theorem placesAll_single {p : Parser NodeId} [Placing p] : PlacesAll (p >>= fun id => pure [id]) all :=
  .behind fun _ s => (Placed.refl s.arena).mono (nil_sublist _)

theorem placesAll_member : PlacesAll (member r) all := by
  refine .behind fun cs => .behind fun start => .behind fun _ => .behind fun _ => .behind fun _ => ?_
  split
  · exact fun s => trivial
  · refine .behind fun (ms, annotations) => .behind fun _ => .behind fun _ => ?_
    split
    · exact placesAll_single
    · refine .behind fun _ => .behind fun _ => .behind fun _ => ?_
      split
      · exact placesAll_single
      · refine .behind fun declared => .behind fun _ => .behind fun _ => ?_
        split
        · exact placesAll_single
        · split
          · exact fun s => trivial
          · refine .behind fun names => .behind fun _ => ?_
            exact placesAll_makeFields start ms declared annotations cs names

theorem placesAll_members (steps : Nat) : PlacesAll (members r steps) all := by
  induction steps with
  | zero => exact fun s => trivial
  | succ steps ih =>
    refine .behind fun _ => ?_
    split
    · exact fun s => .refl _
    · refine .behind fun _ => ?_
      split
      · exact fun s => trivial
      · refine .behind fun _ => ?_
        split
        · exact ih
        · exact placesAll_member.append ih

theorem placesAll_typeBody (name : String) : PlacesAll (typeBody r name) all := by
  refine .behind (h := ⟨fun s => .refl _⟩) fun _ => .behind fun _ => fun s => ?_
  refine (placesAll_members r.steps s).bind fun ms s' placed => ?_
  simpa using placed

theorem placesAll_body {name : String} {kind : List NodeId → Kind NodeId} (members : ∀ ms, (kind ms).members = ms) :
    PlacesAll (typeBody r name >>= fun body => makeCommented start (kind body) cs) fun _ => [] := fun s =>
  (placesAll_typeBody name s).bind fun body _ placed =>
    ends_makeCommented.mpr (placed.members (members body) ..)

theorem placesAll_class : PlacesAll (classDeclaration r start cs ms annotations) fun _ => [] := by
  refine .behind fun _ => .behind fun _ => .behind fun _ => .either fun _ => ?_
  refine .behind fun _ => .either fun _ => .behind fun _ => ?_
  exact placesAll_body fun _ => rfl

theorem placesAll_interface : PlacesAll (interfaceDeclaration r start cs ms annotations) fun _ => [] := by
  refine .behind fun _ => .behind fun _ => .behind fun _ => .either fun _ => .behind fun _ => ?_
  exact placesAll_body fun _ => rfl

instance : DeclaresTypes placement r :=
  ⟨fun _ _ _ _ => placesAll_class.uses _, fun _ _ _ _ => placesAll_interface.uses _⟩

end Rules

end Parser

theorem Arena.placed_readUnit {a b : Arena} {file text : String}
    (read : a.readUnit file text = (.ok root, b)) : Placed [] a b := by
  obtain ⟨ts, s, -, rfl, run⟩ := Parser.run_of_readWith read
  have serves := Parser.serves_grammar (L := Parser.placement) (fun _ _ => inferInstance) (Parser.stepsFor ts)
  have placing : (Parser.compilationUnit ⟨Parser.stepsFor ts, Parser.grammar (Parser.stepsFor ts)⟩).Placing :=
    inferInstance
  exact (placing.places _).of_ok run

end JavaEdit
