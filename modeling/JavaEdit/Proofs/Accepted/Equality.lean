import JavaEdit.Proofs.Accepted.Declarations
import JavaEdit.Proofs.Layout.Nodes

/-!
# Equality of what was read

Structural equality compares literals as numbers, so it is coarser than equality of payloads: it does
not tell the two zeros apart, and a literal that is not a number differs from itself. No text denotes
such literals. Nodes that were read from texts are structurally equal exactly if the trees below them
have the same payloads (`structurallyEqual_iff_bare`), whatever the layout, the comments and the
indices.
-/

namespace JavaEdit

open List

/-! ## Literals that a text denotes -/

theorem Number.Format.eq_of_sameNumber {f : Format} {a b : Nat} (left : f.IsDenoted a)
    (right : f.IsDenoted b) (same : f.sameNumber a b) : a = b := by
  have small : ∀ {bits}, f.IsDenoted bits → f.magnitude bits = bits := by
    intro bits denoted
    have positive : bits < f.signBit := by simpa [isNegative] using denoted.1
    exact Nat.mod_eq_of_lt positive
  simp only [sameNumber, Bool.and_eq_true, Bool.or_eq_true, beq_iff_eq, small left, small right] at same
  rcases same.2 with equal | ⟨zero, zero'⟩
  · exact equal
  · rw [zero, zero']

theorem Literal.eq_of_agrees {x y : Literal} (left : x.IsDenoted) (right : y.IsDenoted)
    (same : x.agrees y) : x = y := by
  cases x with
  | float a =>
    cases y with
    | float b => rw [UInt32.toNat_inj.mp (Number.Format.eq_of_sameNumber left right same)]
    | _ => cases same
  | double a =>
    cases y with
    | double b => rw [UInt64.toNat_inj.mp (Number.Format.eq_of_sameNumber left right same)]
    | _ => cases same
  | _ => exact beq_iff_eq.mp same

theorem Literal.isNaN_of_isDenoted {x : Literal} (denoted : x.IsDenoted) : x.isNaN = false := by
  have number : ∀ {f : Number.Format} {bits : Nat}, f.IsDenoted bits → f.isNaN bits = false := by
    rintro f bits ⟨-, finite⟩
    rw [Number.Format.isFinite, decide_eq_true_eq] at finite
    rw [Number.Format.isNaN, decide_eq_false_iff_not]
    omega
  cases x with
  | float bits | double bits => exact number denoted
  | _ => rfl

/-- Literals in a payload are ones that a text denotes. -/
def Kind.IsDenoted {α : Type} (k : Kind α) : Prop := ∀ value, k.shape = .literal value → value.IsDenoted

theorem Kind.shape_eq_of_shapesAgree {k k' : Kind Unit} (left : ∀ value, k = .literal value → value.IsDenoted)
    (right : ∀ value, k' = .literal value → value.IsDenoted) (same : shapesAgree k k') : k = k' := by
  unfold shapesAgree at same
  split at same
  · rw [Literal.eq_of_agrees (left _ rfl) (right _ rfl) same]
  · exact beq_iff_eq.mp same

theorem Tree.Alike.eq {t t' : Tree Unit} (h : t.Alike t') (left : t.Every Kind.IsDenoted)
    (right : t'.Every Kind.IsDenoted) : t = t' := by
  induction h with
  | @node k k' agree length _ ih =>
    obtain ⟨here, below⟩ := left
    obtain ⟨here', below'⟩ := right
    have shape : k.shape = k'.shape := Kind.shape_eq_of_shapesAgree here here' agree
    have children : k.children = k'.children := by
      refine ext_getElem length fun i inLeft inRight => ?_
      have pair : (k.children[i], k'.children[i]) ∈ k.children.zip k'.children := by
        rw [← getElem_zip (h := by simp [inLeft, inRight])]
        exact getElem_mem _
      exact ih _ pair (below _ (getElem_mem _)) (below' _ (getElem_mem _))
    rw [Kind.eq_of_shape_eq shape children]

theorem Tree.alike_self {t : Tree Unit} (denoted : t.Every Kind.IsDenoted) : t.Alike t := by
  refine (Tree.alike_self_iff t).mpr (denoted.mono fun k here => ?_)
  refine (Kind.shapesAgree_self_iff k).mpr fun value isLiteral => Literal.isNaN_of_isDenoted ?_
  subst isLiteral
  exact here value rfl

theorem Tree.Every.denoted {ok : Page → Prop} (known : ∀ value, ok (.node [] (.literal value)) → value.IsDenoted)
    {t : Page} (regular : t.Every (Regular ok)) : t.bare.Every Kind.IsDenoted := by
  refine (Tree.every_bare_iff (P := fun k => ∀ value, k = .literal value → value.IsDenoted) t).mpr ?_
  refine regular.mono fun k regular value shape => ?_
  cases k with
  | literal other =>
    cases shape
    exact known _ (regular.literal _ rfl)
  | _ => cases shape

/-- Literals that are made of genuine tokens are ones that a text denotes. -/
theorem denoted_of_regular {t : Page} (regular : t.Every (Regular Made)) : t.bare.Every Kind.IsDenoted :=
  regular.denoted fun _ made => made.2

namespace Arena

theorem bare_eq (a : Arena) (id : NodeId) : a.bare id = (a.commented id).bare := (Tree.bare_mapLabels ..).symm

variable {a : Arena}

theorem structurallyEqual_iff_bare {b : Arena} {u v : NodeId} (left : a.TreeAt (·.Every (Regular Made)) u)
    (right : b.TreeAt (·.Every (Regular Made)) v) : a.structurallyEqual u b v ↔ a.bare u = b.bare v := by
  have size : (a.tree u).size = (a.commented u).bare.size := by
    rw [← bare_eq, bare, Tree.size_bare]
  rw [structurallyEqual_iff left.1.holds size right.1.holds, bare_eq, bare_eq]
  constructor
  · intro alike
    exact alike.eq (denoted_of_regular left.2) (denoted_of_regular right.2)
  · intro same
    rw [← same]
    exact Tree.alike_self (denoted_of_regular left.2)

/-! ## Nodes without floating point literals -/

/-- No cycle is below a node, and no floating point literal. -/
structure Exact (a : Arena) (x : NodeId) : Prop where
  acyclic : AcyclicBelow a x
  noFloat : ∀ y, a.Reaches x y → ∀ bits, a.kind y ≠ .literal (.float bits)
  noDouble : ∀ y, a.Reaches x y → ∀ bits, a.kind y ≠ .literal (.double bits)

theorem Exact.denoted {x : NodeId} (h : Exact a x) : (a.bare x).Every Kind.IsDenoted := by
  refine h.acyclic.induct (P := fun y => a.Reaches x y → (a.bare y).Every Kind.IsDenoted) (fun y acyclic ih reached => ?_) .refl
  rw [acyclic.bare_eq]
  refine .node (fun value isLiteral => ?_) fun t mem => ?_
  · have here : a.kind y = .literal value := by
      cases kind : a.kind y <;> simp_all [Kind.shape, Kind.map]
    cases value with
    | float bits => exact absurd here (h.noFloat y reached bits)
    | double bits => exact absurd here (h.noDouble y reached bits)
    | _ => trivial
  · rw [Kind.children_map] at mem
    obtain ⟨c, child, rfl⟩ := mem_map.mp mem
    exact ih c child (reached.tail child)

/-- Exact nodes are compared by their trees, and more pairs would not have to be looked at. -/
theorem Exact.pairsAgree_iff {b : Arena} {u v : NodeId} (left : Exact a u) (right : Exact b v) {fuel : Nat}
    (enough : (a.tree u).size ≤ fuel) : a.pairsAgree b fuel [(u, v)] ↔ a.bare u = b.bare v := by
  have pairs := Arena.pairsAgree_iff (a := a) (b := b) fuel [((u, v), (a.bare u, b.bare v))]
    (by simp [left.acyclic.holds_bare, right.acyclic.holds_bare]) (by simpa [bare, Tree.size_bare] using enough)
  refine Iff.trans (by simpa using pairs) ⟨fun alike => Tree.Alike.eq alike left.denoted right.denoted, fun same => ?_⟩
  rw [← same]
  exact Tree.alike_self left.denoted

/-- Without comments, what a node shows is its bare tree. -/
theorem AcyclicBelow.commented_of_silent {x : NodeId} (h : AcyclicBelow a x)
    (silent : ∀ y, a.Reaches x y → a.comments y = []) : a.commented x = (a.bare x).mapLabels fun _ => [] := by
  refine h.induct (P := fun y => a.Reaches x y → a.commented y = (a.bare y).mapLabels fun _ => [])
    (fun y acyclic ih reached => ?_) .refl
  rw [acyclic.commented_eq, acyclic.bare_eq, silent y reached, Tree.mapLabels_node, Kind.map_map]
  exact congrArg _ (Kind.map_congr fun c child => ih c child (reached.tail child))

/-- Structural equality decides whether two trees without cycles and floating point literals are the same
but for indices, parents, positions and comments: it comes to its end, having looked at no more pairs than
the first tree has nodes, and is true exactly if the bare trees are equal, a bare tree being the payload of
its node over the bare trees of the children. So it is an equivalence, and equal trees without comments
have the same text. -/
theorem structurallyEqual_iff_sameTree (a b c : Arena) (u v w : NodeId) (left : Exact a u) (right : Exact b v)
    (third : Exact c w) :
    (∀ x, a.Reaches u x → a.bare x = .node () ((a.kind x).map a.bare)) ∧
    (∀ more, a.pairsAgree b ((a.tree u).size + more) [(u, v)] = a.structurallyEqual u b v) ∧
    (a.structurallyEqual u b v = true ↔ a.bare u = b.bare v) ∧
    a.structurallyEqual u a u = true ∧
    a.structurallyEqual u b v = b.structurallyEqual v a u ∧
    (a.structurallyEqual u b v = true → b.structurallyEqual v c w = true → a.structurallyEqual u c w = true) ∧
    ((∀ x, a.Reaches u x → a.comments x = []) → (∀ x, b.Reaches v x → b.comments x = []) →
      a.structurallyEqual u b v = true → a.text u = b.text v) := by
  have decides : ∀ {a b : Arena} {u v : NodeId}, Exact a u → Exact b v →
      (a.structurallyEqual u b v = true ↔ a.bare u = b.bare v) := fun left right =>
    left.pairsAgree_iff right (Nat.le_refl _)
  refine ⟨fun x reached => (left.acyclic.reached reached).bare_eq, fun more => ?_, decides left right,
    (decides left left).mpr rfl, ?_, fun same same' => ?_, fun silent silent' same => ?_⟩
  · exact Bool.eq_iff_iff.mpr ((left.pairsAgree_iff right (Nat.le_add_right ..)).trans (decides left right).symm)
  · exact Bool.eq_iff_iff.mpr ((decides left right).trans (eq_comm.trans (decides right left).symm))
  · exact (decides left third).mpr (((decides left right).mp same).trans ((decides right third).mp same'))
  · rw [text, text, left.acyclic.commented_of_silent silent, right.acyclic.commented_of_silent silent',
      (decides left right).mp same]

/-- Nodes made of older ones without any literal are exact. -/
theorem exact_of_older (older : ∀ p < a.size, ∀ c ∈ a.children p, c < p)
    (plain : ∀ y < a.size, a.variant y ≠ .literal) (x : NodeId) : Exact a x := by
  have noLiteral : ∀ y value, a.kind y ≠ .literal value := by
    intro y value isLiteral
    have variant : a.variant y = .literal := congrArg Kind.variant isLiteral
    exact plain y (lt_of_variant_ne (by rw [variant]; nofun)) variant
  exact ⟨acyclicBelow_of_older fun p _ c child => older p (Linked.parent_lt child) c child,
    fun y _ _ => noLiteral y _, fun y _ _ => noLiteral y _⟩

/-- The sum of two names of one variable. -/
def separateOperands : Arena :=
  (((empty.alloc (.name "x") .synthetic []).2.alloc (.name "x") .synthetic []).2.alloc
    (.binary .plus 0 1) .synthetic []).2

/-- A sum of a node with itself is equal to one of two nodes, and has its text. -/
theorem structurallyEqual_iff_sameTree_shared : Exact sharedOperand 1 ∧ Exact separateOperands 2 ∧
      sharedOperand.structurallyEqual 1 separateOperands 2 = true ∧ sharedOperand.text 1 = separateOperands.text 2 := by
  have left : Exact sharedOperand 1 := exact_of_older (by decide) (by decide) 1
  have right : Exact separateOperands 2 := exact_of_older (by decide) (by decide) 2
  obtain ⟨-, -, decides, -, -, -, prints⟩ := structurallyEqual_iff_sameTree _ _ _ _ _ _ left right left
  have same := decides.mpr (by rfl)
  have silent : ∀ (a : Arena) x, (∀ y < a.size, a.comments y = []) → a.comments x = [] := by
    intro a x inside
    by_cases within : x < a.size
    · exact inside x within
    · rw [comments, node_of_le (Nat.le_of_not_lt within)]
      rfl
  exact ⟨left, right, same, prints (fun x _ => silent _ x (by decide)) (fun x _ => silent _ x (by decide)) same⟩

end Arena

end JavaEdit
