import JavaEdit.Proofs.Arena.Copies
import JavaEdit.Proofs.Layout.Nodes
import JavaEdit.Proofs.Parser.Halting
import JavaEdit.Proofs.Reading.Operations

/-!
# Expressions are read back

The text of an expression is made of its words (`Proofs/Layout/Inline`), and its words are read as
the expression (`Proofs/Reading/Operations`). Neither asks where the tree came from: parentheses
are right in trees that were never parsed, and stay right when operators are exchanged. The only
thing that can go wrong is that the parentheses of the text nest too deeply.
-/

namespace JavaEdit

open Layout Lexer List Tree

variable {place : ValueSlot} {t : Page} {α ι : Type}

/-! ## Comments in expressions -/

/-- A tree with the comments of its nodes left out. -/
def Tree.uncommented {ι : Type} (t : Tree ι) : Page := t.mapLabels fun _ => []

theorem Tree.uncommented_node (label : ι) (kind : Kind (Tree ι)) :
    (Tree.node label kind).uncommented = .node [] (kind.map uncommented) := mapLabels_node ..

theorem Tree.uncommented_mapLabels {κ : Type} (f : ι → κ) (t : Tree ι) : (t.mapLabels f).uncommented = t.uncommented :=
  mapLabels_mapLabels ..

theorem Tree.bare_uncommented (t : Tree ι) : t.uncommented.bare = t.bare := bare_mapLabels ..

namespace Layout

/-- What the text around a piece asks of it. -/
structure Piece.Same (p q : Piece) : Prop where
  text_eq : p.text = q.text
  precedence_eq : precedence p.tree.kind = precedence q.tree.kind
  variant_eq : p.variant = q.variant
  primitive_eq : isPrimitiveType p.tree.kind = isPrimitiveType q.tree.kind

theorem Piece.Same.operand_eq {p q : Piece} (h : p.Same q) : p.operand = q.operand := by
  funext least depth
  rw [Piece.operand, Piece.operand, h.text_eq, h.precedence_eq]

theorem map_text_congr {β : Type} {f g : α → Piece} {ts : List α} (h : ∀ t ∈ ts, (f t).Same (g t))
    (r : (Nat → String) → β) : (ts.map f).map (fun p => r p.text) = (ts.map g).map fun p => r p.text := by
  rw [map_map, map_map]
  exact map_congr_left fun t mem => congrArg r (h t mem).text_eq

/-- The text of a type or an expression depends on no more than that. -/
theorem inlinePart_congr {f g : α → Piece} {k : Kind α} (inline : k.isInline)
    (h : ∀ c ∈ k.children, (f c).Same (g c)) (depth : Nat) :
    inlinePart depth (k.map f) = inlinePart depth (k.map g) := by
  have list : ∀ ts : List α, (∀ t ∈ ts, (f t).Same (g t)) →
      Piece.list (ts.map f) depth = Piece.list (ts.map g) depth := fun ts same =>
    congrArg _ (map_text_congr same fun text => text depth)
  cases k with
  | typeReference name arguments diamond dims =>
    simp only [Kind.map, inlinePart, typeText, list arguments h, isEmpty_map]
  | wildcardType bound upper =>
    cases bound with
    | none => rfl
    | some bound => simp only [Kind.map, inlinePart, Option.map, (h bound (by simp [Kind.children])).text_eq]
  | invocation target name arguments =>
    have same := list arguments fun t mem => h t (by simp [Kind.children, mem])
    cases target with
    | none => simp only [Kind.map, inlinePart, Option.map, argumentText, same]
    | some target =>
      simp only [Kind.map, inlinePart, Option.map, argumentText, same, (h target (by simp [Kind.children])).operand_eq]
  | new type arguments =>
    obtain ⟨same, others⟩ := forall_mem_cons.mp h
    simp only [Kind.map, inlinePart, argumentText, list arguments others, same.text_eq]
  | newArray element sizes extra =>
    obtain ⟨same, others⟩ := forall_mem_cons.mp h
    simp only [Kind.map, inlinePart, map_text_congr others fun text => "[" ++ text depth ++ "]", same.text_eq]
  | literal | name | this | super => rfl
  | fieldAccess | unary => simp only [Kind.map, inlinePart, unaryText, (h _ (.head _)).operand_eq]
  | arrayAccess | binary | assignment | cast =>
    have first := h _ (.head _)
    have second := h _ (.tail _ (.head _))
    simp only [Kind.map, inlinePart, rightText, castText, first.text_eq, first.operand_eq, first.primitive_eq,
      second.text_eq, second.operand_eq, second.variant_eq]
  | conditional =>
    simp only [Kind.map, inlinePart, (h _ (.head _)).operand_eq, (h _ (.tail _ (.head _))).operand_eq,
      (h _ (.tail _ (.tail _ (.head _)))).operand_eq]
  | _ => cases inline

theorem nodeText_inline {comments : List Comment} {k : Kind Piece} (inline : k.isInline)
    (depth : Nat) : nodeText comments k depth = inlinePart depth k := by
  cases k <;> first | rfl | cases inline

theorem same_uncommented (inline : t.Every fun k => k.isInline) : (piece t.uncommented).Same (piece t) := by
  induction inline with
  | @node comments kind isInline _ ih =>
    rw [uncommented_node]
    refine ⟨?_, ?_, ?_, ?_⟩
    · funext depth
      rw [text_node, text_node, nodeText_inline (by simpa using isInline),
        nodeText_inline (by simpa using isInline), Kind.map_map]
      exact inlinePart_congr isInline ih depth
    all_goals
      cases kind <;> rfl

theorem text_uncommented (inline : t.Every fun k => k.isInline) : t.uncommented.text = t.text := by
  rw [Tree.text, (same_uncommented inline).text_eq, Tree.text]

end Layout

/-! ## Expressions that can be read back -/

/-- Nodes that are read back wherever they stand: floating point literals, the test of a type and
what is asked of an integer are left out. -/
def Plain (t : Page) : Prop :=
  match t.kind with
  | .literal (.float _) | .literal (.double _) => False
  | .fieldAccess target _ | .invocation (some target) _ _ => ∀ v, target.kind ≠ .literal (.int v)
  | .binary op _ _ => op ≠ .instanceOf
  | _ => True

theorem pointed_of_ne_int (h : ∀ v, t.kind ≠ .literal (.int v)) (cs : List Char) : Pointed t cs := by
  unfold Pointed
  split
  · rename_i v isInt
    exact absurd isInt (h v)
  · trivial

theorem endsWithTypeName_of_plain (h : IsExpression Plain place t) : endsWithTypeName t = false := by
  cases h with
  | @binary _ op _ _ notTest =>
    unfold endsWithTypeName
    split
    · rename_i same
      cases same
      exact absurd rfl notTest
    · rfl
  | typeTest _ _ plain => exact absurd rfl plain
  | _ => rfl

theorem IsExpression.clear (h : IsExpression Plain place t) : IsExpression Clear place t := by
  induction h with
  | @literal _ value plain =>
    refine .literal ?_
    cases value with
    | float | double => exact absurd plain id
    | _ => trivial
  | name isName => exact .name isName
  | this => exact .this
  | super => exact .super
  | access _ isName plain ih => exact .access ih isName (pointed_of_ne_int plain _)
  | call _ isName _ plain ih ihs => exact .call ih isName ihs (pointed_of_ne_int plain _)
  | ownCall isName _ ihs => exact .ownCall isName ihs
  | new isType _ ihs => exact .new isType ihs
  | newArray isType some _ ihs => exact .newArray isType some ihs
  | index _ _ ih ih' => exact .index ih ih'
  | @binary _ op left right notTest e _ _ ih ih' =>
    refine .binary notTest ih ih' ?_
    cases op with
    | lt => exact endsWithTypeName_of_plain e
    | _ => trivial
  | typeTest _ _ plain => exact absurd rfl plain
  | unary notUpdate _ ih => exact .unary notUpdate ih
  | update isUpdate isTarget _ ih => exact .update isUpdate isTarget ih
  | assignment known isTarget _ _ ih ih' => exact .assignment known isTarget ih ih'
  | conditional _ _ _ ih ih' ih'' => exact .conditional ih ih' ih''
  | cast isType _ ih => exact .cast isType ih

/-- A property of payloads that their shapes decide holds at the nodes of a tree with and without
its comments. -/
theorem Tree.every_uncommented_iff {P : Kind Unit → Prop} (t : Tree ι) :
    (t.uncommented.Every fun k => P k.shape) ↔ t.Every fun k => P k.shape := by
  rw [← every_bare_iff, bare_uncommented, every_bare_iff]

/-! ## Reading texts -/

/-- Reading ended with a result and an arena as `good` says, or with an error as `bad` says. -/
def Yields {α : Type} (out : Except ParseError α × Arena) (good : α → Arena → Prop)
    (bad : ParseError → Prop) : Prop :=
  match out with
  | (.ok x, a) => good x a
  | (.error e, _) => bad e

variable {bad : ParseError → Prop}

theorem Yields.mono {out : Except ParseError α × Arena} {good good' : α → Arena → Prop}
    (h : Yields out good bad) (weaker : ∀ x a, good x a → good' x a) :
    Yields out good' bad := by
  obtain ⟨outcome, a⟩ := out
  cases outcome with
  | ok x => exact weaker x a h
  | error e => exact h

theorem Yields.imp_error {out : Except ParseError α × Arena} {good : α → Arena → Prop} {bad' : ParseError → Prop}
    (h : Yields out good bad) (weaker : ∀ e, out.1 = .error e → bad e → bad' e) : Yields out good bad' := by
  obtain ⟨outcome, a⟩ := out
  cases outcome with
  | ok x => exact h
  | error e => exact weaker e rfl h

namespace Parser

theorem yields_readWith {entry : Rules → Parser α} {file text : String}
    {tokens : List Token} (found : tokenize file text = .ok tokens) {a : Arena}
    {good : α → Arena → Prop}
    (h : Ends (entry ⟨stepsFor tokens, grammar (stepsFor tokens)⟩) ⟨file, tokens, 0, 0, [], a⟩
      (fun x s => good x s.arena) fun e _ => bad e) : Yields (readWith entry a file text) good bad := by
  unfold readWith
  rw [found]
  unfold Ends at h
  dsimp only
  split at h
  · rename_i run
    rw [run]
    exact h
  · rename_i run
    rw [run]
    exact h

variable {deep : Nat → Prop}

/-- At the end of the text a rule is done. -/
theorem goes_finish {s : ParserState} {β : Type} {f : Unit → Parser β} {out : β → List Token → Arena → Prop}
    (ahead : s.At []) (next : Goes (f ()) s out deep) : Goes (finish >>= f) s out deep := by
  have last : s.token.kind = .eof := ahead.kind
  unfold finish atEnd
  simpa [goes_look, last] using next

theorem yields_of_lexes {entry : Rules → Parser NodeId} {text : String} {ws : List Token}
    (lexed : Lexes text.toList (ws ++ [word .eof ""]))
    (halts : ∀ b r, Ready b r → Answers b false r → ∃ e, Halts b false e (entry r))
    (reads : ∀ n s, s.At (ws ++ []) → Reads (entry ⟨n, grammar n⟩) s [] (fun a id => a.Shows id t) deep)
    (file : String) (b : Arena) :
    Yields (readWith (fun r => do
      let id ← entry r
      finish
      return id) b file text) (fun id c => c.Shows id t) fun e => deep 0 ∧ e.cause = .nestingTooDeep := by
  obtain ⟨tokens, found, plain⟩ := tokenize_of_lexes lexed file
  have ahead : ParserState.At ⟨file, tokens, 0, 0, [], b⟩ (ws ++ []) := by
    rw [append_nil]
    exact plain
  have whole : Goes (do
      let id ← entry ⟨stepsFor tokens, grammar (stepsFor tokens)⟩
      finish
      return id) ⟨file, tokens, 0, 0, [], b⟩ (fun id _ c => c.Shows id t) deep :=
    Reads.bind (reads _ _ ahead) fun id s' _ ahead' shown => goes_finish ahead' (goes_pure shown)
  refine Yields.imp_error (yields_readWith found (Ends.imp whole fun _ _ ended => ended.2))
    fun e failed (limit : AtLimit (deep 0) e) => ?_
  refine limit.resolve_right (readWith_ne_outOfSteps b file text (fun b r ready answers => ?_) e failed)
  obtain ⟨eats, first⟩ := halts b r ready answers
  cases eats <;> exact ⟨_, inferInstance⟩

theorem readExpression_text (h : IsExpression Clear .operand t) (b : Arena) :
    Yields (b.readExpression t.text) (fun id c => c.Shows id t) (·.cause = .nestingTooDeep) := by
  have lexed := lexes_expression h 0 [] [word .eof ""] (.separator (heads_nil _)) Lexer.Lexes.done
  rw [append_nil] at lexed
  exact (yields_of_lexes lexed (fun _ _ _ _ => ⟨_, inferInstance⟩)
    (fun _ _ ahead => reads_expression h ahead (.inl rfl)) _ b).imp_error fun _ _ => And.right

end Parser

/-! ## Exchanged operators -/

namespace Arena

/-- The arena `b` is `a` with some operators of binary expressions exchanged for `op`. -/
def Reoperated (op : BinaryOperator) (a b : Arena) : Prop :=
  b.size = a.size ∧ ∀ id, b.kind id = a.kind id ∨
    ∃ old left right, a.kind id = .binary old left right ∧ b.kind id = .binary op left right

theorem reoperated_sweep (op : BinaryOperator) (ids : List NodeId) (a : Arena) :
    Reoperated op a (Edit.sweep op ids a) := by
  refine ⟨(Edit.links_sweep op ids a).1, fun id => ?_⟩
  induction ids generalizing a with
  | nil => exact .inl rfl
  | cons first rest ih =>
    rw [Edit.sweep]
    split
    · rename_i old left right isBinary
      have changed := kind_setKind a first id (.binary op left right)
      split at changed
      · rename_i here
        refine .inr ⟨old, left, right, here.1 ▸ isBinary, ?_⟩
        rcases ih (a.setKind first (.binary op left right)) with same | ⟨_, l, r, before, behind⟩
        · rw [same, changed]
        · rw [changed] at before
          cases before
          exact behind
      · rw [← changed]
        exact ih _
    · exact ih a

section Reoperated

variable {op : BinaryOperator} {a b : Arena} (h : Reoperated op a b)
include h
variable {id : NodeId} {n : Nat}

theorem Reoperated.unfold_eq
    (none : (a.unfold n id).Every fun k => k.variant ≠ .binary) : b.unfold n id = a.unfold n id := by
  induction n generalizing id with
  | zero => rfl
  | succ n ih =>
    cases none with
    | node notBinary below =>
      rcases h.2 id with same | ⟨old, left, right, isBinary, _⟩
      · rw [unfold, unfold, same]
        refine congrArg _ (Kind.map_congr fun c child => ih (below _ ?_))
        rw [Kind.children_map]
        exact mem_map_of_mem child
      · rw [isBinary] at notBinary
        exact absurd rfl notBinary

theorem Reoperated.isType {slot : TypeSlot} (isType : IsType slot (a.unfold n id).uncommented) :
    IsType slot (b.unfold n id).uncommented := by
  rw [h.unfold_eq]
  · exact isType
  · refine ((every_uncommented_iff (P := fun k => k.variant = .typeReference ∨
      k.variant = .wildcardType) _).mp isType.every).mono fun k types => ?_
    cases k with
    | binary => exact types.elim nofun nofun
    | _ => exact nofun

/-- The root of a tree stays as it is, except for its operator. -/
theorem Reoperated.root (n : Nat) (id : NodeId) :
    (b.unfold n id).uncommented.kind.shape = (a.unfold n id).uncommented.kind.shape ∨
      (a.unfold n id).uncommented.variant = .binary ∧ (b.unfold n id).uncommented.variant = .binary := by
  cases n with
  | zero => exact .inl rfl
  | succ n =>
    rw [unfold, unfold, uncommented_node, uncommented_node]
    rcases h.2 id with same | ⟨old, left, right, isBinary, behind⟩
    · left
      simp [Tree.kind, Kind.shape, same]
    · right
      rw [isBinary, behind]
      exact ⟨rfl, rfl⟩

theorem Reoperated.isTarget (isTarget : (a.unfold n id).uncommented.kind.isTarget) :
    (b.unfold n id).uncommented.kind.isTarget := by
  have shaped : ∀ k : Kind Page, k.isTarget = k.shape.isTarget := fun k => by cases k <;> rfl
  rcases h.root n id with same | ⟨binary, -⟩
  · rw [shaped, same, ← shaped, isTarget]
  · revert isTarget binary
    generalize (a.unfold n id).uncommented = t
    rcases t with ⟨_, k⟩
    cases k <;> simp [Tree.variant, Tree.kind, Kind.variant, Kind.isTarget]

theorem Reoperated.ne_int (other : ∀ v, (a.unfold n id).uncommented.kind ≠ .literal (.int v)) (v : Int32) :
    (b.unfold n id).uncommented.kind ≠ .literal (.int v) := by
  intro isInt
  rcases h.root n id with same | ⟨-, binary⟩
  · rw [isInt] at same
    refine other v ?_
    revert same
    generalize (a.unfold n id).uncommented.kind = k
    cases k <;> simp [Kind.shape, Kind.map, eq_comm]
  · unfold Tree.variant at binary
    rw [isInt] at binary
    cases binary

theorem Reoperated.isExpression (notTest : op ≠ .instanceOf)
    (e : IsExpression Plain place (a.unfold n id).uncommented) :
    IsExpression Plain place (b.unfold n id).uncommented := by
  induction n generalizing id place with
  | zero =>
    cases e
  | succ n ih =>
    have list : ∀ {ids : List NodeId},
        (∀ t ∈ ids.map (fun c => (a.unfold n c).uncommented), IsExpression Plain .operand t) →
        ∀ t ∈ ids.map (fun c => (b.unfold n c).uncommented), IsExpression Plain .operand t := by
      intro ids each
      simp only [mem_map, forall_exists_index, and_imp, forall_apply_eq_imp_iff₂] at each ⊢
      exact fun c mem => ih (each c mem)
    rw [unfold, uncommented_node, Kind.map_map] at e ⊢
    rcases h.2 id with same | ⟨old, left, right, isBinary, behind⟩
    · rw [same]
      generalize a.kind id = kind at e ⊢
      cases kind with
      | literal => cases e with | literal plain => exact .literal plain
      | name => cases e with | name known => exact .name known
      | this => exact .this
      | super => cases e with | super => exact .super
      | fieldAccess => cases e with | access e known plain => exact .access (ih e) known (h.ne_int plain)
      | invocation target _ _ =>
        cases target with
        | none => cases e with | ownCall known es => exact .ownCall known (list es)
        | some => cases e with | call e known es plain => exact .call (ih e) known (list es) (h.ne_int plain)
      | new => cases e with | new isType es => exact .new (h.isType isType) (list es)
      | newArray =>
        cases e with
        | newArray isType sizes es => exact .newArray (h.isType isType) (by simpa using sizes) (list es)
      | arrayAccess => cases e with | index e e' => exact .index (ih e) (ih e')
      | binary =>
        cases e with
        | binary other e e' plain => exact .binary other (ih e) (ih e') plain
        | typeTest _ _ plain => exact absurd rfl plain
      | unary =>
        cases e with
        | unary known e => exact .unary known (ih e)
        | update known isTarget e => exact .update known (h.isTarget isTarget) (ih e)
      | assignment =>
        cases e with
        | assignment known isTarget e e' => exact .assignment known (h.isTarget isTarget) (ih e) (ih e')
      | conditional => cases e with | conditional e e' e'' => exact .conditional (ih e) (ih e') (ih e'')
      | cast => cases e with | cast isType e => exact .cast (h.isType isType) (ih e)
      | _ => cases e
    · rw [isBinary] at e
      rw [behind]
      cases e with
      | binary _ e e' => exact .binary notTest (ih e) (ih e') notTest
      | typeTest _ _ plain => exact absurd rfl plain

end Reoperated

/-! ## The round trip -/

/-- The text of a node can be read as an expression, into any arena, and gives a tree that is
structurally equal to the one below the node; unless it nests too deeply. -/
def ReadsBack (a : Arena) (e : NodeId) : Prop :=
  ∀ b : Arena, Yields (b.readExpression (a.text e)) (fun id c => a.structurallyEqual e c id = true)
    (·.cause = .nestingTooDeep)

theorem isNaN_of_plain {value : Literal} (plain : Plain (.node [] (.literal value))) : value.isNaN = false := by
  cases value with
  | float | double => exact absurd plain id
  | _ => rfl

/-- Payloads that are laid out without their comments and agree with themselves. -/
def Steady (k : Kind Unit) : Prop := k.isInline = true ∧ Kind.shapesAgree k k = true

theorem steady_of_plain {k : Kind Page} (h : Inline Plain k) : Steady k.shape := by
  refine ⟨(Kind.isInline_map _ k).trans h.1, ?_⟩
  refine (Kind.shapesAgree_self_iff k).mpr fun value isLiteral => isNaN_of_plain ?_
  exact isLiteral ▸ h.2.1 value isLiteral

theorem readsBack_of_plain {a : Arena} {e : NodeId}
    (plain : IsExpression Plain .operand (a.tree e).uncommented) : ReadsBack a e := by
  intro b
  -- steady payloads are the same with comments and without them
  have bare : (a.bare e).Every fun k => Steady k.shape := by
    rw [Arena.bare, ← bare_uncommented, every_bare_iff]
    exact plain.every_inline.mono fun _ => steady_of_plain
  -- there are no empty statements among them, so the tree was not cut off
  have held : Holds a e (a.bare e) := by
    refine holds_unfold _ _ (bare.mono fun k steady => ?_)
    rintro rfl
    exact absurd steady.1 (by decide)
  have commented : (a.commented e).Every fun k => Steady k.shape := by
    rw [← every_bare_iff, Arena.commented, bare_mapLabels]
    exact bare
  have text : a.text e = (a.tree e).uncommented.text := by
    rw [← uncommented_mapLabels a.comments]
    refine (text_uncommented (commented.mono fun k steady => ?_)).symm
    exact (Kind.isInline_map _ k).symm.trans steady.1
  rw [text]
  refine (Parser.readExpression_text plain.clear b).mono fun id c shown => ?_
  have read := shown.1.holds
  rw [shown.2, bare_uncommented] at read
  rw [structurallyEqual_iff held (size_bare _).symm read]
  exact (alike_self_iff _).mpr (bare.mono fun _ steady => steady.2)

/-- The operations that make `(x + 1) * -(-y)`, one node at a time. -/
def signedProduct : List Action :=
  [.create (.name "x"), .create (.literal (.int 1)), .create (.binary .plus 0 1),
    .create (.name "y"), .create (.unary .neg 3), .create (.unary .neg 4),
    .create (.binary .mul 2 5)]

end Arena

end JavaEdit
