import JavaEdit.Proofs.Accepted.Basic

/-!
# Accepted types and expressions
-/

namespace JavaEdit

/-- An expression may stand in front of a point. -/
theorem IsExpression.anywhere {ok : Page → Prop} {place : ValueSlot} {t : Page}
    (h : IsExpression ok .operand t) : IsExpression ok place t := by
  cases h with
  | literal h => exact .literal h
  | name h => exact .name h
  | this => exact .this
  | access a b c => exact .access a b c
  | call a b c d => exact .call a b c d
  | ownCall a b => exact .ownCall a b
  | new a b => exact .new a b
  | newArray a b c => exact .newArray a b c
  | index a b => exact .index a b
  | binary a b c d => exact .binary a b c d
  | typeTest a b c => exact .typeTest a b c
  | unary a b => exact .unary a b
  | update a b c => exact .update a b c
  | assignment a b c d => exact .assignment a b c d
  | conditional a b c => exact .conditional a b c
  | cast a b => exact .cast a b

theorem Arena.TreeAt.isTarget {a : Arena} {P : Page → Prop} {id : NodeId} (tree : a.TreeAt P id)
    (assignable : Parser.isAssignable (a.kind id)) : a.TreeAt (fun t => P t ∧ t.kind.isTarget) id := by
  refine ⟨tree.1, tree.2, ?_⟩
  rw [tree.1.commented_eq]
  cases kind : a.kind id <;> rw [kind] at assignable <;> first | rfl | cases assignable

namespace Parser

open Arena

variable {s : ParserState}

/-- Answers a node with a tree below it that satisfies `P`. -/
abbrev giving (P : Page → Prop) (id : NodeId) (s : ParserState) : Prop := s.arena.TreeAt P id

abbrev givingAll (P : Page → Prop) (ids : List NodeId) (s : ParserState) : Prop := s.arena.TreesAt P ids

abbrev givingSome (P : Page → Prop) (id : Option NodeId) (s : ParserState) : Prop := s.arena.TreesAt P id.toList

theorem made_bare {k : Kind Page} (none : match k with
    | .literal value => value.IsDenoted
    | .ifElse _ thenBranch (some _) => Layout.endsWithOpenIf thenBranch = false
    | _ => True) : Made (.node [] k) := ⟨nofun, none⟩

variable {r : Rules} (h : Sound r)
include h

/-! ## Types -/

theorem accepts_type : Accepts (type r) s (giving (IsType .plain)) := h .type s trivial

theorem accepts_typeList : Accepts (typeList r) s (givingAll (IsType .plain)) :=
  (accepts_separated (fun _ => accepts_type h) r.steps).mono fun _ _ _ result => result.2

theorem accepts_typeArgument : Accepts (typeArgument r) s (giving (IsType .argument)) := by
  unfold typeArgument
  rw [accepts_look]
  split
  · refine accepts_advance (accepts_eat (fun _ => ?_) fun _ => accepts_eat (fun _ => ?_) fun _ => ?_)
    · refine (accepts_type h).bind fun bound s' _ isType => accepts_make ?_ (.bounded isType.2)
      simpa [Kind.children] using isType.1
    · refine (accepts_type h).bind fun bound s' _ isType => accepts_make ?_ (.bounded isType.2)
      simpa [Kind.children] using isType.1
    · exact accepts_make (List.forall_mem_nil _) .unbounded
  · exact (accepts_type h).mono fun _ _ _ isType => isType.mono fun _ => IsType.argument

omit h in
theorem accepts_closeAngle : Accepts closeAngle s fun _ _ => True := by
  intro genuine
  rw [ends_closeAngle, ends_expect]
  split
  · exact ⟨genuine.split.advanced, (kept_split s).trans (kept_advanced _), trivial⟩
  · trivial

omit h in
theorem accepts_dimensions (steps : Nat) (count : UInt8) : Accepts (dimensions steps count) s fun _ _ => True := by
  induction steps generalizing count s with
  | zero => exact accepts_fail
  | succ steps ih =>
    rw [dimensions]
    simp only [accepts_look]
    split
    · refine accepts_advance (accepts_advance ?_)
      refine .unless accepts_fail fun _ => ?_
      exact ih _
    · exact accepts_pure trivial

theorem accepts_typeArguments (allowDiamond : Bool) : Accepts (typeArguments r allowDiamond) s fun found s' =>
      s'.arena.TreesAt (IsType .argument) found.1 ∧
        (found.2 → found.1 = [] ∧ allowDiamond) := by
  refine accepts_eat (fun _ => ?_) fun _ => accepts_pure ⟨.nil, nofun⟩
  rw [accepts_look]
  split
  · rename_i empty
    rw [Bool.and_eq_true] at empty
    exact accepts_advance (accepts_pure ⟨.nil, fun _ => ⟨rfl, empty.1⟩⟩)
  · refine (accepts_separated (fun _ => accepts_typeArgument h) _).bind fun ids s' _ ⟨_, types⟩ => ?_
    refine accepts_closeAngle.bind fun _ _ kept _ => accepts_pure ⟨?_, nofun⟩
    exact types.extends kept.grown

/-- The two ways to read a type, by the place where it stands. -/
theorem accepts_typeReference {slot : TypeSlot} {allowDiamond withDimensions : Bool}
    (created : allowDiamond → slot = .created ∧ withDimensions = false)
    (plain : withDimensions → slot = .plain) :
    Accepts (typeReference r allowDiamond withDimensions) s (giving (IsType slot)) := by
  -- what is left to do once the name and its arguments are known
  have ended : ∀ (name : String) (found : List NodeId × Bool) (s' : ParserState),
      s'.arena.TreesAt (IsType .argument) found.1 →
      (∀ ts dims, (∀ t ∈ ts, IsType .argument t) → (found.1 = [] → ts = []) →
        (slot = .created → dims = 0) → IsType slot (.node [] (.typeReference name ts found.2 dims))) →
      Accepts (if withDimensions = true then do
          let dims ← dimensions r.steps 0
          make s.token (.typeReference name found.1 found.2 dims)
        else do
          let dims ← pure 0
          make s.token (.typeReference name found.1 found.2 dims)) s'
        (giving (IsType slot)) := by
    intro name found s' arguments isType
    refine Accepts.either (fun dims _ => slot = .created → dims = 0) (fun withDims => ?_)
      (fun _ => accepts_pure fun _ => rfl) fun dims s'' kept none => ?_
    · refine (accepts_dimensions _ _).mono fun _ _ _ _ isCreated => ?_
      rw [plain withDims] at isCreated
      cases isCreated
    · have arguments' := arguments.extends kept.grown
      refine accepts_make (by simpa [Kind.children] using arguments'.rooted) ?_
      exact isType _ _ arguments'.each (fun empty => by rw [empty]; rfl) none
  unfold typeReference
  refine .unless accepts_refuse fun _ => ?_
  split
  · rename_i isPrimitive
    have known : s.token.text ∈ Token.primitives := by
      simp only [Token.isPrimitive, Bool.and_eq_true, List.contains_eq_mem, decide_eq_true_eq] at isPrimitive
      exact isPrimitive.2
    refine accepts_advance (ended _ ([], false) _ .nil fun ts dims _ empty none => ?_)
    rw [empty rfl]
    exact .primitive known none
  · split
    · refine (accepts_qualifiedName _).bind fun name s' _ dotted => ?_
      refine (accepts_typeArguments h _).bind fun found s'' _ arguments => ?_
      refine ended name found s'' arguments.1 fun ts dims types empty none => ?_
      cases isDiamond : found.2 with
      | false => exact .named dotted types none
      | true =>
        obtain ⟨noArguments, allowed⟩ := arguments.2 isDiamond
        obtain ⟨rfl, -⟩ := created allowed
        rw [empty noArguments, none rfl]
        exact .diamond dotted
    · have refused : Accepts (unexpected .type : Parser String) s fun _ _ => False :=
        accepts_unexpected
      exact refused.bind fun _ _ _ => False.elim

theorem accepts_typeParameter : Accepts (typeParameter r) s (giving IsTypeParameter) := by
  unfold typeParameter
  refine .unless accepts_refuse fun _ => ?_
  refine accepts_identifier fun _ known => accepts_eat (fun _ => ?_) fun _ => ?_
  · refine (accepts_separated (fun _ => accepts_type h) _).bind fun bounds s' _ types => ?_
    exact accepts_make (by simpa [Kind.children] using types.2.rooted) (.node known types.2.each)
  · rw [pure_bind]
    exact accepts_make (List.forall_mem_nil _) (.node known (List.forall_mem_nil _))

theorem accepts_typeParameters : Accepts (typeParameters r) s (givingAll IsTypeParameter) := by
  refine accepts_eat (fun _ => ?_) fun _ => accepts_pure .nil
  refine (accepts_separated (fun _ => accepts_typeParameter h) _).bind fun ids s' _ ⟨_, parameters⟩ => ?_
  refine accepts_closeAngle.bind fun _ _ kept _ => accepts_pure ?_
  exact parameters.extends kept.grown

/-! ## Expressions -/

theorem accepts_expression : Accepts (expression r) s (giving IsValue) := h .expression s trivial

omit h in
theorem isCompound_of_assignmentOperator? {token : Token} {op : Option BinaryOperator}
    (found : assignmentOperator? token = some op) : ∀ o ∈ op, o.isCompound := by
  unfold assignmentOperator? at found
  split at found
  · cases found
  · split at found
    · cases found
      nofun
    · obtain ⟨o, compound, rfl⟩ := Option.map_eq_some_iff.mp found
      rintro o ⟨⟩
      unfold BinaryOperator.ofCompound? at compound
      split at compound
      · exact (Option.filter_eq_some_iff.mp compound).2
      · cases compound

theorem accepts_assignment : Accepts (assignment r) s (giving IsValue) := by
  unfold assignment
  rw [accepts_look]
  refine (h .conditional s trivial).bind fun _ _ _ isTarget => ?_
  rw [accepts_look]
  split
  · exact accepts_pure isTarget
  · rename_i op isOperator
    refine .unless accepts_failAt fun assignable => ?_
    have target1 := TreeAt.isTarget isTarget (by simpa using assignable)
    refine accepts_advance ((accepts_expression h).bind fun _ _ kept isValue => ?_)
    have target2 := target1.extends kept.grown
    refine accepts_make ?_ ?_
    · simpa [Kind.children] using ⟨target2.1, isValue.1⟩
    · exact .assignment (isCompound_of_assignmentOperator? isOperator) target2.2.2 target2.2.1 isValue.2

theorem accepts_conditional : Accepts (conditional r) s (giving IsValue) := by
  unfold conditional
  rw [accepts_look]
  refine (h (.operation _) s trivial).bind fun _ _ _ c => accepts_eat (fun _ => ?_) fun _ => accepts_pure c
  refine (accepts_expression h).bind fun _ _ k2 t => accepts_expect ?_
  refine (h .conditional _ trivial).bind fun _ _ k3 e => ?_
  have t' := TreeAt.extends t k3.grown
  have c' := TreeAt.extends c (k2.grown.trans k3.grown)
  refine accepts_make ?_ (.conditional c'.2 t'.2 e.2)
  simpa [Kind.children] using ⟨c'.1, t'.1, e.1⟩

theorem accepts_rightOperand (op : BinaryOperator) : Accepts (rightOperand r op) s (giving fun t =>
      if op = .instanceOf then IsType .plain t else IsValue t) := by
  unfold rightOperand
  split
  · rename_i isTest
    refine .unless accepts_refuse fun _ => ?_
    refine (accepts_type h).bind fun _ s1 _ isType => ?_
    refine .unless accepts_refuse fun _ => ?_
    refine accepts_pure (isType.mono fun t plain => ?_)
    rw [if_pos (beq_iff_eq.mp isTest)]
    exact plain
  · rename_i other
    refine (h (.operation _) s trivial).mono fun id s1 _ right => TreeAt.mono right fun t e => ?_
    rw [if_neg (by simpa using other)]
    exact e

theorem accepts_operators (start : Token) (least steps : Nat) {left : NodeId} (isLeft : s.arena.TreeAt IsValue left) :
    Accepts (operators r start least steps left) s (giving IsValue) := by
  induction steps generalizing left s with
  | zero => exact accepts_fail
  | succ steps ih =>
    rw [operators, accepts_look]
    split
    · exact accepts_pure isLeft
    · rename_i op _
      split
      · exact accepts_pure isLeft
      · refine accepts_advance ((accepts_rightOperand h op).bind fun right s1 kept isRight => ?_)
        have left1 := isLeft.extends kept.grown
        have made : Accepts (make start (.binary op left right)) s1 (giving IsValue) := by
          refine accepts_make ?_ ?_
          · simpa [Kind.children] using ⟨left1.1, isRight.1⟩
          · have form := isRight.2
            split at form
            · subst op
              exact .typeTest left1.2 form (made_bare trivial)
            · exact .binary ‹_› left1.2 form (made_bare trivial)
        exact made.bind fun id _ _ isBinary => ih isBinary

theorem accepts_operation (least : Nat) : Accepts (operation r least) s (giving IsValue) := by
  unfold operation
  rw [accepts_look]
  exact (h .unary s trivial).bind fun _ _ _ isLeft => accepts_operators h _ _ _ isLeft

theorem accepts_arguments : Accepts (arguments r) s (givingAll IsValue) := by
  refine accepts_expect ?_
  refine Accepts.either (givingAll IsValue)
    (fun _ => accepts_pure .nil) (fun _ => ?_) fun _ s' _ values => accepts_expect ?_
  · exact (accepts_separated (fun _ => accepts_expression h) _).mono fun _ _ _ result => result.2
  · exact accepts_pure values

theorem accepts_parenthesized : Accepts (parenthesized r) s (giving IsValue) := by
  exact accepts_expect ((accepts_expression h).bind fun _ _ _ isValue =>
    accepts_expect (accepts_pure isValue))

theorem accepts_sizes (steps : Nat) (extra : UInt8) : Accepts (sizes r steps extra) s fun found s' =>
      s'.arena.TreesAt IsValue found.1 := by
  induction steps generalizing extra s with
  | zero => exact accepts_fail
  | succ steps ih =>
    refine accepts_eat (fun _ => accepts_eat (fun _ => ih _) fun _ => ?_) fun _ => accepts_pure .nil
    refine .unless accepts_fail fun _ => ?_
    refine (accepts_expression h).bind fun _ _ _ isSize => accepts_expect ?_
    refine (ih _).bind fun (more, extra) s2 kept others => accepts_pure ?_
    exact .cons (isSize.extends kept.grown) others

theorem accepts_creation : Accepts (creation r) s (giving IsValue) := by
  unfold creation
  rw [accepts_look]
  refine accepts_expect ?_
  refine .unless accepts_refuse fun _ => ?_
  have created : ∀ s, Accepts (nested (typeReference r true false)) s (giving (IsType .created)) :=
    fun s => accepts_nested (accepts_typeReference h (fun _ => ⟨rfl, rfl⟩) nofun)
  refine (created _).bind fun _ _ _ isType => ?_
  rw [accepts_look]
  split
  · refine (accepts_sizes h _ _).bind fun (dims, extra) s2 kept sizes => ?_
    refine .unless accepts_refuse fun _ => ?_
    refine .unless accepts_fail fun some => ?_
    have type2 := isType.extends kept.grown
    refine accepts_make ?_ (.newArray type2.2 (by simpa using some) sizes.each)
    simpa [Kind.children] using ⟨type2.1, sizes.rooted⟩
  · refine (accepts_arguments h).bind fun _ s2 kept isValue => ?_
    refine .unless accepts_refuse fun _ => ?_
    have type2 := isType.extends kept.grown
    refine accepts_make ?_ (.new type2.2 isValue.each)
    simpa [Kind.children] using ⟨type2.1, isValue.rooted⟩

theorem accepts_nameOrCall (isName : s.token.kind = .identifier) : Accepts (nameOrCall r) s (giving IsValue) := by
  unfold nameOrCall
  refine .unless accepts_refuse fun _ => ?_
  refine .genuinely fun genuine => accepts_advance ?_
  have known := genuine.token.identifier isName
  rw [accepts_look]
  split
  · refine (accepts_arguments h).bind fun _ _ _ isValue => ?_
    exact accepts_make (by simpa [Kind.children] using isValue.rooted) (.ownCall (.inl known) isValue.each)
  · exact accepts_make (List.forall_mem_nil _) (.name known)

/-- What stands in front of the next token, where only a point may follow `super`. -/
def Leads (s : ParserState) (id : NodeId) : Prop :=
  s.arena.TreeAt (IsExpression Made .target) id ∧
    (s.token.is "." = false → s.arena.TreeAt IsValue id)

omit h in
theorem leads_of_operand {id : NodeId} (isValue : s.arena.TreeAt IsValue id) : Leads s id :=
  ⟨isValue.mono fun _ => IsExpression.anywhere, fun _ => isValue⟩

theorem accepts_selfReference (isSelf : s.token.text = "this" ∨ s.token.text = "super") :
    Accepts (selfReference r) s fun id s' => Leads s' id := by
  refine accepts_advance ?_
  rw [accepts_look]
  split
  · refine (accepts_arguments h).bind fun _ _ _ isValue => ?_
    refine (accepts_make (P := IsValue) ?_ ?_).mono fun _ _ _ => leads_of_operand
    · simpa [Kind.children] using isValue.rooted
    · exact .ownCall (.inr isSelf) isValue.each
  · split
    · refine (accepts_make (P := IsValue) ?_ .this).mono fun _ _ _ => leads_of_operand
      simp [Kind.children]
    · rw [accepts_look]
      split
      · rename_i pointed
        refine (accepts_makeCommented (P := IsExpression Made .target) ?_ .super).mono
          fun id s' _ made => ⟨made.1, fun noPoint => ?_⟩
        · simp [Kind.children]
        · rw [ParserState.token, made.2.2] at noPoint
          exact absurd pointed (by rw [ParserState.token, noPoint]; exact Bool.false_ne_true)
      · exact accepts_unexpected

theorem accepts_keywordExpression : Accepts (keywordExpression r s.token) s fun id s' => Leads s' id := by
  unfold keywordExpression
  split
  · rename_i isSelf
    exact accepts_selfReference h (by simpa using isSelf)
  · split
    · exact (accepts_creation h).mono fun _ _ _ => leads_of_operand
    · refine .unless accepts_refuse fun _ => ?_
      refine .unless accepts_refuse fun _ => ?_
      exact accepts_unexpected

theorem accepts_primary : Accepts (primary r) s fun id s' => Leads s' id := by
  unfold primary
  rw [accepts_look]
  split
  · exact accepts_failAt
  · rename_i value isLiteral
    refine .genuinely fun genuine => accepts_advance ?_
    refine (accepts_make (P := IsValue) ?_ (.literal ?_)).mono fun _ _ _ => leads_of_operand
    · simp [Kind.children]
    · exact made_bare (denoted_of_literalValue? genuine.token isLiteral)
  · split
    · rename_i isName
      exact (accepts_nameOrCall h isName).mono fun _ _ _ => leads_of_operand
    · exact accepts_keywordExpression h
    · split
      · rw [accepts_look]
        refine .unless accepts_refuse fun _ => ?_
        exact (accepts_parenthesized h).mono fun _ _ _ => leads_of_operand
      · exact accepts_unexpected
    · exact accepts_unexpected

theorem accepts_memberAccess (start : Token) {target : NodeId}
    (isTarget : s.arena.TreeAt (IsExpression Made .target) target) :
    Accepts (memberAccess r start target) s (giving IsValue) := by
  unfold memberAccess
  refine .unless accepts_refuse fun _ => ?_
  refine .unless accepts_refuse fun _ => ?_
  refine accepts_identifier fun _ known => ?_
  rw [accepts_look]
  split
  · refine (accepts_arguments h).bind fun _ _ kept isValue => ?_
    have target1 := isTarget.extends kept.grown
    refine accepts_make ?_ (.call target1.2 known isValue.each (made_bare trivial))
    simpa [Kind.children] using ⟨target1.1, isValue.rooted⟩
  · refine accepts_make ?_ (.access isTarget.2 known (made_bare trivial))
    simpa [Kind.children] using isTarget.1

theorem accepts_suffixes (start : Token) (steps : Nat) {target : NodeId} (leads : Leads s target) :
    Accepts (suffixes r start steps target) s (giving IsValue) := by
  induction steps generalizing target s with
  | zero => exact accepts_fail
  | succ steps ih =>
    refine accepts_eat (fun _ => ?_) fun noPoint => ?_
    · exact (accepts_memberAccess h start (s := s.advanced) leads.1).bind fun id s1 _ isAccess =>
        ih (leads_of_operand isAccess)
    · have isTarget := leads.2 noPoint
      refine accepts_eat (fun _ => ?_) fun _ => ?_
      · refine (accepts_expression h).bind fun index s1 kept isIndex => accepts_expect ?_
        have target1 := isTarget.extends kept.grown
        have made : Accepts (make start (.arrayAccess target index)) s1.advanced
            (giving IsValue) := by
          refine accepts_make ?_ (.index target1.2 isIndex.2)
          simpa [Kind.children] using ⟨target1.1, isIndex.1⟩
        exact made.bind fun id _ _ isAccess => ih (leads_of_operand isAccess)
      · rw [accepts_look]
        split
        · refine accepts_advance ?_
          refine .unless accepts_failAt fun assignable => ?_
          have target1 := isTarget.isTarget (by simpa using assignable)
          have made : Accepts (make start
              (.unary (if (s.token.text == "++") = true then .postInc else .postDec) target))
              s.advanced (giving IsValue) := by
            have rooted := target1.1
            refine accepts_make (by simpa [Kind.children] using rooted) ?_
            exact .update (by split <;> rfl) target1.2.2 target1.2.1
          exact made.bind fun id s1 _ isUpdate => ih (leads_of_operand isUpdate)
        · rw [accepts_look]
          refine .unless accepts_refuse fun _ => ?_
          exact accepts_pure isTarget

theorem accepts_cast : Accepts (cast r) s (giving IsValue) := by
  refine accepts_advance ((accepts_type h).bind fun _ _ _ isType => accepts_expect ?_)
  refine (h .unary _ trivial).bind fun _ _ kept isValue => ?_
  have type2 := isType.extends kept.grown
  refine accepts_make ?_ (.cast type2.2 isValue.2)
  simpa [Kind.children] using ⟨type2.1, isValue.1⟩

theorem accepts_leadingOperator (op : UnaryOperator) : Accepts (leadingOperator r op) s (giving IsValue) := by
  refine accepts_advance ?_
  rw [accepts_look]
  split
  · rename_i value isLeast
    have least : leastValue? s.advanced.token = some value := by
      split at isLeast
      · exact isLeast
      · cases isLeast
    refine accepts_advance (accepts_make (List.forall_mem_nil _) (.literal ?_))
    exact made_bare (denoted_of_leastValue? least)
  · refine (h .unary _ trivial).bind fun _ _ _ isOperand => ?_
    refine .unless accepts_failAt fun fits => ?_
    refine accepts_make (by simpa [Kind.children] using isOperand.1) ?_
    cases isUpdate : op.isUpdate with
    | false => exact .unary isUpdate isOperand.2
    | true =>
      rw [isUpdate, Bool.true_and, Bool.not_eq_true', Bool.not_eq_false] at fits
      exact .update isUpdate (TreeAt.isTarget isOperand fits).2.2 isOperand.2

theorem accepts_unary : Accepts (unary r) s (giving IsValue) := by
  unfold unary
  rw [accepts_look]
  split
  · exact accepts_leadingOperator h _
  · simp only [accepts_look]
    split
    · exact accepts_cast h
    · exact (accepts_primary h).bind fun _ _ _ leads => accepts_suffixes h _ _ leads

end Parser

end JavaEdit
