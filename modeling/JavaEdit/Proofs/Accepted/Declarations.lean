import JavaEdit.Proofs.Accepted.Statements

/-!
# Accepted declarations and units

The rules of declarations, and the knot: since every rule answers its goal if the rules it calls
answer theirs, the grammar answers all of them (`sound_grammar`). A text that is accepted as a unit
has a unit below the node that is answered (`isUnit_of_readUnit`).
-/

namespace JavaEdit

open List

variable {P : Page → Prop} {id : NodeId}

namespace Parser

open Arena

variable {r : Rules} (h : Sound r)
include h
variable {owner : String} {s : ParserState}

/-! ## Parameters -/

theorem accepts_parameter : Accepts (parameter r) s fun id s' => s'.arena.TreeAt (fun t => IsParameter Made t ∧
      (t.kind.isVarargs → s'.token.is ")")) id := by
  unfold parameter
  rw [accepts_look]
  refine (accepts_modifiers h).bind ?_
  rintro ⟨ms, annotations⟩ s1 - ⟨canonical, notes⟩
  refine (accepts_type h).bind fun declared s2 k2 isType => ?_
  refine accepts_eating.bind fun varargs s3 k3 _ => accepts_identifier fun name known => ?_
  refine .unless accepts_refuse fun _ => ?_
  have type3 := isType.extends k3.grown
  have notes3 := notes.extends (k2.grown.trans k3.grown)
  have parameter : Accepts (make s.token (.parameter name ms annotations declared varargs))
      s3.advanced (giving fun t => IsParameter Made t ∧ t.kind.isVarargs = varargs) := by
    refine accepts_make ?_ ⟨.node known canonical notes3.each type3.2, rfl⟩
    simp only [Kind.children, forall_mem_append, forall_mem_singleton]
    exact ⟨notes3.rooted, type3.1⟩
  refine parameter.bind fun id s4 _ isParameter => ?_
  rw [accepts_look]
  refine .unless accepts_fail fun last => accepts_pure (isParameter.mono ?_)
  rintro t ⟨form, dots⟩
  refine ⟨form, fun isVarargs => ?_⟩
  rw [dots] at isVarargs
  simpa [isVarargs] using last

/-- Only the last of several parameters may have dots, since a comma follows the others. -/
theorem accepts_separatedParameters (steps : Nat) : Accepts (separated "," (parameter r) steps) s fun ids s' =>
      ids ≠ [] ∧ TreesAre s'.arena (AreParameters Made) ids := by
  induction steps generalizing s with
  | zero => exact accepts_fail
  | succ steps ih =>
    refine (accepts_parameter h).bind fun id _ _ isParameter => ?_
    refine accepts_eat (fun comma => ?_) fun _ => ?_
    · refine ih.bind fun ids s2 kept ⟨several, others⟩ => accepts_pure ⟨by simp, ?_⟩
      have first := isParameter.extends kept.grown
      refine ⟨?_, ?_, ?_⟩
      · exact forall_mem_cons.mpr ⟨first.1, others.1⟩
      · rw [map_cons]
        exact forall_mem_cons.mpr ⟨first.2.1, others.2.each⟩
      · rw [map_cons, dropLast_cons_of_ne_nil (by simpa using several)]
        refine forall_mem_cons.mpr ⟨?_, others.2.dots⟩
        rw [Bool.eq_false_iff]
        intro dots
        have closed := first.2.2 dots
        rw [Token.is_eq_false comma (by decide)] at closed
        cases closed
    · refine accepts_pure ⟨by simp, ⟨?_, ?_, ?_⟩⟩
      · simpa using isParameter.1
      · simpa using isParameter.2.1
      · simp

theorem accepts_parameters : Accepts (parameters r) s fun ids s' => TreesAre s'.arena (AreParameters Made) ids := by
  refine accepts_expect ?_
  refine Accepts.either (fun ids s' => TreesAre s'.arena (AreParameters Made) ids)
    (fun _ => accepts_pure ⟨nofun, nofun, nofun⟩) (fun _ => ?_) fun ids s' _ isParameters => accepts_expect ?_
  · exact (accepts_separatedParameters h _).mono fun _ _ _ result => result.2
  · exact accepts_pure isParameters

theorem accepts_throwsClause : Accepts (throwsClause r) s (givingAll (IsType .plain)) := by
  exact accepts_eat (fun _ => accepts_typeList h) fun _ => accepts_pure .nil

/-! ## Members -/

omit h in
theorem accepts_copyOf (tree : s.arena.TreeAt P id) : Accepts (copy id) s (giving P) :=
  (accepts_copy id).mono fun _ _ _ same => same.mono fun _ eq => eq ▸ tree.2

omit h in
theorem accepts_copies {ids : List NodeId} (trees : s.arena.TreesAt P ids) :
    Accepts (ids.mapM copy) s (givingAll P) := by
  induction ids generalizing s with
  | nil => exact accepts_pure .nil
  | cons id ids ih =>
    rw [mapM_cons]
    refine (accepts_copyOf (trees id (.head _))).bind fun _ _ k1 isFirst => ?_
    refine (ih fun id mem => (trees id (.tail _ mem)).extends k1.grown).bind fun _ _ k2 isOther => accepts_pure ?_
    exact .cons (isFirst.extends k2.grown) isOther

omit h in
theorem accepts_makeFields (start : Token) {ms : Modifiers} (canonical : ms.Canonical)
    {declared : NodeId} {annotations : List NodeId} {cs : List Comment}
    (written : ∀ c ∈ cs, c.IsWritten) (isFirst : Bool) {names : List (String × Option NodeId)}
    (isType : s.arena.TreeAt (IsType .plain) declared)
    (notes : s.arena.TreesAt (IsNote Made .use) annotations) (known : Declared s.arena names) (owner : String) :
    Accepts (makeFields start ms declared annotations cs isFirst names) s (givingAll (IsDeclaration Made (some owner))) := by
  induction names generalizing cs isFirst s with
  | nil => exact accepts_pure .nil
  | cons d names ih =>
    obtain ⟨name, value⟩ := d
    refine Accepts.either (giving (IsType .plain)) (fun _ => accepts_pure isType)
      (fun _ => accepts_copyOf isType) fun type _ k0 isOwn => ?_
    refine Accepts.either (givingAll (IsNote Made .use)) (fun _ => accepts_pure (notes.extends k0.grown))
      (fun _ => accepts_copies (notes.extends k0.grown)) fun own s1 k1 notes1 => ?_
    have type1 := isOwn.extends k1.grown
    have known1 := known.extends (k0.trans k1).grown
    obtain ⟨isName, isValue⟩ := known1 _ (.head _)
    have made : Accepts (makeCommented start (.field name ms own type value) cs) s1
        (giving (IsDeclaration Made (some owner))) := by
      refine accepts_commented ?_ ?_
      · simp only [Kind.children, forall_mem_append, forall_mem_singleton]
        exact ⟨⟨notes1.rooted, type1.1⟩, isValue.rooted⟩
      · exact .field isName ⟨notes1.each, canonical⟩ type1.2 isValue.optional ⟨written, trivial⟩
    refine made.bind fun id s2 k2 isField => ?_
    have grown := (k0.trans (k1.trans k2)).grown
    have known2 : Declared s2.arena names := fun d mem =>
      known.extends grown d (.tail _ mem)
    refine (ih written_nil false (isType.extends grown) (notes.extends grown) known2).bind
      fun _ _ k3 isOther => accepts_pure ?_
    exact .cons (isField.extends k3.grown) isOther

section Member

variable {start : Token} {cs : List Comment} (written : ∀ c ∈ cs, c.IsWritten) {ms : Modifiers}
    (canonical : ms.Canonical) {annotations typeParams : List NodeId}
    (notes : s.arena.TreesAt (IsNote Made .use) annotations)
include written canonical notes

theorem accepts_constructor (names : s.typeNames.head? = some owner) (isName : s.token.kind = .identifier) :
    Accepts (constructor r start cs ms annotations typeParams) s (giving (IsDeclaration Made (some owner))) := by
  unfold constructor
  refine .unless accepts_fail fun same => ?_
  rw [names, Bool.not_eq_true, bne_eq_false_iff_eq, Option.some.injEq] at same
  refine .unless accepts_refuse fun _ => ?_
  refine .genuinely fun genuine => accepts_advance ?_
  have known := genuine.token.identifier isName
  refine (accepts_parameters h).bind fun _ _ k1 isParameters => ?_
  refine (accepts_throwsClause h).bind fun _ _ k2 isThrown => ?_
  refine (h .block _ trivial).bind fun body s3 k3 ⟨isBody, _⟩ => ?_
  have notes3 := notes.extends (k1.trans (k2.trans k3)).grown
  have parameters3 := isParameters.extends (k2.trans k3).grown
  have thrown3 := isThrown.extends k3.grown
  refine accepts_commented ?_ ?_
  · simp only [Kind.children, forall_mem_append, forall_mem_singleton]
    exact ⟨⟨⟨notes3.rooted, parameters3.1⟩, thrown3.rooted⟩, isBody.1⟩
  · rw [same]
    exact .constructor (same ▸ known) ⟨notes3.each, canonical⟩ parameters3.2 thrown3.each isBody.2 ⟨written, trivial⟩

theorem accepts_method (typeParameters : s.arena.TreesAt IsTypeParameter typeParams)
    {returned : NodeId} (isType : s.arena.TreeAt (IsType .plain) returned) {name : String}
    (known : isIdentifier name) (owner : String) :
    Accepts (method r start cs ms annotations typeParams returned name) s
      (giving (IsDeclaration Made (some owner))) := by
  refine (accepts_parameters h).bind fun _ _ k1 isParameters => ?_
  refine .unless accepts_refuse fun _ => ?_
  refine (accepts_throwsClause h).bind fun _ _ k2 isThrown => ?_
  refine Accepts.eatEither (givingSome (IsStatement Made .body)) (accepts_pure .nil) (accepts_someBlock h)
    fun _ _ k3 isBody => ?_
  have grown := k1.grown.trans (k2.grown.trans k3)
  have notes3 := notes.extends grown
  have typeParameters3 := typeParameters.extends grown
  have type3 := isType.extends grown
  have parameters3 := isParameters.extends (k2.grown.trans k3)
  have thrown3 := isThrown.extends k3
  refine accepts_commented ?_ ?_
  · simp only [Kind.children, forall_mem_append, forall_mem_singleton]
    exact ⟨⟨⟨⟨⟨notes3.rooted, typeParameters3.rooted⟩, type3.1⟩, parameters3.1⟩, thrown3.rooted⟩, isBody.rooted⟩
  · exact .method known ⟨notes3.each, canonical⟩ typeParameters3.each type3.2 parameters3.2
      thrown3.each isBody.optional ⟨written, trivial⟩

end Member

theorem accepts_member (names : s.typeNames.head? = some owner) :
    Accepts (member r) s (givingAll (IsDeclaration Made (some owner))) := by
  refine accepts_takeComments fun cs written => ?_
  rw [← (kept_uncommented s).typeNames_eq] at names
  simp only [accepts_look]
  split
  · exact accepts_refuse
  refine (accepts_modifiers h).bind ?_
  rintro ⟨ms, annotations⟩ s1 k1 ⟨canonical, notes⟩
  rw [← k1.typeNames_eq] at names
  simp only [accepts_look, atRecord, bind_assoc, pure_bind]
  split
  · refine (h (.typeDeclaration _ _ _ _) s1 ⟨written, canonical, notes⟩).bind
      fun id s2 _ (isType : s2.arena.TreeAt (fun t => ∀ owner, IsDeclaration Made owner t) id) => ?_
    exact accepts_pure (.single (isType.mono fun t form => form (some owner)))
  refine (accepts_typeParameters h).bind fun _ s2 k2 isTypeParameter => ?_
  rw [← k2.typeNames_eq] at names
  have notes2 := notes.extends k2.grown
  simp only [accepts_look]
  split
  · rename_i isConstructor
    rw [Bool.and_eq_true, beq_iff_eq] at isConstructor
    refine (accepts_constructor h written canonical notes2 names isConstructor.1).bind
      fun id s3 _ isMember => accepts_pure (.single isMember)
  refine (accepts_type h).bind fun _ s3 k3 isType => ?_
  refine accepts_identifier fun _ known => ?_
  have notes3 := notes2.extends k3.grown
  have typeParameters3 := isTypeParameter.extends k3.grown
  rw [accepts_look]
  split
  · refine (accepts_method h (s := s3.advanced) written canonical notes3 typeParameters3 isType known owner).bind
      fun id s4 _ isMember => accepts_pure (.single isMember)
  split
  · exact accepts_unexpected
  refine (accepts_declarators h _ known).bind fun declarators s4 k4 declared => accepts_expect ?_
  exact accepts_makeFields (s := s4.advanced) _ canonical written true (isType.extends k4.grown)
    (notes3.extends k4.grown) declared.2 owner

theorem accepts_members (steps : Nat) (names : s.typeNames.head? = some owner) :
    Accepts (members r steps) s (givingAll (IsDeclaration Made (some owner))) := by
  induction steps generalizing s with
  | zero => exact accepts_fail
  | succ steps ih =>
    rw [members, accepts_look]
    split
    · exact accepts_pure .nil
    · rw [accepts_look]
      refine .unless accepts_unexpected fun _ => ?_
      refine accepts_eat (fun _ => ih names) fun _ => ?_
      · refine (accepts_member h names).bind fun _ _ k1 isFirst => ?_
        rw [← k1.typeNames_eq] at names
        refine (ih names).bind fun _ _ k2 isOther => accepts_pure ?_
        exact (isFirst.extends k2.grown).append isOther

theorem accepts_typeBody (name : String) :
    Accepts (typeBody r name) s (givingAll (IsDeclaration Made (some name))) := by
  intro genuine
  unfold typeBody
  rw [ends_bind, ends_modify, ends_bind, ends_expect]
  generalize inner : ({ s with typeNames := name :: s.typeNames } : ParserState) = s0
  have names : s0.typeNames = name :: s.typeNames := by rw [← inner]
  have genuine0 : s0.Genuine := by rw [← inner]; exact genuine
  have kept0 : s0.depth = s.depth ∧ s0.arena = s.arena := by rw [← inner]; exact ⟨rfl, rfl⟩
  split
  · have opened := kept_advanced s0
    have inside : s0.advanced.typeNames.head? = some name := by
      rw [opened.typeNames_eq, names]
      rfl
    rw [ends_bind]
    refine (accepts_members h _ inside genuine0.advanced).imp fun ids s1 ⟨genuine1, k1, isMember⟩ => ?_
    rw [ends_bind, ends_advance, ends_bind, ends_modify, ends_pure]
    have closed := opened.trans (k1.trans (kept_advanced s1))
    refine ⟨genuine1.advanced, ⟨?_, ?_, ?_⟩, ?_⟩
    · exact closed.depth_eq.trans kept0.1
    · show s1.advanced.typeNames.tail = s.typeNames
      rw [closed.typeNames_eq, names]
      rfl
    · have grown := closed.grown
      rw [kept0.2] at grown
      exact grown
    · exact isMember
  · trivial

omit h in
theorem accepts_refusePermits : Accepts refusePermits s fun _ _ => True := by
  unfold refusePermits
  refine .unless accepts_refuse fun _ => ?_
  exact accepts_pure trivial

section TypeDeclaration

variable {start : Token} {cs : List Comment} (written : ∀ c ∈ cs, c.IsWritten) {ms : Modifiers}
    (canonical : ms.Canonical) {annotations : List NodeId}
    (notes : s.arena.TreesAt (IsNote Made .use) annotations)
include written canonical notes

theorem accepts_classDeclaration : Accepts (classDeclaration r start cs ms annotations) s
      (giving fun t => ∀ owner, IsDeclaration Made owner t) := by
  refine accepts_identifier fun name known => ?_
  refine (accepts_typeParameters h).bind fun _ s1 k1 isTypeParameter => ?_
  have extended : Accepts (some <$> type r) s1.advanced (givingSome (IsType .plain)) :=
    (accepts_type h).map fun _ _ _ isType => .single isType
  refine Accepts.eatEither (givingSome (IsType .plain)) extended (accepts_pure .nil) fun _ _ k2 isSuperclass => ?_
  refine Accepts.eatEither (givingAll (IsType .plain)) (accepts_typeList h) (accepts_pure .nil)
    fun _ s3 k3 isInterface => ?_
  refine accepts_refusePermits.bind fun _ s4 k4 _ => ?_
  refine (accepts_typeBody h name).bind fun _ _ k5 isMember => ?_
  have g3 := k4.grown.trans k5.grown
  have notes5 := notes.extends (k1.grown.trans (k2.trans (k3.trans g3)))
  have typeParameters5 := isTypeParameter.extends (k2.trans (k3.trans g3))
  have superclass5 := isSuperclass.extends (k3.trans g3)
  have interfaces5 := isInterface.extends g3
  refine accepts_commented ?_ fun owner => ?_
  · simp only [Kind.children, forall_mem_append]
    exact ⟨⟨⟨⟨notes5.rooted, typeParameters5.rooted⟩, superclass5.rooted⟩, interfaces5.rooted⟩, isMember.rooted⟩
  · exact .classDecl known ⟨notes5.each, canonical⟩ typeParameters5.each superclass5.optional
      interfaces5.each isMember.each ⟨written, trivial⟩

theorem accepts_interfaceDeclaration : Accepts (interfaceDeclaration r start cs ms annotations) s
      (giving fun t => ∀ owner, IsDeclaration Made owner t) := by
  refine accepts_identifier fun name known => ?_
  refine (accepts_typeParameters h).bind fun _ _ k1 isTypeParameter => ?_
  refine Accepts.eatEither (givingAll (IsType .plain)) (accepts_typeList h) (accepts_pure .nil)
    fun _ s2 k2 isSupertype => ?_
  refine accepts_refusePermits.bind fun _ s3 k3 _ => ?_
  refine (accepts_typeBody h name).bind fun _ _ k4 isMember => ?_
  have g2 := k3.grown.trans k4.grown
  have notes4 := notes.extends (k1.grown.trans (k2.trans g2))
  have typeParameters4 := isTypeParameter.extends (k2.trans g2)
  have supertypes4 := isSupertype.extends g2
  refine accepts_commented ?_ fun owner => ?_
  · simp only [Kind.children, forall_mem_append]
    exact ⟨⟨⟨notes4.rooted, typeParameters4.rooted⟩, supertypes4.rooted⟩, isMember.rooted⟩
  · exact .interfaceDecl known ⟨notes4.each, canonical⟩ typeParameters4.each supertypes4.each
      isMember.each ⟨written, trivial⟩

theorem accepts_typeDeclaration : Accepts (typeDeclaration r start cs ms annotations) s
      (giving fun t => ∀ owner, IsDeclaration Made owner t) := by
  unfold typeDeclaration
  rw [accepts_look]
  split
  · exact accepts_refuse
  simp only [atRecord, bind_assoc, accepts_look, pure_bind]
  split
  · exact accepts_refuse
  refine accepts_eat (fun _ => accepts_classDeclaration h (s := s.advanced) written canonical notes) fun _ => ?_
  exact accepts_eat (fun _ => accepts_interfaceDeclaration h (s := s.advanced) written canonical notes)
    fun _ => accepts_unexpected

end TypeDeclaration

/-! ## Units -/

omit h in
theorem accepts_importRest (steps : Nat) :
    Accepts (importRest steps) s fun found _ => ∀ n ∈ found.1, isIdentifier n := by
  induction steps generalizing s with
  | zero => exact accepts_fail
  | succ steps ih =>
    refine accepts_eat (fun _ => accepts_eat (fun _ => accepts_pure nofun) fun _ => ?_) fun _ => accepts_pure nofun
    refine accepts_identifier fun _ known => ih.bind fun (parts, wildcard) s1 _ others => ?_
    exact accepts_pure (forall_mem_cons.mpr ⟨known, others⟩)

omit h in
theorem accepts_importLine (steps : Nat) : Accepts (importLine steps) s fun found _ => isDotted found.path := by
  refine accepts_eating.bind fun isStatic s1 _ _ => accepts_identifier fun first known => ?_
  refine (accepts_importRest steps).bind ?_
  rintro ⟨parts, wildcard⟩ s2 - others
  exact accepts_expect (accepts_pure (isDotted_intercalate known others))

omit h in
theorem accepts_importLines (steps more : Nat) :
    Accepts (importLines steps more) s fun found _ => ∀ i ∈ found, isDotted i.path := by
  induction more generalizing s with
  | zero => exact accepts_fail
  | succ more ih =>
    refine accepts_eat (fun _ => ?_) fun _ => accepts_pure nofun
    refine (accepts_importLine steps).bind fun _ s1 _ dotted => ?_
    refine ih.bind fun _ _ _ dotted' => accepts_pure ?_
    exact forall_mem_cons.mpr ⟨dotted, dotted'⟩

omit h in
/-- There are names in front of the tokens ahead exactly if there is a package. -/
theorem accepts_packageLine (steps : Nat) : Accepts (packageLine steps) s fun found _ =>
      (∀ n ∈ found, isDotted n) ∧ (found = none → s.token.is "package" = false) := by
  refine accepts_eat (fun _ => ?_) fun none => accepts_pure ⟨nofun, fun _ => none⟩
  refine (accepts_qualifiedName steps).bind fun _ _ _ dotted => accepts_expect (accepts_pure ?_)
  exact ⟨fun n same => Option.mem_some.mp same ▸ dotted, nofun⟩

theorem accepts_topLevelTypes (steps : Nat) :
    Accepts (topLevelTypes r steps) s (givingAll (IsDeclaration Made none)) := by
  induction steps generalizing s with
  | zero => exact accepts_fail
  | succ steps ih =>
    rw [topLevelTypes, accepts_look]
    split
    · exact accepts_pure .nil
    · refine accepts_eat (fun _ => ih) fun _ => accepts_takeComments fun cs written => ?_
      rw [accepts_look]
      refine (accepts_modifiers h).bind fun (ms, annotations) s1 _ ⟨canonical, notes⟩ => ?_
      refine (accepts_typeDeclaration h written canonical notes).bind fun _ s2 _ isType => ?_
      refine ih.bind fun _ _ k3 isOther => accepts_pure ?_
      exact .cons ((isType.mono fun t form => form none).extends k3.grown) isOther

omit h in
theorem is_token_uncommented (s : ParserState) (text : String) : s.uncommented.token.is text = s.token.is text := by
  unfold ParserState.uncommented ParserState.token tokenAt
  cases tokens : s.rest with
  | nil => simp [tokens]
  | cons token ts => rfl

theorem accepts_compilationUnit : Accepts (compilationUnit r) s (giving (IsUnit Made)) := by
  unfold compilationUnit
  rw [accepts_look]
  refine Accepts.either (fun cs s0 => (∀ c ∈ cs, c.IsWritten) ∧ (s0.token.is "package" = false → cs = []))
    (fun named => ?_) (fun _ => accepts_pure ⟨forall_mem_nil _, fun _ => rfl⟩) ?_
  · rw [← bind_pure takeComments]
    refine accepts_takeComments fun cs written => accepts_pure ⟨written, fun unnamed => ?_⟩
    rw [is_token_uncommented, named] at unnamed
    cases unnamed
  rintro cs s0 - ⟨written, bare⟩
  rw [accepts_look]
  split
  · exact accepts_refuse
  refine (accepts_packageLine _).bind ?_
  rintro package s1 - ⟨dotted, unnamed⟩
  refine (accepts_importLines _ _).bind fun imports s2 _ isImport => ?_
  refine (accepts_topLevelTypes h _).bind fun types s3 _ isType => ?_
  rw [accepts_look, accepts_look]
  intro genuine
  have shown := Shows.alloc (k := .compilationUnit package imports types) isType.rooted rfl
    (.real s3.file .start s3.token.start.offset) cs
  have form : IsUnit Made (.node cs ((Kind.compilationUnit package imports types).map s3.arena.commented)) :=
    .node dotted (fun none => bare (unnamed none)) isImport isType.each ⟨written, trivial⟩
  rw [← shown.2] at form
  exact ⟨genuine, ⟨rfl, rfl, extends_alloc ..⟩, shown.1, form⟩

/-! ## The grammar -/

theorem accepts_rule (goal : Goal) (s : ParserState) (asks : goal.Asks s) :
    Accepts (rule r goal) s (goal.Answers s) := by
  cases goal with
  | expression => exact accepts_assignment h
  | conditional => exact accepts_conditional h
  | operation least => exact accepts_operation h least
  | unary => exact accepts_nested (accepts_unary h)
  | type =>
    exact accepts_nested (accepts_typeReference h nofun fun _ => rfl)
  | annotationUse => exact accepts_annotationUse h
  | block => exact accepts_block h
  | statement => exact accepts_nested (accepts_statement h)
  | typeDeclaration start cs ms annotations =>
    exact accepts_typeDeclaration h asks.1 asks.2.1 asks.2.2

omit h in
/-- Every rule of the grammar answers its goal. -/
theorem sound_grammar (steps more : Nat) : Sound ⟨more, grammar steps⟩ := by
  induction steps generalizing more with
  | zero => exact fun goal s _ => accepts_fail
  | succ steps ih => exact fun goal s asks => accepts_rule (ih steps) goal s asks

end Parser

namespace Arena

variable {a b : Arena} {file text : String} {entry : Parser.Rules → Parser NodeId}

/-- What is read from a text satisfies `P`, if a rule with sound rules below it makes sure of it. -/
theorem treeAt_of_readWith
    (h : ∀ r, Parser.Sound r → ∀ s, Parser.Accepts (entry r) s (Parser.giving P))
    (read : Parser.readWith entry a file text = (.ok id, b)) : b.TreeAt P id := by
  obtain ⟨ts, s, tokens, rfl, run⟩ := Parser.run_of_readWith read
  exact ((h _ (Parser.sound_grammar _ _) _ (genuine_of_tokenize tokens)).of_ok run).2.2

theorem isUnit_of_readUnit (read : a.readUnit file text = (.ok id, b)) : b.TreeAt (IsUnit Made) id :=
  treeAt_of_readWith (fun _ h _ => Parser.accepts_compilationUnit h) read

theorem treeAt_of_finish
    (h : ∀ r, Parser.Sound r → ∀ s, Parser.Accepts (entry r) s fun id s' => s'.arena.TreeAt P id)
    (read : Parser.readWith (fun r => do
      let id ← entry r
      Parser.finish
      return id) a file text = (.ok id, b)) : b.TreeAt P id := by
  refine treeAt_of_readWith (fun r sound s => ?_) read
  refine (h r sound s).bind fun id s1 _ tree => ?_
  unfold Parser.finish
  rw [bind_assoc, Parser.accepts_look]
  split
  · exact Parser.accepts_pure tree
  · exact Parser.accepts_unexpected.absurd

theorem isBlock_of_readBlock (read : a.readBlock text = (.ok id, b)) : b.TreeAt (IsStatement Made .body) id :=
  treeAt_of_finish (fun _ h _ => (Parser.accepts_block h).mono fun _ _ _ isBlock => isBlock.1) read

theorem isExpression_of_readExpression (read : a.readExpression text = (.ok id, b)) : b.TreeAt IsValue id :=
  treeAt_of_finish (fun _ h _ => Parser.accepts_expression h) read

end Arena

end JavaEdit
