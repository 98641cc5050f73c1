import JavaEdit.Proofs.Accepted.Expressions
import JavaEdit.Proofs.Arena.Copies

/-!
# Accepted annotations and statements
-/

namespace JavaEdit

open List

/-- An annotation may stand wherever a value may. -/
theorem IsNote.anywhere {ok : Page → Prop} {place : NoteSlot} {t : Page} (h : IsNote ok .use t) :
    IsNote ok place t := by
  cases h with
  | noted dotted arguments => exact .noted dotted arguments
  | expression notUse _ => exact absurd rfl notUse

namespace Parser

open Arena

variable {r : Rules} (h : Sound r)
include h
variable {a : Arena} {cs : List Comment} {s : ParserState}

/-! ## Modifiers and annotations -/

variable {annotations : List NodeId}

theorem accepts_modifiersFrom (steps : Nat) {found : Modifiers}
    (canonical : found.Canonical) (notes : s.arena.TreesAt (IsNote Made .use) annotations) :
    Accepts (modifiersFrom r steps found annotations) s fun result s' =>
      result.1.Canonical ∧ s'.arena.TreesAt (IsNote Made .use) result.2 := by
  induction steps generalizing found annotations s with
  | zero => exact accepts_fail
  | succ steps ih =>
    rw [modifiersFrom, accepts_look]
    split
    · rw [accepts_look]
      refine .unless accepts_refuse fun _ => ?_
      refine (h .annotationUse s trivial).bind fun _ _ kept isNote => ih canonical ?_
      exact (notes.extends kept.grown).append (.single isNote)
    · split
      · exact accepts_pure ⟨canonical, notes⟩
      · refine .unless accepts_fail fun _ => ?_
        exact accepts_advance (ih (Modifiers.canonical_ofPredicate _) notes)

theorem accepts_modifiers : Accepts (modifiers r) s fun result s' =>
      result.1.Canonical ∧ s'.arena.TreesAt (IsNote Made .use) result.2 :=
  accepts_modifiersFrom h _ rfl .nil

theorem accepts_elementValue : Accepts (elementValue r) s (giving (IsNote Made .value)) := by
  unfold elementValue
  rw [accepts_look]
  split
  · exact (h .annotationUse s trivial).mono fun _ _ _ isNote => TreeAt.mono isNote fun _ => IsNote.anywhere
  · rw [accepts_look]
    refine .unless accepts_refuse fun _ => ?_
    exact (accepts_expression h).mono fun _ _ _ isValue => isValue.mono fun _ => IsNote.expression nofun

omit h in
theorem IsNote.argument {ok : Page → Prop} {t : Page} (isValue : IsNote ok .value t) : IsNote ok .argument t := by
  cases isValue with
  | noted dotted arguments => exact .noted dotted arguments
  | expression _ isExpression => exact .expression nofun isExpression

theorem accepts_annotationArgument : Accepts (annotationArgument r) s (giving (IsNote Made .argument)) := by
  unfold annotationArgument
  simp only [accepts_look]
  split
  · refine accepts_identifier fun key known => ?_
    have target : Accepts (make s.token (.name key)) s.advanced
        (giving (· = .node [] (.name key))) := accepts_make (List.forall_mem_nil _) rfl
    refine target.bind fun target _ _ isKey => accepts_expect ?_
    refine (accepts_elementValue h).bind fun _ _ kept isValue => ?_
    have key2 := isKey.extends kept.grown
    refine accepts_make (by simpa [Kind.children] using ⟨key2.1, isValue.1⟩) ?_
    rw [Kind.map, key2.2]
    exact .keyed known isValue.2
  · exact (accepts_elementValue h).mono fun _ _ _ isValue => isValue.mono fun _ => IsNote.argument

theorem accepts_annotationUse : Accepts (annotationUse r) s (giving (IsNote Made .use)) := by
  unfold annotationUse
  rw [accepts_look]
  refine accepts_expect ((accepts_qualifiedName _).bind fun _ _ _ dotted => ?_)
  refine accepts_eat (fun _ => ?_) fun _ => accepts_make nofun (.noted dotted nofun)
  refine Accepts.either (givingAll (IsNote Made .argument))
    (fun _ => accepts_pure .nil) (fun _ => ?_) fun _ _ _ values => accepts_expect ?_
  · exact (accepts_separated (fun _ => accepts_annotationArgument h) _).mono fun _ _ _ result => result.2
  · exact accepts_make (by simpa [Kind.children] using values.rooted) (.noted dotted values.each)

/-! ## Local variables -/

/-- Names with the trees of their initializers. -/
def Declared (a : Arena) (names : List (String × Option NodeId)) : Prop :=
  ∀ d ∈ names, isIdentifier d.1 = true ∧ a.TreesAt IsValue d.2.toList

variable {names : List (String × Option NodeId)}

omit h in
theorem Declared.extends {b : Arena}
    (declared : Declared a names) (grown : Extends a b) : Declared b names :=
  fun d mem => ⟨(declared d mem).1, (declared d mem).2.extends grown⟩

/-- An optional value. -/
theorem accepts_someExpression : Accepts (some <$> expression r) s (givingSome IsValue) :=
  (accepts_expression h).map fun _ _ _ isValue => .single isValue

theorem accepts_declarators (steps : Nat) {name : String} (known : isIdentifier name) :
    Accepts (declarators r steps name) s fun names s' => names ≠ [] ∧ Declared s'.arena names := by
  induction steps generalizing name s with
  | zero => exact accepts_fail
  | succ steps ih =>
    refine .unless accepts_refuse fun _ => ?_
    have more : ∀ (value : Option NodeId) (s1 : ParserState),
        s1.arena.TreesAt IsValue value.toList →
        Accepts (do
          if ← eat "," then
            let next ← identifier
            return (name, value) :: (← declarators r steps next)
          else return [(name, value)]) s1 fun names s' => names ≠ [] ∧ Declared s'.arena names := by
      intro value s1 isValue
      refine accepts_eat (fun _ => accepts_identifier fun next known' => ?_) fun _ => ?_
      · refine (ih known').bind fun names s2 kept ⟨_, others⟩ => accepts_pure ⟨by simp, ?_⟩
        exact forall_mem_cons.mpr ⟨⟨known, isValue.extends kept.grown⟩, others⟩
      · exact accepts_pure ⟨by simp, forall_mem_singleton.mpr ⟨known, isValue⟩⟩
    refine accepts_eat (fun _ => ?_) fun _ => ?_
    · rw [accepts_look]
      split
      · exact accepts_refuse.absurd
      · exact (accepts_someExpression h).bind fun value s1 _ isValue => more value s1 isValue
    · rw [pure_bind]
      exact more none s .nil

omit h in
theorem accepts_copy (id : NodeId) : Accepts (copy id) s (giving (· = s.arena.commented id)) := by
  intro genuine
  rw [ends_copy]
  have planted := planted_plant (s.arena.commented id) s.arena
  refine ⟨genuine, ⟨rfl, rfl, planted.grown⟩, planted.shown.1 _ (by simp [Arena.copy]), ?_⟩
  have same := planted.shown.2
  simp only [map_cons, map_nil, List.cons.injEq, and_true] at same
  exact same

omit h in
theorem written_nil : ∀ c ∈ ([] : List Comment), c.IsWritten := nofun

omit h in
theorem accepts_makeLocals (start : Token) (ms : Modifiers) {declared : NodeId} {type : Page}
    (written : ∀ c ∈ cs, c.IsWritten) (isFirst : Bool)
    (isType : s.arena.TreeAt (· = type) declared) (known : Declared s.arena names) :
    Accepts (makeLocals start ms declared cs isFirst names) s fun ids s' =>
      (names ≠ [] → ids ≠ []) ∧ s'.arena.TreesAt
        (fun t => IsVariable Made ms type t ∧ Made t ∧ (cs = [] → t.label = [])) ids := by
  induction names generalizing cs isFirst s with
  | nil => exact accepts_pure ⟨fun some => absurd rfl some, .nil⟩
  | cons d names ih =>
    obtain ⟨name, value⟩ := d
    have rest : ∀ (own : NodeId) (s1 : ParserState), Kept s s1 → s1.arena.TreeAt (· = type) own →
        Accepts (do
          let id ← makeCommented start (.localVariable name ms own value) cs
          return id :: (← makeLocals start ms declared [] false names)) s1 fun ids s' =>
          ((name, value) :: names ≠ [] → ids ≠ []) ∧ s'.arena.TreesAt
            (fun t => IsVariable Made ms type t ∧ Made t ∧ (cs = [] → t.label = [])) ids := by
      intro own s1 kept1 isOwn
      obtain ⟨isName, isValue⟩ := (known.extends kept1.grown) _ (.head _)
      have made : Accepts (makeCommented start (.localVariable name ms own value) cs) s1
          (giving fun t => IsVariable Made ms type t ∧ Made t ∧ (cs = [] → t.label = [])) := by
        refine accepts_commented ?_ ?_
        · exact forall_mem_cons.mpr ⟨isOwn.1, isValue.rooted⟩
        · rw [Kind.map, isOwn.2]
          exact ⟨.node isName isValue.optional, ⟨written, trivial⟩, fun none => none⟩
      refine made.bind fun id s2 kept2 isVariable => ?_
      have grown := (kept1.trans kept2).grown
      have known2 : Declared s2.arena names := fun d mem =>
        known.extends grown d (.tail _ mem)
      refine (ih written_nil false (isType.extends grown) known2).bind
        fun ids s3 kept3 ⟨_, isOther⟩ => accepts_pure ⟨fun _ => by simp, ?_⟩
      refine .cons (isVariable.extends kept3.grown) (isOther.mono fun t fits => ?_)
      exact ⟨fits.1, fits.2.1, fun _ => fits.2.2 rfl⟩
    refine Accepts.either (giving (· = type)) (fun _ => accepts_pure isType) (fun _ => ?_) rest
    exact (accepts_copy declared).mono fun id s' _ same => isType.2 ▸ same

omit h in
theorem isLocal_of_canonical {ms : Modifiers} (canonical : ms.Canonical)
    (only : ms.any (· != .final) = false) : ms.IsLocal := by
  have same : ms = Modifiers.ofPredicate fun m => m == .final && ms.contains .final := by
    refine canonical.symm.trans (filter_congr fun m _ => ?_)
    by_cases isFinal : m = .final
    · rw [isFinal, beq_self_eq_true, Bool.true_and]
    · rw [beq_false_of_ne isFinal, Bool.false_and, Bool.eq_false_iff]
      intro found
      rw [any_eq_false] at only
      exact only m (by simpa using found) (by simpa using isFinal)
  rw [same]
  cases ms.contains .final
  · exact .inl rfl
  · exact .inr rfl

theorem accepts_localVariables (start : Token) (written : ∀ c ∈ cs, c.IsWritten) :
    Accepts (localVariables r start cs) s fun ids s' => ids ≠ [] ∧ ∃ ms type, ms.IsLocal ∧
      IsType .plain type ∧ s'.arena.TreesAt
        (fun t => IsVariable Made ms type t ∧ Made t ∧ (cs = [] → t.label = [])) ids := by
  refine (accepts_modifiers h).bind fun (ms, annotations) s1 _ ⟨canonical, _⟩ => ?_
  refine .unless accepts_refuse fun _ => ?_
  refine .unless accepts_fail fun only => ?_
  refine (accepts_type h).bind fun declared s2 _ isType => ?_
  refine accepts_identifier fun _ known => ?_
  refine (accepts_declarators h _ known).bind fun names s3 kept ⟨several, isNames⟩ => ?_
  have type3 : s3.arena.TreeAt (· = s2.arena.commented declared) declared := TreeAt.extends ⟨isType.1, rfl⟩ kept.grown
  refine (accepts_makeLocals start ms written true type3 isNames).mono
    fun ids s4 _ ⟨nonempty, locals⟩ => ⟨nonempty several, ms, _, ?_, isType.2, locals⟩
  exact isLocal_of_canonical canonical (by simpa using only)

/-! ## Blocks -/

theorem accepts_blockStatement : Accepts (blockStatement r) s (givingAll (IsStatement Made .inBlock)) := by
  unfold blockStatement
  refine .unless accepts_refuse fun _ => ?_
  rw [accepts_look]
  split
  · refine accepts_takeComments fun cs written => ?_
    rw [accepts_look]
    refine (accepts_localVariables h _ written).bind
      fun ids s1 _ ⟨_, ms, type, isLocal, isType, locals⟩ => accepts_expect (accepts_pure ?_)
    refine locals.mono fun t fits => ?_
    exact .localVariable isLocal isType fits.1 fits.2.1
  · refine (h .statement s trivial).bind fun id s1 _ isStatement => accepts_pure (.single ?_)
    exact isStatement.1.mono fun _ => IsStatement.inBlock

theorem accepts_blockStatements (steps : Nat) :
    Accepts (blockStatements r steps) s (givingAll (IsStatement Made .inBlock)) := by
  induction steps generalizing s with
  | zero => exact accepts_fail
  | succ steps ih =>
    rw [blockStatements, accepts_look]
    split
    · exact accepts_pure .nil
    · rw [accepts_look]
      refine .unless accepts_unexpected fun _ => ?_
      refine (accepts_blockStatement h).bind fun _ s1 _ isFirst => ?_
      refine ih.bind fun _ _ kept isOther => accepts_pure ?_
      exact (isFirst.extends kept.grown).append isOther

theorem accepts_block : Accepts (block r) s fun id s' =>
      s'.arena.TreeAt (IsStatement Made .body) id ∧ s.arena.size ≤ id := by
  unfold block
  refine accepts_expect ((accepts_blockStatements h _).bind fun _ _ kept statements => ?_)
  refine accepts_advance ?_
  refine (accepts_makeCommented (P := IsStatement Made .body) ?_ ?_).mono fun id s2 _ made => ⟨made.1, ?_⟩
  · simpa [Kind.children] using statements.rooted
  · exact .block (by simp) (fun _ => rfl) statements.each (made_bare trivial)
  · exact Nat.le_trans kept.grown.size_le made.2.1

/-! ## Statements -/

/-- The payload of a statement whose comments are not known yet, in front of the next token. -/
structure Headed (s : ParserState) (kind : Kind NodeId) : Prop where
  rooted : ∀ c ∈ kind.children, Rooted s.arena c
  form : ∀ cs : List Comment, (∀ c ∈ cs, c.IsWritten) →
    IsStatement Made .branch (.node cs (kind.map s.arena.commented))
  closed : ∀ cs, Layout.endsWithOpenIf (.node cs (kind.map s.arena.commented)) = true →
    s.token.is "else" = false

omit h in
theorem headed {kind : Kind NodeId} (rooted : ∀ c ∈ kind.children, Rooted s.arena c)
    (form : ∀ cs : List Comment, (∀ c ∈ cs, c.IsWritten) →
      IsStatement Made .branch (.node cs (kind.map s.arena.commented)))
    (closed : (kind.map s.arena.commented).endsWithOpenIf → s.token.is "else" = false) : Headed s kind :=
  ⟨rooted, form, fun cs isOpen => closed (endsWithOpenIf_node cs _ ▸ isOpen)⟩

omit h in
theorem headed_shut {kind : Kind NodeId} (rooted : ∀ c ∈ kind.children, Rooted s.arena c)
    (form : ∀ cs : List Comment, (∀ c ∈ cs, c.IsWritten) →
      IsStatement Made .branch (.node cs (kind.map s.arena.commented)))
    (shut : (kind.map s.arena.commented).endsWithOpenIf = false) : Headed s kind :=
  headed rooted form fun isOpen => absurd (shut.symm.trans isOpen) Bool.false_ne_true

def startsType (t : Token) : Prop := t.isPrimitive = true ∨ t.kind = .identifier

omit h in
theorem startsType_of_scanType {ts : List Token} {k : Nat} (scanned : scanType ts = some k) :
    startsType (tokenAt ts 0) := by
  by_contra other
  simp only [startsType, not_or, Bool.not_eq_true] at other
  simp [scanType, other.1, other.2] at scanned

omit h in
theorem startsType.is_eq_false {t : Token} {w : String} (starts : startsType t) (other : w ∉ Token.primitives) :
    t.is w = false := by
  rcases starts with primitive | name
  · rw [Bool.eq_false_iff]
    intro is
    unfold Token.isPrimitive at primitive
    rw [Bool.and_eq_true, (Token.is_iff.mp is).2] at primitive
    exact other (contains_iff_mem.mp primitive.2)
  · exact Token.is_of_identifier name w

omit h in
theorem ofKeyword?_of_startsType {t : Token} (starts : startsType t) (isKeyword : t.kind = .keyword) :
    Modifier.ofKeyword? t.text = none := by
  rcases starts with isPrimitive | isName
  · simp only [Token.isPrimitive, Bool.and_eq_true, contains_eq_mem, decide_eq_true_eq] at isPrimitive
    have apart : ∀ word ∈ Token.primitives, Modifier.ofKeyword? word = none := by decide
    exact apart _ isPrimitive.2
  · rw [isKeyword] at isName
    cases isName

omit h in
theorem accepts_finalModifiers (steps : Nat) {found : Modifiers} (isLocal : found.IsLocal)
    (ahead : startsType (tokenAt (s.rest.dropWhile fun t => t.is "final") 0)) :
    Accepts (modifiersFrom r steps found annotations) s fun result _ => result.1.IsLocal := by
  induction steps generalizing found annotations s with
  | zero => exact accepts_fail
  | succ steps ih =>
    have next : s.token.is "final" = false → startsType s.token := by
      intro other
      unfold ParserState.token tokenAt at *
      cases tokens : s.rest with
      | nil => rw [tokens] at ahead; exact ahead
      | cons t ts =>
        rw [tokens] at ahead other
        rw [dropWhile_cons_of_neg (by simpa using other)] at ahead
        exact ahead
    rw [modifiersFrom, accepts_look]
    split
    · rename_i isAt
      -- the sign in front of an annotation starts no type
      have starts := next (Token.is_eq_false isAt (by decide))
      rw [starts.is_eq_false (by decide)] at isAt
      cases isAt
    · split
      · exact accepts_pure isLocal
      · rename_i m isModifier
        refine .unless accepts_fail fun new => ?_
        split at isModifier
        · rename_i isKeyword
          cases isFinal : s.token.is "final" with
          | false =>
            rw [ofKeyword?_of_startsType (next isFinal) (beq_iff_eq.mp isKeyword)] at isModifier
            cases isModifier
          | true =>
            have isFinalModifier : m = .final := by
              rw [(Token.is_iff.mp isFinal).2, show Modifier.ofKeyword? "final" = some .final from rfl] at isModifier
              exact (Option.some.inj isModifier).symm
            subst isFinalModifier
            refine accepts_advance (ih ?_ ?_)
            · rcases isLocal with rfl | rfl
              · exact .inr rfl
              · exact absurd rfl new
            · unfold ParserState.token tokenAt at isFinal
              unfold ParserState.advanced
              split
              · rename_i tokens
                rw [tokens] at ahead isFinal
                rwa [dropWhile_cons_of_pos (by simpa using isFinal)] at ahead
              · exact ahead
        · cases isModifier

omit h in
theorem accepts_modifiers_forEach (ahead : forEachAhead s.rest) :
    Accepts (modifiers r) s fun result _ => result.1.IsLocal := by
  refine accepts_finalModifiers _ (.inl rfl) ?_
  unfold forEachAhead at ahead
  dsimp only at ahead
  split at ahead
  · exact startsType_of_scanType ‹_›
  · cases ahead

theorem accepts_forEach (ahead : forEachAhead s.rest) : Accepts (forEach r) s fun kind s' => Headed s' kind := by
  unfold forEach
  rw [accepts_look]
  refine (accepts_modifiers_forEach ahead).bind ?_
  rintro ⟨ms, _⟩ s1 - isLocal
  refine (accepts_type h).bind fun declared s2 _ isType => accepts_identifier fun name known => ?_
  have element : Accepts (make s.token (.localVariable name ms declared none)) s2.advanced
      (giving (· = .node [] (.localVariable name ms (s2.arena.commented declared) none))) :=
    accepts_make (by simpa [Kind.children] using isType.1) rfl
  refine element.bind fun element _ _ isElement => accepts_expect ?_
  refine (accepts_expression h).bind fun _ _ k4 isIterable => accepts_expect ?_
  refine (h .statement _ trivial).bind ?_
  rintro body s5 k5 ⟨isBody, open_⟩
  refine accepts_pure ?_
  have iterable5 := isIterable.extends k5.grown
  have element5 := isElement.extends (k4.grown.trans k5.grown)
  refine headed ?_ (fun cs written => ?_) open_
  · simpa [Kind.children] using ⟨element5.1, iterable5.1, isBody.1⟩
  · rw [Kind.map, element5.2]
    exact .forEach rfl known isLocal isType.2 iterable5.2 isBody.2 ⟨written, trivial⟩

theorem accepts_expressionItem : Accepts (expressionItem r) s (giving (IsItem Made)) := by
  unfold expressionItem
  refine (accepts_expression h).bind fun _ _ _ isValue => ?_
  exact accepts_make (by simpa [Kind.children] using isValue.1) (.node isValue.2)

/-- Several trees of which something is known as a whole. -/
def TreesAre (a : Arena) (P : List Page → Prop) (ids : List NodeId) : Prop :=
  (∀ id ∈ ids, Rooted a id) ∧ P (ids.map a.commented)

theorem accepts_forInit : Accepts (forInit r) s fun ids s' => TreesAre s'.arena (AreInitial Made) ids := by
  unfold forInit
  rw [accepts_look]
  split
  · exact accepts_pure ⟨nofun, .nothing⟩
  · rw [accepts_look]
    split
    · rw [accepts_look]
      refine (accepts_localVariables h _ written_nil).mono
        fun ids s1 _ ⟨several, ms, type, isLocal, isType, locals⟩ => ⟨locals.rooted, ?_⟩
      refine .locals (by simpa using several) isLocal isType fun t mem => ?_
      exact ⟨(locals.each t mem).1, (locals.each t mem).2.2 rfl⟩
    · refine (accepts_separated (fun _ => accepts_expressionItem h) _).mono fun ids s1 _ ⟨several, items⟩ => ⟨items.rooted, ?_⟩
      exact .expressions (by simpa using several) items.each

omit h in
theorem TreesAre.extends {b : Arena} {P : List Page → Prop} {ids : List NodeId}
    (trees : TreesAre a P ids) (grown : Extends a b) : TreesAre b P ids := by
  refine ⟨fun id mem => ((trees.1 id mem).extends grown).1, ?_⟩
  rw [map_congr_left fun id mem => ((trees.1 id mem).extends grown).2]
  exact trees.2

theorem accepts_forStatement : Accepts (forStatement r) s fun kind s' => Headed s' kind := by
  refine accepts_expect ?_
  rw [accepts_look]
  split
  · rename_i ahead
    exact accepts_forEach h ahead
  · refine (accepts_forInit h).bind fun _ _ _ isInit => accepts_expect ?_
    rw [accepts_look]
    refine Accepts.either (givingSome IsValue)
      (fun _ => accepts_pure .nil) (fun _ => accepts_someExpression h) fun _ _ k2 isCondition => accepts_expect ?_
    refine Accepts.either (givingAll IsValue)
      (fun _ => accepts_pure .nil) (fun _ => ?_) fun _ _ k3 isUpdate => accepts_expect ?_
    · exact (accepts_separated (fun _ => accepts_expression h) _).mono fun _ _ _ result => result.2
    · refine (h .statement _ trivial).bind fun body s4 k4 ⟨isBody, open_⟩ => accepts_pure ?_
      have condition4 := isCondition.extends (k3.grown.trans k4.grown)
      have init4 := isInit.extends (k2.grown.trans (k3.grown.trans k4.grown))
      have update4 := isUpdate.extends k4.grown
      refine headed ?_ (fun cs written => ?_) open_
      · simp only [Kind.children, forall_mem_append, forall_mem_singleton]
        exact ⟨⟨⟨init4.1, condition4.rooted⟩, update4.rooted⟩, isBody.1⟩
      · exact .forLoop rfl init4.2 condition4.optional update4.each isBody.2 ⟨written, trivial⟩

theorem accepts_catchClause : Accepts (catchClause r) s (giving (IsStatement Made .handler)) := by
  unfold catchClause
  rw [accepts_look]
  refine accepts_expect (accepts_expect ?_)
  refine (accepts_modifiers h).bind fun (ms, annotations) s1 _ ⟨canonical, _⟩ => ?_
  refine .unless accepts_refuse fun _ => ?_
  refine (accepts_separated (fun _ => accepts_type h) _).bind fun types s2 _ ⟨several, isType⟩ => ?_
  refine accepts_identifier fun _ known => accepts_expect ?_
  refine (h .block _ trivial).bind fun body s3 kept ⟨isBody, _⟩ => ?_
  have types3 := isType.extends kept.grown
  refine accepts_make ?_ ?_
  · simp only [Kind.children, forall_mem_append, forall_mem_singleton]
    exact ⟨types3.rooted, isBody.1⟩
  · exact .catchClause known canonical (by simpa using several) types3.each isBody.2 (made_bare trivial)

theorem accepts_catchClauses (steps : Nat) :
    Accepts (catchClauses r steps) s (givingAll (IsStatement Made .handler)) := by
  induction steps generalizing s with
  | zero => exact accepts_fail
  | succ steps ih =>
    rw [catchClauses, accepts_look]
    split
    · refine (accepts_catchClause h).bind fun _ s1 _ isFirst => ?_
      refine ih.bind fun _ _ kept isOther => accepts_pure ?_
      exact .cons (isFirst.extends kept.grown) isOther
    · exact accepts_pure .nil

theorem accepts_someBlock : Accepts (some <$> r.parse .block) s (givingSome (IsStatement Made .body)) :=
  (h .block s trivial).map fun _ _ _ isBody => .single isBody.1

theorem accepts_tryStatement : Accepts (tryStatement r) s fun kind s' => Headed s' kind := by
  unfold tryStatement
  refine .unless accepts_refuse fun _ => ?_
  refine (h .block s trivial).bind fun body s1 _ ⟨isBody, _⟩ => ?_
  refine (accepts_catchClauses h _).bind fun _ _ k2 isHandler => ?_
  refine Accepts.eatEither (givingSome (IsStatement Made .body)) (accepts_someBlock h) (accepts_pure .nil)
    fun _ _ k3 isFinalizer => ?_
  refine .unless accepts_unexpected fun some => ?_
  have body3 := isBody.extends (k2.grown.trans k3)
  have handlers3 := isHandler.extends k3
  refine accepts_pure (headed_shut ?_ (fun cs written => ?_) rfl)
  · simp only [Kind.children, forall_mem_append, forall_mem_cons]
    exact ⟨⟨body3.1, handlers3.rooted⟩, isFinalizer.rooted⟩
  · refine .tryStmt rfl body3.2 handlers3.each isFinalizer.optional ?_ ⟨written, trivial⟩
    intro empty none
    rw [map_eq_nil_iff] at empty
    rw [Option.map_eq_none_iff] at none
    exact some (by rw [empty, none]; rfl)

omit h in
theorem TreeAt.isEffect {P : Page → Prop} {id : NodeId} (tree : a.TreeAt P id)
    (effect : isStatementExpression (a.kind id)) : (a.commented id).kind.isEffect := by
  rw [tree.1.commented_eq]
  cases kind : a.kind id <;> rw [kind] at effect <;> exact effect

theorem accepts_expressionStatement (start : Token) :
    Accepts (expressionStatement r start) s fun kind s' => Headed s' kind := by
  refine (accepts_expression h).bind fun _ _ _ isValue => ?_
  refine .unless accepts_failAt fun effect => ?_
  refine accepts_expect (accepts_pure ?_)
  have isEffect := TreeAt.isEffect isValue (by simpa using effect)
  refine headed_shut ?_ (fun cs written => .expression rfl isValue.2 isEffect ⟨written, trivial⟩) rfl
  simpa [Kind.children] using isValue.1

omit h in
theorem accepts_jumpLabel : Accepts jumpLabel s fun label _ => ∀ n ∈ label, isIdentifier n := by
  unfold jumpLabel
  rw [accepts_look]
  split
  · rename_i isName
    refine .genuinely fun genuine => accepts_advance ?_
    refine accepts_expect (accepts_pure ?_)
    rintro n ⟨⟩
    exact genuine.token.identifier (beq_iff_eq.mp isName)
  · rw [pure_bind]
    exact accepts_expect (accepts_pure nofun)

theorem accepts_ifStatement : Accepts (do
      let condition ← parenthesized r
      let thenBranch ← r.parse .statement
      let elseBranch ← if ← eat "else" then some <$> r.parse .statement else pure none
      return .ifElse condition thenBranch elseBranch) s fun kind s' => Headed s' kind := by
  refine (accepts_parenthesized h).bind fun condition s1 _ isCondition => ?_
  refine (h .statement _ trivial).bind fun thenBranch s2 k2 ⟨isThen, open_⟩ => ?_
  have condition2 := isCondition.extends k2.grown
  refine accepts_eat (fun isElse => ?_) fun noElse => ?_
  · -- an `if` at the end of the branch would have taken the `else`
    have closed : Layout.endsWithOpenIf (s2.arena.commented thenBranch) = false := by
      rw [Bool.eq_false_iff]
      exact fun isOpen => absurd (open_ isOpen) (by rw [isElse]; decide)
    have parsed : Accepts (some <$> r.parse .statement) s2.advanced fun branch s' =>
        ∃ last, branch = some last ∧ s'.arena.TreeAt (IsStatement Made .branch) last ∧
          (Layout.endsWithOpenIf (s'.arena.commented last) → s'.token.is "else" = false) :=
      (h .statement _ trivial).map fun last _ _ isElse => ⟨last, rfl, isElse⟩
    refine parsed.bind fun _ s3 k3 ⟨last, same, isLast, openLast⟩ => accepts_pure ?_
    subst same
    have condition3 := condition2.extends k3.grown
    have then3 := isThen.extends k3.grown
    rw [← (isThen.1.extends k3.grown).2] at closed
    refine headed ?_ (fun cs written => .ifElse rfl condition3.2 then3.2 isLast.2 ⟨written, closed⟩) openLast
    simpa [Kind.children] using ⟨condition3.1, then3.1, isLast.1⟩
  · rw [pure_bind]
    refine accepts_pure ⟨?_, fun cs written => .ifThen rfl condition2.2 isThen.2 ⟨written, trivial⟩, fun cs _ => noElse⟩
    simpa [Kind.children] using ⟨condition2.1, isThen.1⟩

theorem accepts_statementKind (start : Token) : Accepts (statementKind r start) s fun kind s' => Headed s' kind := by
  refine accepts_eat (fun _ => accepts_pure ?_) fun _ => ?_
  · exact headed_shut (by simp [Kind.children]) (fun cs written => .empty rfl ⟨written, trivial⟩) rfl
  refine accepts_eat (fun _ => accepts_ifStatement h) fun _ => ?_
  refine accepts_eat (fun _ => ?_) fun _ => accepts_eat (fun _ => ?_) fun _ => ?_
  · refine (accepts_parenthesized h).bind fun condition s1 _ isCondition => ?_
    refine (h .statement _ trivial).bind ?_
    rintro body s2 k2 ⟨isBody, open_⟩
    refine accepts_pure ?_
    have condition2 := isCondition.extends k2.grown
    refine headed ?_ (fun cs written => .whileLoop rfl condition2.2 isBody.2 ⟨written, trivial⟩) open_
    simpa [Kind.children] using ⟨condition2.1, isBody.1⟩
  · refine (h .statement _ trivial).bind fun body s1 _ isBody => accepts_expect ?_
    refine (accepts_parenthesized h).bind fun condition s2 k2 isCondition => accepts_expect ?_
    have body2 := isBody.1.extends k2.grown
    refine accepts_pure (headed_shut ?_ (fun cs written => .doWhile rfl body2.2 isCondition.2 ⟨written, trivial⟩) rfl)
    simpa [Kind.children] using ⟨body2.1, isCondition.1⟩
  refine accepts_eat (fun _ => accepts_forStatement h) fun _ => ?_
  refine accepts_eat (fun _ => ?_) fun _ => accepts_eat (fun _ => ?_) fun _ => ?_
  · rw [accepts_look]
    refine Accepts.either (givingSome IsValue)
      (fun _ => accepts_pure .nil) (fun _ => accepts_someExpression h)
      fun value s1 _ isValue => accepts_expect (accepts_pure ?_)
    refine headed_shut ?_ (fun cs written => .returnStmt rfl isValue.optional ⟨written, trivial⟩) rfl
    simpa [Kind.children] using isValue.rooted
  · refine (accepts_expression h).bind fun value s1 _ isValue => accepts_expect (accepts_pure ?_)
    refine headed_shut ?_ (fun cs written => .throwStmt rfl isValue.2 ⟨written, trivial⟩) rfl
    simpa [Kind.children] using isValue.1
  refine accepts_eat (fun _ => ?_) fun _ => accepts_eat (fun _ => ?_) fun _ => ?_
  · refine accepts_jumpLabel.bind fun label s1 _ known => accepts_pure ?_
    exact headed_shut (by simp [Kind.children]) (fun cs written => .breakStmt rfl known ⟨written, trivial⟩) rfl
  · refine accepts_jumpLabel.bind fun label s1 _ known => accepts_pure ?_
    exact headed_shut (by simp [Kind.children]) (fun cs written => .continueStmt rfl known ⟨written, trivial⟩) rfl
  exact accepts_eat (fun _ => accepts_tryStatement h) fun _ => accepts_expressionStatement h _

omit h in
/-- A block gets its comments once it has been read. -/
theorem treeAt_attached {id : NodeId}
    (written : ∀ c ∈ cs, c.IsWritten) (isBody : a.TreeAt (IsStatement Made .body) id) :
    let b := cs.foldl (fun a c => a.addComment id c) a
    b.TreeAt (IsStatement Made .branch) id ∧ Layout.endsWithOpenIf (b.commented id) = false := by
  intro b
  obtain ⟨rooted, form⟩ := isBody
  obtain ⟨there, shown⟩ := rooted.attached cs
  rw [rooted.commented_eq] at form
  unfold TreeAt
  rw [shown]
  generalize (a.kind id).map a.commented = k at form ⊢
  cases form with
  | block _ bare statements made =>
    rw [bare rfl, nil_append]
    exact ⟨⟨there, .block nofun nofun statements ⟨written, trivial⟩⟩, endsWithOpenIf_node _ _⟩
  | _ => contradiction

theorem accepts_statement : Accepts (statement r) s fun id s' => s'.arena.TreeAt (IsStatement Made .branch) id ∧
      (Layout.endsWithOpenIf (s'.arena.commented id) → s'.token.is "else" = false) := by
  refine accepts_takeComments fun cs written => ?_
  generalize s.uncommented = s0
  rw [accepts_look, accepts_look]
  split
  · intro genuine
    rw [ends_bind]
    refine (h .block s0 trivial genuine).imp fun id s1 ⟨genuine1, kept, isBody, fresh⟩ => ?_
    obtain ⟨isBlock, closed⟩ := treeAt_attached written isBody
    refine ⟨genuine1, ⟨kept.depth_eq, kept.typeNames_eq, kept.grown.attached fresh cs⟩, isBlock, ?_⟩
    · intro isOpen
      exact absurd isOpen (by rw [closed]; decide)
  · rw [accepts_look]
    split
    · exact accepts_refuse
    refine .unless accepts_refuse fun _ => ?_
    refine .unless accepts_refuse fun _ => ?_
    refine .unless accepts_refuse fun _ => ?_
    refine (accepts_statementKind h _).bind fun kind s1 _ headed => ?_
    refine (accepts_makeCommented (P := fun t => IsStatement Made .branch t ∧
      t = .node cs (kind.map s1.arena.commented)) headed.rooted
      ⟨headed.form cs written, rfl⟩).mono fun id s2 _ ⟨tree, _, rest⟩ => ?_
    refine ⟨tree.mono fun _ => And.left, fun isOpen => ?_⟩
    rw [tree.2.2] at isOpen
    rw [ParserState.token, rest]
    exact headed.closed cs isOpen

end Parser

end JavaEdit
