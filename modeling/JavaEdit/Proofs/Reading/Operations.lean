import JavaEdit.Proofs.Reading.Expressions

/-!
# Reading operations

Suffixes behind a primary expression, operators between and in front of operands, casts,
assignments and the conditional operator: each is read at the level at which it binds, once its
parts are. `reads_expression` puts the lemmas together by induction over the expressions of the
grammar, so the words of every expression whose nodes are `Clear` are read as that expression.
-/

namespace JavaEdit.Parser

open Layout List Kind Nat
open ParserState (firstWord)

variable {follow : Token → Prop} {n : String} {op : UnaryOperator} {t : Page} {ws : List Token}

/-! ## Suffixes -/

/-- A primary expression with one more suffix, from what the loop over suffixes does with it. -/
theorem ReadsSpine.suffix {follow' : Token → Prop} {more : List Token} {u : Page}
    (h : ReadsSpine follow ws t) (opens : ∀ rest, follow (firstWord (more ++ rest)))
    (step : ∀ m s start rest k id, s.At (more ++ rest) → follow' (firstWord rest) → s.arena.Shows id t → ∀ out, (∀ s' id', Kept s s' → s'.At rest → s'.arena.Shows id' u →
        Goes (suffixes ⟨m, grammar m⟩ start k id') s' out) → Goes (suffixes ⟨m, grammar m⟩ start (k + 1) id) s out) :
    ReadsSpine follow' (ws ++ more) u where
  notLeading rest := by
    rw [append_assoc]
    exact h.notLeading (more ++ rest)
  notCast rest := by
    rw [append_assoc]
    exact h.notCast (more ++ rest)
  goes m s start rest out ahead next goesOn := by
    rw [append_assoc] at ahead
    refine h.goes ahead (opens rest) fun s1 id k kept1 ahead1 shown => ?_
    obtain _ | k := k
    · exact goes_outOfSteps
    refine step m s1 start rest k id ahead1 next shown out fun s2 id' kept2 ahead2 shown' => ?_
    exact goesOn s2 id' k (kept1.trans kept2) ahead2 shown'

/-- A name behind a point, and the arguments of a call. -/
theorem reads_member {more : List Token} {u : Page} (h : ReadsSpine (· = sign ".") ws t) (isName : isIdentifier n)
    (made : ∀ m s start rest id, s.At (more ++ rest) → follow (firstWord rest) → s.arena.Shows id t → Reads (if (firstWord (more ++ rest)).is "(" then
          arguments ⟨m, grammar m⟩ >>= fun values => make start (.invocation (some id) n values)
        else make start (.fieldAccess id n)) s rest fun a id => a.Shows id u) :
    ReadsSpine follow (ws ++ sign "." :: nameWord n :: more) u := by
  refine h.suffix (fun _ => rfl) fun m s start rest k id ahead next shown out goesOn => ?_
  refine goes_eat ahead rfl fun s1 kept1 ahead1 => ?_
  have other : ∀ text, s1.token.is text = false := fun text => by
    rw [ahead1.is]
    exact is_nameWord isName text
  unfold memberAccess
  rw [if_pos rfl, bind_assoc, goes_look, other, if_neg (by simp), bind_assoc, goes_look, if_neg (by simp [other]),
    bind_assoc]
  refine goes_identifier ahead1 (kind_nameWord_of_isIdentifier isName) fun s2 kept2 ahead2 => ?_
  rw [bind_assoc, goes_look, ahead2.is, text_nameWord]
  have shown := shown.extends (kept1.trans kept2).grown
  refine Reads.bind (made m s2 start rest id ahead2 next shown) fun id' s3 kept3 ahead3 shown' => ?_
  exact goesOn s3 id' (kept1.trans (kept2.trans kept3)) ahead3 shown'

theorem reads_access (h : ReadsSpine (· = sign ".") ws t) (isName : isIdentifier n) {level : Nat} :
    ReadsSpine (Closes level) (ws ++ [sign ".", nameWord n]) (.node [] (.fieldAccess t n)) := by
  refine reads_member h isName fun m s _ rest id ahead closes shown => ?_
  rw [nil_append, closes.other "(" (by simp), if_neg (by simp)]
  refine reads_make ahead (by simpa [children] using shown.1) ?_
  exact congrArg (fieldAccess · n) shown.2

theorem reads_call (h : ReadsSpine (· = sign ".") ws t)
    (isName : isIdentifier n) {ts : List Page} (readable : Readable ts) :
    ReadsSpine follow (ws ++ sign "." :: nameWord n :: argumentWords (ts.map phrase))
      (.node [] (.invocation (some t) n ts)) := by
  refine reads_member h isName fun m s _ rest id ahead _ shown => ?_
  refine Reads.bind (reads_arguments readable ahead) fun _ _ kept1 ahead1 shownAll => ?_
  have shown := shown.extends kept1.grown
  refine reads_make ahead1 (by simpa [children] using ⟨shown.1, shownAll.1⟩) ?_
  exact congr (congrArg (fun t ts => invocation (some t) n ts) shown.2) shownAll.2

theorem reads_index (h : ReadsAs 15 ws t) {u : Page} (index : ReadsAs 1 (phrase u).words u) :
    ReadsSpine follow (ws ++ sign "[" :: (phrase u).words ++ [sign "]"]) (.node [] (.arrayAccess t u)) := by
  rw [append_assoc, cons_append]
  refine ((readsAs_spine (by omega)).mp h).suffix (fun _ => closes_sign (by decide) (le_refl 15)) ?_
  intro m s start rest k id ahead _ shown out goesOn
  have ahead : s.At (sign "[" :: ((phrase u).words ++ sign "]" :: rest)) := by simpa using ahead
  refine goes_eat_not ahead (show (sign "[").is "." = false by decide) ?_
  refine goes_eat ahead rfl fun s1 kept1 ahead1 => ?_
  refine Reads.bind (readsAs_one.mp index ahead1 (closes_sign (by decide) (zero_le 1)))
    fun _ _ kept2 ahead2 shownIndex => ?_
  refine goes_expect ahead2 (by decide) fun _ kept3 ahead3 => ?_
  have shown := shown.extends (kept1.trans (kept2.trans kept3)).grown
  have shownIndex := shownIndex.extends kept3.grown
  refine Reads.bind (reads_make ahead3 ?_ rfl) fun id' s4 kept4 ahead4 shown' => ?_
  · simpa [children] using ⟨shown.1, shownIndex.1⟩
  · refine goesOn s4 id' (kept1.trans (kept2.trans (kept3.trans kept4))) ahead4 ?_
    rwa [Kind.map, shown.2, shownIndex.2] at shown'

/-! ## Targets -/

theorem isAssignable_of_shows {a : Arena} {id : NodeId} (h : a.Shows id t) :
    isAssignable (a.kind id) = t.kind.isTarget := by
  rw [← h.2, h.1.commented_eq]
  cases a.kind id <;> rfl

theorem reads_suffixed (h : ReadsAs 15 ws t) (isTarget : t.kind.isTarget) (isPostfix : op.isPostfix) :
    ReadsSpine (Closes 14) (ws ++ [sign op.symbol]) (.node [] (.unary op t)) := by
  refine ((readsAs_spine (by omega)).mp h).suffix (fun _ => ?_) ?_
  · show Closes 15 (sign op.symbol)
    cases op with
    | postInc | postDec => exact closes_sign (by decide) (le_refl 15)
    | _ => cases isPostfix
  · intro m s start rest k id ahead closes shown out goesOn
    have signs : (sign op.symbol).is "." = false ∧ (sign op.symbol).is "[" = false ∧
        ["++", "--"].any (sign op.symbol).is ∧
        (if op.symbol == "++" then UnaryOperator.postInc else .postDec) = op := by
      cases op with
      | postInc => decide
      | postDec => decide
      | _ => cases isPostfix
    obtain ⟨noPoint, noIndex, isUpdate, same⟩ := signs
    refine goes_eat_not ahead noPoint ?_
    refine goes_eat_not ahead noIndex ?_
    have updates : ["++", "--"].any s.token.is := by
      simpa [ahead.is] using isUpdate
    rw [if_neg (by simp), goes_look, if_pos updates]
    refine goes_advance ahead fun token _ kept1 ahead1 word => ?_
    have shown := shown.extends kept1.grown
    have operator : (if token.text == "++" then UnaryOperator.postInc else .postDec) = op := by
      rw [← Token.text_plain, word]
      exact same
    rw [operator, goes_look, isAssignable_of_shows shown, isTarget, if_neg (by simp)]
    refine Reads.bind (reads_make ahead1 (by simpa [children] using shown.1) rfl)
      fun id' s2 kept2 ahead2 shown' => ?_
    refine goesOn s2 id' (kept1.trans kept2) ahead2 ?_
    rwa [Kind.map, shown.2] at shown'

/-! ## Operators between operands -/

theorem binaryOperator?_sign {op : BinaryOperator} (h : op ≠ .instanceOf) :
    binaryOperator? (sign op.symbol) = some op := by
  cases op with
  | instanceOf => exact absurd rfl h
  | _ => decide

theorem precedence_bounds (op : BinaryOperator) : 3 ≤ op.precedence ∧ op.precedence ≤ 12 := by
  cases op <;> decide

theorem closes_operator {op : BinaryOperator} (h : op ≠ .instanceOf) : Closes (op.precedence + 1) (sign op.symbol) := by
  have known : (op.precedence + 1, op.symbol) ∈ endings := by
    cases op with
    | instanceOf => exact absurd rfl h
    | _ => decide
  exact closes_sign known (le_refl _)

/-- An operator between operands, from what is read behind it. -/
theorem ReadsChain.operator {deep : Nat → Prop} {op : BinaryOperator} {w : Token} {lw rw : List Token}
    {left right : Page} (onLeft : ReadsChain op.precedence lw left deep) (found : binaryOperator? w = some op)
    (ends : Closes (op.precedence + 1) w) (clear : Angled op.precedence left → w.is "<" = false)
    (onRight : ∀ m s rest, s.At (rw ++ rest) → Closes (op.precedence + 1) (firstWord rest) →
      (Angled op.precedence (.node [] (.binary op left right)) → (firstWord rest).is "<" = false) →
      Reads (rightOperand ⟨m, grammar m⟩ op) s rest (fun a id => a.Shows id right) deep) :
    ReadsChain op.precedence (lw ++ w :: rw) (.node [] (.binary op left right)) deep := by
  intro m s start rest least out loose ahead closes angle goesOn
  have ahead : s.At (lw ++ (w :: (rw ++ rest))) := by simpa using ahead
  refine onLeft loose ahead ends clear ?_
  intro s1 id k kept1 ahead1 shown
  obtain _ | k := k
  · exact goes_outOfSteps
  rw [operators, goes_look, ← binaryOperator?_plain, ahead1.token, ParserState.firstWord_cons, found]
  dsimp only
  rw [if_neg (by omega)]
  refine goes_advance ahead1 fun _ s2 kept2 ahead2 _ => ?_
  refine Reads.bind (onRight m s2 rest ahead2 closes angle) fun _ _ kept3 ahead3 shownRight => ?_
  have shown := shown.extends (kept2.trans kept3).grown
  refine Reads.bind (reads_make ahead3 ?_ rfl) fun made s4 kept4 ahead4 shown' => ?_
  · simpa [children] using ⟨shown.1, shownRight.1⟩
  · refine goesOn s4 made k (kept1.trans (kept2.trans (kept3.trans kept4))) ahead4 ?_
    rwa [Kind.map, shown.2, shownRight.2] at shown'

theorem reads_binary {deep : Nat → Prop} {op : BinaryOperator} (notTest : op ≠ .instanceOf) {lw rw : List Token}
    {left right : Page} (onLeft : ReadsAs op.precedence lw left deep)
    (onRight : ReadsAs (op.precedence + 1) rw right deep) (clear : op = .lt → endsWithTypeName left = false) :
    ReadsAs op.precedence (lw ++ sign op.symbol :: rw) (.node [] (.binary op left right)) deep := by
  obtain ⟨low, high⟩ := precedence_bounds op
  rw [readsAs_chain low high] at onLeft ⊢
  refine onLeft.operator (binaryOperator?_sign notTest) (closes_operator notTest) ?_ fun m s rest ahead closes _ => ?_
  · rintro ⟨-, typeName⟩
    have other : op ≠ .lt → (sign op.symbol).is "<" = false := by cases op <;> decide
    refine other fun same => ?_
    rw [clear same] at typeName
    cases typeName
  · rw [rightOperand, if_neg (by simpa using notTest)]
    exact onRight.operation (by omega) (by omega) ahead closes

theorem words_type (h : IsType .plain t) :
    ∃ n more, (phrase t).words = nameWord n :: more ∧ (n ∈ Token.primitives ∨ isIdentifier n) := by
  cases h with
  | @primitive _ name dims known _ =>
    have words : ∀ n ∈ Token.primitives, dotted n = [nameWord n] := by decide
    rw [Phrase.words, before_namedType, words name known]
    split <;> exact ⟨name, _, rfl, .inl known⟩
  | @named _ name ts dims isName _ _ =>
    obtain ⟨p, ps, -, parts, isName, -⟩ := dotted_parts isName
    rw [Phrase.words, before_namedType, parts]
    split <;> exact ⟨p, _, rfl, .inr isName⟩

theorem is_nameWord_eq_false {names : List String} {text : String} (known : n ∈ names ∨ isIdentifier n)
    (other : text ∉ names) : (nameWord n).is text = false := by
  rcases known with listed | isName
  · refine Bool.eq_false_iff.mpr fun same => other ?_
    rwa [← (Token.is_iff.mp same).2, text_nameWord]
  · exact is_nameWord isName _

theorem first_type_other (h : IsType .plain t) (rest : List Token) {text : String}
    (other : text ∉ Token.primitives) : (firstWord ((phrase t).words ++ rest)).is text = false := by
  obtain ⟨n, more, words, known⟩ := words_type h
  rw [words]
  exact is_nameWord_eq_false known other

theorem reads_typeTest {lw : List Token} {left type : Page} (onLeft : ReadsAs 9 lw left) (isType : IsType .plain type) :
    ReadsAs 9 (lw ++ nameWord "instanceof" :: (phrase type).words) (.node [] (.binary .instanceOf left type)) := by
  have ends : Closes 10 (nameWord "instanceof") := .inr ⟨(10, "instanceof"), by decide, by decide, by decide⟩
  have onLeft : ReadsChain BinaryOperator.instanceOf.precedence lw left := onLeft
  refine onLeft.operator (by decide) ends (fun _ => by decide) fun m s rest ahead closes angle => ?_
  have follows : FollowsType true type (firstWord rest) := by
    refine ⟨closes.is_eq_false (by decide), fun _ => closes.is_eq_false (by decide), fun isName => ?_⟩
    exact angle ⟨rfl, isName⟩
  rw [rightOperand, if_pos (by decide), Reads, goes_look, ahead.is, first_type_other isType _ (by decide),
    if_neg (by simp)]
  refine Reads.bind ((readsType_of_isType isType m).reads ahead follows) fun _ s1 _ ahead1 shown => ?_
  have noName : (s1.token.kind == .identifier) = false := by
    rw [ahead1.kind]
    simpa using closes.kind_ne
  rw [goes_look, noName, if_neg (by simp)]
  exact reads_pure ahead1 shown

/-! ## Operators in front of their operand -/

theorem readsAs_enclosedIf (h : ReadsAs 13 ws t)
    (balanced : Balanced ws) (first : OpensExpression ws)
    {condition : Bool} (signed : condition → signedWords ws) :
    ReadsAs 13 (enclosedIf condition ws) t := by
  unfold enclosedIf
  split
  · rename_i enclosed
    refine ((h.mono (by omega)).enclosed balanced fun _ => ?_).mono (by omega)
    obtain ⟨w, more, rfl, starts⟩ := first
    exact castAhead_operator (starts.operator (by simpa [signedWords] using signed enclosed)) _
  · exact h

theorem first_enclosedIf (first : OpensExpression ws) (condition : Bool) :
    OpensExpression (enclosedIf condition ws) := by
  unfold enclosedIf
  split
  · exact ⟨_, _, rfl, .word (by decide)⟩
  · exact first

theorem leastValue?_plain (w : Token) : leastValue? w.plain = leastValue? w := rfl

/-- An operator in front of an operand that it may be applied to. -/
theorem reads_leading (leading : op.isPostfix = false)
    (h : ReadsAs 13 ws t) (first : OpensExpression ws)
    (target : op.isUpdate → t.kind.isTarget) :
    ReadsAs 13 (sign op.symbol :: ws) (.node [] (.unary op t)) := by
  intro n s rest ahead closes
  refine goes_goal fun m => goes_deeper ahead fun s1 ahead1 => ?_
  have isLeading : (if s1.token.kind == .operator then UnaryOperator.ofLeading? s1.token.text
      else none) = some op := by
    rw [ahead1.kind, ahead1.text]
    cases op <;> first | rfl | cases leading
  unfold Parser.unary
  rw [goes_look, isLeading]
  refine goes_advance ahead1 fun _ s2 _ ahead2 _ => ?_
  have notLeast : (if op == .neg then leastValue? s2.token else none) = none := by
    obtain ⟨w, more, rfl, starts⟩ := first
    rw [← leastValue?_plain, ahead2.token]
    split
    · exact starts.not_least
    · rfl
  rw [goes_look, notLeast]
  refine Reads.bind (h ahead2 closes) fun id _ _ ahead3 shown => ?_
  rw [goes_look, isAssignable_of_shows shown, if_neg]
  · refine reads_make ahead3 (by simpa [children] using shown.1) ?_
    exact congrArg (Kind.unary op) shown.2
  · cases update : op.isUpdate with
    | false => simp
    | true => simp [target update]

theorem reads_cast {type : Page} (isType : IsType .plain type)
    (h : ReadsAs 13 ws t) (first : OpensExpression ws)
    (operand : isPrimitiveType type.kind = true ∨ signedWords ws = false) :
    ReadsAs 13 (sign "(" :: (phrase type).words ++ sign ")" :: ws) (.node [] (.cast type t)) := by
  intro n s rest ahead closes
  have ahead : s.At (sign "(" :: ((phrase type).words ++ sign ")" :: (ws ++ rest))) := by
    simpa using ahead
  refine goes_goal fun m => goes_deeper ahead fun s1 ahead1 => ?_
  have notLeading : (if s1.token.kind == .operator then UnaryOperator.ofLeading? s1.token.text
      else none) = none := by
    rw [ahead1.kind, ahead1.text]
    show UnaryOperator.ofLeading? "(" = none
    decide
  have isCast : castAhead s1.rest := by
    obtain ⟨w, more, rfl, starts⟩ := first
    rw [← castAhead_plain, ahead1.plain_rest]
    have cast : castAhead (sign "(" :: ((phrase type).words ++
        sign ")" :: w :: (more ++ rest ++ [endToken]))) := by
      refine castAhead_type isType ?_ (starts.other "->" (by decide))
      refine operand.imp_right fun unsigned => starts.castOperand ?_
      simpa [signedWords] using unsigned
    simpa using cast
  unfold Parser.unary
  rw [goes_look, notLeading]
  rw [goes_look, goes_look, isCast, ahead1.is, if_pos (by rfl)]
  refine goes_advance ahead1 fun _ _ _ ahead2 _ => ?_
  have follows : FollowsType true type (sign ")") :=
    ⟨by decide, fun _ => by decide, fun _ => by decide⟩
  refine Reads.bind ((readsType_of_isType isType m).reads ahead2 follows) fun id _ _ ahead3 shownType => ?_
  refine goes_expect ahead3 (by decide) fun s4 kept4 ahead4 => ?_
  refine Reads.bind (h ahead4 closes) fun _ _ kept5 ahead5 shown => ?_
  have shownType := shownType.extends (kept4.trans kept5).grown
  refine reads_make ahead5 (by simpa [children] using ⟨shownType.1, shown.1⟩) ?_
  exact congr (congrArg Kind.cast shownType.2) shown.2

/-! ## Assignments and the conditional operator -/

theorem closes_assignment {op : Option BinaryOperator} (h : ∀ o ∈ op, o.isCompound) : Closes 2 (assignmentWord op) := by
  cases op with
  | none => exact closes_sign (by decide) (le_refl 2)
  | some o =>
    have compound := h o rfl
    have known : (2, o.symbol ++ "=") ∈ endings := by
      cases o <;> first | decide | cases compound
    exact closes_sign known (le_refl 2)

theorem assignmentOperator?_assignmentWord {op : Option BinaryOperator}
    (h : ∀ o ∈ op, o.isCompound) : assignmentOperator? (assignmentWord op) = some op := by
  cases op with
  | none => decide
  | some o =>
    have compound := h o rfl
    cases o <;> first | decide | cases compound

theorem reads_assignment {op : Option BinaryOperator} (known : ∀ o ∈ op, o.isCompound)
    {tw vw : List Token} {target value : Page} (onLeft : ReadsAs 2 tw target)
    (isTarget : target.kind.isTarget) (onRight : ReadsAs 1 vw value) :
    ReadsAs 1 (tw ++ assignmentWord op :: vw) (.node [] (.assignment op target value)) := by
  intro n s rest ahead closes
  have ahead : s.At (tw ++ (assignmentWord op :: (vw ++ rest))) := by simpa using ahead
  refine goes_goal fun m => goes_look.mpr ?_
  refine Reads.bind (onLeft ahead (closes_assignment known)) fun id _ _ ahead1 shown => ?_
  rw [goes_look, ← assignmentOperator?_plain, ahead1.token, ParserState.firstWord_cons,
    assignmentOperator?_assignmentWord known]
  rw [goes_look, isAssignable_of_shows shown, isTarget, if_neg (by simp)]
  refine goes_advance ahead1 fun _ s2 kept2 ahead2 _ => ?_
  refine Reads.bind (onRight ahead2 closes) fun _ _ kept3 ahead3 shownValue => ?_
  have shown := shown.extends (kept2.trans kept3).grown
  refine reads_make ahead3 (by simpa [children] using ⟨shown.1, shownValue.1⟩) ?_
  exact congr (congrArg (Kind.assignment op) shown.2) shownValue.2

theorem reads_conditional {cw tw ew : List Token} {condition thenValue elseValue : Page}
    (onCondition : ReadsAs 3 cw condition) (onThen : ReadsAs 1 tw thenValue) (onElse : ReadsAs 2 ew elseValue) :
    ReadsAs 2 (cw ++ sign "?" :: tw ++ sign ":" :: ew) (.node [] (.conditional condition thenValue elseValue)) := by
  have onCondition := onCondition.operation (le_refl 3) (by omega)
  intro n s rest ahead closes
  have ahead : s.At (cw ++ (sign "?" :: (tw ++ (sign ":" :: (ew ++ rest))))) := by
    simpa using ahead
  refine goes_goal fun m => goes_look.mpr ?_
  refine Reads.bind (onCondition ahead (closes_sign (by decide) (le_refl 3))) fun id _ _ ahead1 shown => ?_
  refine goes_eat ahead1 (by decide) fun s2 kept2 ahead2 => ?_
  refine Reads.bind (onThen ahead2 (closes_sign (by decide) (zero_le 1))) fun _ _ kept3 ahead3 shownThen => ?_
  refine goes_expect ahead3 (by decide) fun s4 kept4 ahead4 => ?_
  refine Reads.bind (onElse ahead4 closes) fun _ _ kept5 ahead5 shownElse => ?_
  have shownThen := shownThen.extends (kept4.trans kept5).grown
  have shown := shown.extends (kept2.trans (kept3.trans (kept4.trans kept5))).grown
  refine reads_make ahead5 (by simpa [children] using ⟨shown.1, shownThen.1, shownElse.1⟩) ?_
  exact congr (congr (congrArg Kind.conditional shown.2) shownThen.2) shownElse.2

/-! ## All expressions -/

/-- What the induction says of an expression, and of `super`. -/
def ReadsPart (t : Page) : Prop := t = .node [] .super ∨ ReadsAs (precedence t.kind) (phrase t).words t

theorem readsAs_part (e : IsExpression Clear .operand t) (ih : ReadsPart t) {least : Nat} (le : least ≤ 15) :
    ReadsAs least ((phrase t).operand least) t := by
  refine readsAs_operand e (ih.resolve_left ?_) le
  rintro rfl
  cases e

/-- A part that stands in front of a point. -/
theorem readsSpine_part (e : IsExpression Clear .target t) (ih : ReadsPart t) :
    ReadsSpine (· = sign ".") ((phrase t).operand 15) t := by
  rcases e.operand_or_super with operand | rfl
  · refine ((readsAs_spine (by omega)).mp (readsAs_part operand ih (le_refl 15))).mono ?_
    rintro w rfl
    exact closes_sign (by decide) (le_refl 15)
  · exact reads_super

/-- A part that may stand anywhere needs no parentheses. -/
theorem readsAs_whole (e : IsExpression Clear .operand t) (ih : ReadsPart t) : ReadsAs 1 (phrase t).words t := by
  have whole := readsAs_part e ih (zero_le 15)
  rwa [Phrase.operand, if_neg (not_lt_zero _)] at whole

theorem readable_parts {ts : List Page} (es : ∀ t ∈ ts, IsExpression Clear .operand t)
    (ih : ∀ t ∈ ts, ReadsPart t) : Readable ts := by
  intro t mem
  exact ⟨first_expression (es t mem), readsAs_whole (es t mem) (ih t mem)⟩

/-- A target binds tightly enough to need no parentheses. -/
theorem operand_target (isTarget : t.kind.isTarget) {least : Nat} (le : least ≤ 15) :
    (phrase t).operand least = (phrase t).words := by
  rw [Phrase.operand, tree_phrase, precedence_of_isTarget isTarget, if_neg (not_lt.mpr le)]

theorem readsAs_target (e : IsExpression Clear .operand t) (ih : ReadsPart t)
    (isTarget : t.kind.isTarget) : ReadsAs 15 (phrase t).words t := by
  rw [← operand_target isTarget (le_refl 15)]
  exact readsAs_part e ih (le_refl 15)

theorem reads_unary (leading : op.isPostfix = false) (e : IsExpression Clear .operand t) (ih : ReadsPart t)
    (target : op.isUpdate → t.kind.isTarget) :
    ReadsAs (precedence (.unary op t : Kind Page)) (unaryWords op (phrase t)) (.node [] (.unary op t)) := by
  have level : precedence (.unary op t : Kind Page) = 13 := by simp [precedence, leading]
  have first := first_operand (first_expression e) 13
  have balanced := balanced_operand (balanced_words (balanced_expression e)) 13
  rw [level, unaryWords, if_neg (by simp [leading])]
  refine reads_leading leading ?_ (first_enclosedIf first _) target
  refine readsAs_enclosedIf (readsAs_part e ih (by omega)) balanced first fun both => ?_
  exact (Bool.and_eq_true_iff.mp both).1

theorem ReadsPart.of {kind : Kind Page} (words : nodePhrase [] (kind.map phrase) = (ws, 0))
    (h : ReadsAs (precedence kind) ws (.node [] kind)) : ReadsPart (.node [] kind) := by
  refine .inr ?_
  rw [words_node, words]
  exact (append_nil ws).symm ▸ h

theorem readsAs_primary (h : ReadsSpine (Closes 15) ws t) : ReadsAs 15 ws t :=
  (readsAs_spine (by omega)).mpr h

theorem reads_expression_or_super {place : ValueSlot} (h : IsExpression Clear place t) : ReadsPart t := by
  induction h with
  | super => exact .inl rfl
  | literal written => exact .of rfl (readsAs_primary (reads_literal written))
  | name isName => exact .of rfl (readsAs_primary (reads_name isName))
  | this => exact .of rfl (readsAs_primary reads_this)
  | access e isName _ ih =>
    exact .of rfl (readsAs_primary (reads_access (readsSpine_part e ih) isName))
  | call e isName es _ ih ihs =>
    exact .of rfl (readsAs_primary (reads_call (readsSpine_part e ih) isName (readable_parts es ihs)))
  | ownCall isName es ihs =>
    refine .of rfl ?_
    rcases isName with isName | known
    · exact readsAs_primary (reads_ownCall isName (readable_parts es ihs))
    · exact readsAs_primary (reads_selfCall known (readable_parts es ihs))
  | new isType es ihs =>
    exact .of rfl (readsAs_primary (reads_new isType (readable_parts es ihs)))
  | @newArray _ element sizes extra isType some es ihs =>
    refine .of rfl ?_
    have array : ReadsAs 14 _ _ :=
      (readsAs_spine (le_refl 14)).mpr (reads_newArray isType some (readable_parts es ihs) extra)
    show ReadsAs 14 _ _
    simpa [sizeWords, flatMap_map] using array
  | index e e' ih ih' =>
    exact .of rfl (readsAs_primary (reads_index (readsAs_part e ih (le_refl 15)) (readsAs_whole e' ih')))
  | @binary _ op left right notTest e e' clear ih ih' =>
    refine .of rfl ?_
    have bounds := precedence_bounds op
    have angle : op = .lt → endsWithTypeName left = false := by
      rintro rfl
      exact clear
    have word : operatorWord op = sign op.symbol := if_neg (by simpa using notTest)
    rw [word, e'.rightWords_eq]
    exact reads_binary notTest (readsAs_part e ih (by omega)) (readsAs_part e' ih' (by omega)) angle
  | @typeTest _ value type e isType _ ih =>
    refine .of rfl ?_
    have right : rightWords .instanceOf (phrase type) = (phrase type).words := by
      unfold rightWords
      rw [tree_phrase, isType.variant_eq]
      rfl
    rw [right]
    exact reads_typeTest (readsAs_part e ih (by decide)) isType
  | @unary _ op value notUpdate e ih =>
    have leading : op.isPostfix = false := by
      cases op <;> first | rfl | cases notUpdate
    refine .of rfl ?_
    exact reads_unary leading e ih fun update => absurd (notUpdate.symm.trans update) (by simp)
  | @update _ op target isUpdate isTarget e ih =>
    refine .of rfl ?_
    cases isPostfix : op.isPostfix with
    | false => exact reads_unary isPostfix e ih fun _ => isTarget
    | true =>
      have suffixed : ReadsAs 14 _ _ := (readsAs_spine (le_refl 14)).mpr
        (reads_suffixed (readsAs_target e ih isTarget) isTarget isPostfix)
      have level : precedence (.unary op target : Kind Page) = 14 := by
        simp [precedence, isPostfix]
      rwa [level, unaryWords, if_pos isPostfix, operand_target isTarget (by omega)]
  | @assignment _ op target value known isTarget e e' ih ih' =>
    refine .of rfl ?_
    rw [operand_target isTarget (by omega)]
    exact reads_assignment known ((readsAs_target e ih isTarget).mono (by omega)) isTarget
      (readsAs_part e' ih' (by omega))
  | conditional e e' e'' ih ih' ih'' =>
    refine .of rfl ?_
    exact reads_conditional (readsAs_part e ih (by omega)) (readsAs_part e' ih' (by omega))
      (readsAs_part e'' ih'' (by omega))
  | @cast _ type value isType e ih =>
    have first := first_operand (first_expression e) 13
    have balanced := balanced_operand (balanced_words (balanced_expression e)) 13
    refine .of rfl ?_
    rw [castWords, tree_phrase]
    refine reads_cast isType ?_ (first_enclosedIf first _) ?_
    · refine readsAs_enclosedIf (readsAs_part e ih (by omega)) balanced first fun both => ?_
      exact (Bool.and_eq_true_iff.mp both).2
    · cases primitive : isPrimitiveType type.kind with
      | true => exact .inl rfl
      | false =>
        -- what is signed was put in parentheses
        refine .inr ?_
        cases signed : signedWords ((phrase value).operand 13) with
        | true => rfl
        | false => simpa [enclosedIf] using signed

theorem reads_expression (h : IsExpression Clear .operand t) : ReadsGoal .expression 1 (phrase t).words t :=
  readsAs_one.mp (readsAs_whole h (reads_expression_or_super h))

end JavaEdit.Parser
