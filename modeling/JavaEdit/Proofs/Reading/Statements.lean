import JavaEdit.Proofs.Layout.AsWritten
import JavaEdit.Proofs.Reading.Heads
import JavaEdit.Proofs.Scanning.Declarations

/-!
# Reading statements

The words of branches, loops and jumps are read as the statements that they belong to
(`reads_branching`). They end in front of a word that does not go on with the statement. An `else` goes on
with every statement that ends with an open `if`, so a branch in front of one must not be left open
(`readsKind_ifElse`).
-/

namespace JavaEdit

open Layout List Token Kind Bool Nat
open ParserState (firstWord)

variable {a : Arena} {k : Kind Page} {rest : List Token} {s : ParserState} {t : Page}

/-- A payload shows a payload over the trees that its children show. -/
structure Arena.ShowsKind (a : Arena) (found : Kind NodeId) (k : Kind Page) : Prop where
  rooted : ∀ c ∈ found.children, a.Rooted c
  same : found.map a.commented = k

theorem Arena.showsKind_of_children {found : Kind NodeId} (shape : found.shape = k.shape)
    (shown : a.ShowsAll found.children k.children) : a.ShowsKind found k where
  rooted := shown.1
  same := by
    refine Kind.eq_of_shape_eq (by rw [Kind.shape_map, shape]) ?_
    rw [children_map]
    exact shown.2

theorem Arena.ShowsAll.option {found : Option NodeId} {t : Option Page}
    (h : a.ShowsAll found.toList t.toList) : found.map a.commented = t := by
  have same := h.2
  cases found <;> cases t <;> simp_all

/-- Something that may be left out and is not. -/
theorem Reads.optional {p : Parser NodeId} (h : Reads p s rest fun a id => a.Shows id t) :
    Reads (some <$> p) s rest fun a found => a.ShowsAll (Option.toList found) [t] := by
  exact Reads.bind h fun id _ _ ahead1 shown => reads_pure ahead1 (.cons shown (.nil _))

namespace Parser

variable {m : Nat} {ts : List Page} {ws : List Token}

section Comments

variable {β : Type} {out : β → List Token → Arena → Prop}

theorem goes_takeComments {f : List Comment → Parser β} (ahead : s.At ws) (silent : (firstWord ws).comments = [])
    (next : Goes (f []) s out) : Goes (takeComments >>= f) s out := by
  have none : s.token.comments = [] := by rw [← comments_plain, ahead.token, silent]
  have found : (s.rest.head?.map comments).getD [] = [] := by
    unfold ParserState.token tokenAt at none
    cases rest : s.rest with
    | nil => rfl
    | cons t ts => simpa [rest] using none
  have same : s.uncommented = s := by
    unfold ParserState.uncommented
    split
    · rename_i t ts rest
      rw [rest] at found
      have bare : { t with comments := [] } = t := by
        cases t
        exact congrArg _ found.symm
      rw [bare, ← rest]
    · rfl
  unfold Goes
  rw [ends_bind, ends_takeComments, found, same]
  exact next

end Comments

/-! ## First words -/

/-- Keywords and signs that no statement starts with. -/
def notOpening : List String :=
  ["\x7d", "else", "switch", "synchronized", "assert", "abstract", "static", "class", "interface", "enum"]

/-- How the words of a statement start that is no declaration. -/
structure StartsStatement (ws : List Token) : Prop where
  undeclared : Undeclared ws
  silent : (firstWord ws).comments = []
  notEnd : (firstWord ws).kind ≠ .eof
  other : ∀ text ∈ notOpening, (firstWord ws).is text = false

/-- The keywords that statements start with. -/
def statementKeywords : List String := ["if", "while", "do", "for", "return", "break", "continue"]

theorem startsStatement_keyword {n : String} (known : n ∈ statementKeywords) (ws : List Token) :
    StartsStatement (nameWord n :: ws) := by
  have all : ∀ n ∈ statementKeywords, n ∈ openingKeywords ∧ (nameWord n).kind ≠ .eof ∧
      ∀ text ∈ notOpening, (nameWord n).is text = false := by decide
  obtain ⟨opening, notEnd, other⟩ := all n known
  exact ⟨undeclared_keyword opening ws, rfl, notEnd, other⟩

theorem startsStatement_sign {op : String} (known : op ∈ [";", "\x7b"]) (ws : List Token) :
    StartsStatement (sign op :: ws) := by
  have all : ∀ op ∈ [";", "\x7b"], (∀ text ∈ ["final", "@"], (sign op).is text = false) ∧
      ∀ text ∈ notOpening, (sign op).is text = false := by decide
  obtain ⟨undeclared, other⟩ := all op known
  exact ⟨undeclared_operator rfl undeclared ws, rfl, nofun, other⟩

theorem startsStatement_effect (h : IsExpression Clear .operand t) (isEffect : t.kind.isEffect)
    (ws : List Token) : StartsStatement ((phrase t).words ++ sign ";" :: ws) := by
  have listed : ∀ text ∈ notOpening, text ∈ notStarting := by decide
  obtain ⟨w, more, words, starts⟩ := first_expression h
  have first : firstWord ((phrase t).words ++ sign ";" :: ws) = w := by rw [words]; rfl
  refine ⟨undeclared_effect h isEffect (by decide) ws, ?_, ?_, ?_⟩ <;> rw [first]
  · exact starts.silent.1
  · exact starts.silent.2
  · exact fun text mem => starts.other text (listed text mem)

theorem StartsStatement.exists_cons (h : StartsStatement ws) : ∃ w more, ws = w :: more := by
  obtain ⟨undeclared, -⟩ := h
  cases undeclared <;> exact ⟨_, _, rfl⟩

theorem StartsStatement.first_append (h : StartsStatement ws) (rest : List Token) :
    firstWord (ws ++ rest) = firstWord ws := by
  obtain ⟨w, more, rfl⟩ := h.exists_cons
  rfl

/-! ## Places -/

/-- The word behind a statement does not go on with it. -/
def EndsStatement (t : Page) (w : Token) : Prop := endsWithOpenIf t = true → w.is "else" = false

/-- The words of a statement are read below a head, and do not start a declaration in a block. -/
structure ReadsStatement (t : Page) : Prop where
  starts : StartsStatement (phrase t).words
  reads : ∀ ⦃n s rest⦄, s.At ((phrase t).words ++ rest) →
    EndsStatement t (firstWord rest) → Reads (grammar n .statement) s rest fun a id => a.Shows id t

/-- How the words of a statement that is no block are read. -/
def ReadsKind (k : Kind Page) : Prop :=
  ∀ ⦃m s start rest⦄, s.At ((phrase (.node [] k)).words ++ rest) →
    EndsStatement (.node [] k) (firstWord rest) →
    Reads (statementKind ⟨m, grammar m⟩ start) s rest fun a found => a.ShowsKind found k

theorem ReadsStatement.blockStatement (h : ReadsStatement t)
    (ahead : s.At ((phrase t).words ++ rest)) (ends : EndsStatement t (firstWord rest)) :
    Reads (blockStatement ⟨m, grammar m⟩) s rest fun a ids => a.ShowsAll ids [t] := by
  obtain ⟨starts, reads⟩ := h
  have others : ["class", "interface", "enum", "abstract", "static"].any s.token.is = false := by
    have listed : ∀ text ∈ ["class", "interface", "enum", "abstract", "static"], text ∈ notOpening := by decide
    refine any_eq_false.mpr fun text mem => ?_
    rw [ahead.is, starts.first_append, starts.other text (listed text mem)]
    exact Bool.false_ne_true
  have undeclared := starts.undeclared.append (rest ++ [endToken])
  rw [← append_assoc, ← ahead.plain_rest] at undeclared
  have notFinal : s.token.is "final" = false := by
    have first := undeclared.first "final" (by simp)
    rwa [tokenAt_plain] at first
  have noDeclaration : declarationAhead s.rest = false := by
    rw [← declarationAhead_plain]
    exact undeclared.declarationAhead
  unfold Parser.blockStatement
  rw [Reads, goes_look, goes_look, goes_look, others, notFinal, Bool.false_and, Bool.false_or,
    if_neg Bool.false_ne_true, goes_look, noDeclaration, if_neg Bool.false_ne_true]
  refine Reads.bind (reads ahead ends) fun id _ _ ahead1 shown => ?_
  exact reads_pure ahead1 (.cons shown (.nil _))

theorem ReadsKind.statement (reads : ReadsKind k) (starts : StartsStatement (phrase (.node [] k)).words)
    (notBlock : (firstWord (phrase (.node [] k)).words).is "\x7b" = false) : ReadsStatement (.node [] k) := by
  refine ⟨starts, fun n s rest ahead ends => ?_⟩
  refine goes_goal fun m => goes_deeper ahead fun s ahead => ?_
  have first := starts.first_append rest
  have other : ∀ text ∈ notOpening, s.token.is text = false := by
    intro text mem
    rw [ahead.is, first]
    exact starts.other text mem
  have noLabel : (s.token.kind == .identifier && (tokenAt s.rest 1).is ":") = false := by
    have undeclared := starts.undeclared.append (rest ++ [endToken])
    rw [← append_assoc, ← ahead.plain_rest] at undeclared
    have second := undeclared.second
    rwa [tokenAt_plain, tokenAt_plain] at second
  refine goes_takeComments ahead (by rw [first]; exact starts.silent) ?_
  rw [goes_look, goes_look, ahead.is, first, notBlock, if_neg Bool.false_ne_true,
    goes_look, other "switch" (by decide), if_neg Bool.false_ne_true,
    goes_look, other "synchronized" (by decide), if_neg Bool.false_ne_true,
    goes_look, other "assert" (by decide), if_neg Bool.false_ne_true,
    goes_look, goes_look, noLabel, if_neg Bool.false_ne_true]
  refine Reads.bind (reads ahead ends) fun _ _ _ ahead1 shown => ?_
  exact reads_make ahead1 shown.rooted shown.same

theorem ReadsKind.keyword (reads : ReadsKind k) {n : String}
    (words : (phrase (.node [] k)).words = nameWord n :: ws) (known : n ∈ statementKeywords) :
    ReadsStatement (.node [] k) := by
  have noBrace : ∀ n ∈ statementKeywords, (nameWord n).is "\x7b" = false := by decide
  refine reads.statement ?_ ?_ <;> rw [words]
  · exact startsStatement_keyword known ws
  · exact noBrace n known

/-! ## Branches and loops -/

theorem reads_parenthesized (e : IsExpression Clear .operand t)
    (ahead : s.At (sign "(" :: ((phrase t).words ++ sign ")" :: rest))) :
    Reads (parenthesized ⟨m, grammar m⟩) s rest fun a id => a.Shows id t := by
  refine goes_expect ahead rfl fun s1 _ ahead1 => ?_
  refine Reads.bind (reads_expression e ahead1 (closes_sign (by decide) (zero_le 1))) fun id _ _ ahead2 shown => ?_
  refine goes_expect ahead2 (by decide) fun _ kept3 ahead3 => ?_
  exact reads_pure ahead3 (shown.extends kept3.grown)

/-- The words of something that may be left out. -/
def optionWords (t : Option Page) : List Token := t.toList.flatMap fun t => (phrase t).words

section Words

variable (condition : Page) {body : Page} (silent : body.label = [])
include silent

attribute [local simp] words_node nodePhrase statementWords Kind.map angles headWords

theorem words_ifThen : (phrase (.node [] (.ifElse condition body none))).words =
    nameWord "if" :: sign "(" :: ((phrase condition).words ++ sign ")" :: (phrase body).words) := by
  simp [line_phrase silent]

theorem words_ifElse {other : Page} (silent' : other.label = []) :
    (phrase (.node [] (.ifElse condition body (some other)))).words = nameWord "if" :: sign "(" ::
      ((phrase condition).words ++ sign ")" :: ((phrase body).words ++ nameWord "else" :: (phrase other).words)) := by
  simp [line_phrase silent, line_phrase silent']

theorem words_whileLoop : (phrase (.node [] (.whileLoop condition body))).words =
    nameWord "while" :: sign "(" :: ((phrase condition).words ++ sign ")" :: (phrase body).words) := by
  simp [line_phrase silent]

theorem words_doWhile : (phrase (.node [] (.doWhile body condition))).words = nameWord "do" :: ((phrase body).words ++
      nameWord "while" :: sign "(" :: ((phrase condition).words ++ [sign ")", sign ";"])) := by
  simp [line_phrase silent]

theorem words_forLoop (condition : Option Page) :
    (phrase (.node [] (.forLoop [] condition [] body))).words = nameWord "for" :: sign "(" :: sign ";" ::
      (optionWords condition ++ sign ";" :: sign ")" :: (phrase body).words) := by
  cases condition <;> simp [line_phrase silent, optionWords, initWords, Phrase.listed, Phrase.joined]

theorem words_forEach (name : String) (ms : Modifiers) (type iterable : Page) :
    (phrase (.node [] (.forEach (.node [] (.localVariable name ms type none)) iterable body))).words =
      nameWord "for" :: sign "(" :: variableWords ms type name (sign ":")
        ((phrase iterable).words ++ sign ")" :: (phrase body).words) := by
  simp [line_phrase silent, binding_phrase, variableWords, localWords, declaratorWords]

end Words

section Branches

variable {condition body : Page} (e : IsExpression Clear .operand condition)
    (silent : body.label = []) (reads : ReadsStatement body)
include e silent reads

theorem readsKind_ifThen : ReadsKind (.ifElse condition body none) := by
  intro m s start rest ahead ends
  rw [words_ifThen condition silent] at ahead
  simp only [cons_append, append_assoc] at ahead
  have notElse : (firstWord rest).is "else" = false := ends (endsWithOpenIf_node ..)
  refine goes_eat_not ahead rfl ?_
  refine goes_eat ahead rfl fun _ _ ahead1 => ?_
  refine Reads.bind (reads_parenthesized e ahead1) fun c s2 _ ahead2 shown => ?_
  refine Reads.bind (reads.reads ahead2 fun _ => notElse) fun b _ kept3 ahead3 shownBody => ?_
  refine goes_eat_not ahead3 notElse (reads_pure ahead3 ?_)
  exact Arena.showsKind_of_children rfl (.cons (shown.extends kept3.grown) (.cons shownBody (.nil _)))

theorem readsKind_ifElse (shut : endsWithOpenIf body = false) {other : Page}
    (silent' : other.label = []) (reads' : ReadsStatement other) : ReadsKind (.ifElse condition body (some other)) := by
  intro m s start rest ahead ends
  rw [words_ifElse condition silent silent'] at ahead
  simp only [cons_append, append_assoc] at ahead
  refine goes_eat_not ahead rfl ?_
  refine goes_eat ahead rfl fun _ _ ahead1 => ?_
  refine Reads.bind (reads_parenthesized e ahead1) fun c s2 _ ahead2 shown => ?_
  refine Reads.bind (reads.reads ahead2 fun isOpen => absurd (shut.symm.trans isOpen) nofun)
    fun b _ kept3 ahead3 shownBody => ?_
  refine goes_eat ahead3 (by decide) fun s4 kept4 ahead4 => ?_
  refine Reads.bind (reads'.reads ahead4 ends).optional fun _ _ kept5 ahead5 shownOther => ?_
  have shown := shown.extends (kept3.trans (kept4.trans kept5)).grown
  have shownBody := shownBody.extends (kept4.trans kept5).grown
  refine reads_pure ahead5 ⟨?_, ?_⟩
  · exact forall_mem_cons.mpr ⟨shown.1, forall_mem_cons.mpr ⟨shownBody.1, shownOther.1⟩⟩
  · rw [Kind.map, shown.2, shownBody.2, Arena.ShowsAll.option (t := some other) shownOther]

theorem readsKind_whileLoop : ReadsKind (.whileLoop condition body) := by
  intro m s start rest ahead ends
  rw [words_whileLoop condition silent] at ahead
  simp only [cons_append, append_assoc] at ahead
  iterate 2 refine goes_eat_not ahead rfl ?_
  refine goes_eat ahead rfl fun _ _ ahead1 => ?_
  refine Reads.bind (reads_parenthesized e ahead1) fun c s2 _ ahead2 shown => ?_
  refine Reads.bind (reads.reads ahead2 ends) fun b _ kept3 ahead3 shownBody => ?_
  refine reads_pure ahead3 (Arena.showsKind_of_children rfl ?_)
  exact .cons (shown.extends kept3.grown) (.cons shownBody (.nil _))

theorem readsKind_doWhile : ReadsKind (.doWhile body condition) := by
  intro m s start rest ahead ends
  rw [words_doWhile condition silent] at ahead
  simp only [cons_append, append_assoc, nil_append] at ahead
  iterate 3 refine goes_eat_not ahead rfl ?_
  refine goes_eat ahead rfl fun s1 _ ahead1 => ?_
  refine Reads.bind (reads.reads ahead1 fun _ => (by decide : (nameWord "while").is "else" = false)) fun b _ _ ahead2 shownBody => ?_
  refine goes_expect ahead2 (by decide) fun _ kept3 ahead3 => ?_
  refine Reads.bind (reads_parenthesized e ahead3) fun c _ kept4 ahead4 shown => ?_
  refine goes_expect ahead4 (by decide) fun _ kept5 ahead5 => ?_
  refine reads_pure ahead5 (Arena.showsKind_of_children rfl ?_)
  exact .cons (shownBody.extends (kept3.trans (kept4.trans kept5)).grown) (.cons (shown.extends kept5.grown) (.nil _))

end Branches

theorem goes_optional {β : Type} {t : Option Page} (e : ∀ u ∈ t, IsExpression Clear .operand u)
    (ahead : s.At (optionWords t ++ sign ";" :: rest)) {f : Option NodeId → Parser β}
    {out : β → List Token → Arena → Prop}
    (next : ∀ found s', Kept s s' → s'.At (sign ";" :: rest) → s'.arena.ShowsAll (Option.toList found) t.toList →
      Goes (f found) s' out) : Goes (do
      let value ← if ← atToken ";" then pure none else some <$> expression ⟨m, grammar m⟩
      f value) s out := by
  rw [goes_look, ahead.is]
  cases t with
  | none => exact next none s (.refl s) ahead (.nil _)
  | some t =>
    have e := e t rfl
    have words : optionWords (some t) = (phrase t).words := by simp [optionWords]
    rw [words] at ahead
    obtain ⟨w, more, front, starts⟩ := first_expression e
    have first : firstWord ((phrase t).words ++ sign ";" :: rest) = w := by rw [front]; rfl
    rw [words, first, starts.other ";" (by decide)]
    exact Reads.bind (reads_expression e ahead (closes_sign (by decide) (zero_le 1))).optional next

theorem endsPreface_type (h : IsType .plain t) (rest : List Token) :
    EndsPreface (firstWord ((phrase t).words ++ rest)) := by
  have others : ∀ text ∈ ["@", ".", "("], text ∉ primitives := by decide
  refine ⟨fun text mem => first_type_other h rest (others text mem), ?_⟩
  obtain ⟨n, more, words, known⟩ := words_type h
  rw [words]
  show (if (nameWord n).kind == .keyword then Modifier.ofKeyword? (nameWord n).text else none) = none
  rcases known with primitive | isName
  · have none : ∀ n ∈ primitives, Modifier.ofKeyword? n = none := by decide
    rw [text_nameWord, none n primitive, ite_self]
  · simp [kind_nameWord_of_isIdentifier isName]

theorem reads_type (h : IsType .plain t)
    (ahead : s.At ((phrase t).words ++ rest))
    (ends : (firstWord rest).kind = .identifier) : Reads (type ⟨m, grammar m⟩) s rest fun a id => a.Shows id t := by
  refine (readsType_of_isType h m).reads ahead ?_
  exact ⟨Token.is_of_identifier ends _, fun _ => Token.is_of_identifier ends _, fun _ => Token.is_of_identifier ends _⟩

section Loops

variable {body : Page} (silent : body.label = []) (reads : ReadsStatement body)
include silent reads

theorem readsKind_forLoop {condition : Option Page} (e : ∀ t ∈ condition, IsExpression Clear .operand t) :
    ReadsKind (.forLoop [] condition [] body) := by
  intro m s start rest ahead ends
  rw [words_forLoop silent] at ahead
  simp only [cons_append, append_assoc] at ahead
  iterate 4 refine goes_eat_not ahead rfl ?_
  refine goes_eat ahead rfl fun _ _ ahead1 => ?_
  refine goes_expect ahead1 (by decide) fun s2 _ ahead2 => ?_
  -- a semicolon starts no declaration
  have notEach : forEachAhead s2.rest = false := by
    rw [← forEachAhead_plain, ahead2.plain_rest]
    exact (undeclared_operator rfl (by decide) _).forEachAhead
  have nothing : Reads (forInit ⟨m, grammar m⟩) s2 (sign ";" :: (optionWords condition ++ sign ";" :: sign ")" ::
      ((phrase body).words ++ rest))) fun _ ids => ids = [] := by
    unfold forInit
    rw [Reads, goes_look, ahead2.is]
    exact reads_pure ahead2 rfl
  rw [goes_look, notEach, if_neg Bool.false_ne_true]
  refine Reads.bind nothing fun _ s3 kept3 ahead3 same => ?_
  subst same
  refine goes_expect ahead3 (by decide) fun s3 kept3 ahead3 => ?_
  refine goes_optional e ahead3 fun c _ _ ahead4 shown => ?_
  refine goes_expect ahead4 (by decide) fun _ kept5 ahead5 => ?_
  rw [goes_look, ahead5.is, ParserState.firstWord_cons, if_pos (by rfl), pure_bind]
  refine goes_expect ahead5 (by decide) fun s6 kept6 ahead6 => ?_
  refine Reads.bind (reads.reads ahead6 ends) fun b _ kept7 ahead7 shownBody => ?_
  have shown := shown.extends (kept5.trans (kept6.trans kept7)).grown
  refine reads_pure ahead7 ⟨?_, ?_⟩
  · simp only [Kind.children, nil_append, append_nil, forall_mem_append, forall_mem_singleton]
    exact ⟨shown.1, shownBody.1⟩
  · rw [Kind.map, shown.option, shownBody.2]
    rfl

theorem readsKind_forEach {name : String} (isName : isIdentifier name) {ms : Modifiers} (isLocal : ms.IsLocal)
    {type iterable : Page} (isType : IsType .plain type) (e : IsExpression Clear .operand iterable) :
    ReadsKind (.forEach (.node [] (.localVariable name ms type none)) iterable body) := by
  intro m s start rest ahead ends
  have identifier := kind_nameWord_of_isIdentifier isName
  rw [words_forEach silent] at ahead
  have ahead : s.At (nameWord "for" :: sign "(" :: variableWords ms type name (sign ":")
      ((phrase iterable).words ++ sign ")" :: ((phrase body).words ++ rest))) := by
    simpa [variableWords] using ahead
  iterate 4 refine goes_eat_not ahead rfl ?_
  refine goes_eat ahead rfl fun _ _ ahead1 => ?_
  refine goes_expect ahead1 (by decide) fun s2 _ ahead2 => ?_
  have isEach : forEachAhead s2.rest := by
    have found := forEachAhead_local isType isName isLocal (sign ":")
      ((phrase iterable).words ++ sign ")" :: ((phrase body).words ++ rest) ++ [endToken])
    rw [← forEachAhead_plain, ahead2.plain_rest]
    simpa [variableWords] using found
  rw [goes_look, isEach, if_pos rfl]
  unfold forEach
  rw [goes_look]
  have inserted : ms.foldl Modifiers.insert [] = ms ∧ ms.Nodup := by rcases isLocal with rfl | rfl <;> decide
  refine Reads.bind (reads_modifiersFrom inserted.2 (fun _ _ => not_mem_nil) [] ahead2
    (endsPreface_type isType _)) fun _ _ _ ahead3 same => ?_
  rw [inserted.1] at same
  subst same
  refine Reads.bind (reads_type isType ahead3 identifier) fun declared _ _ ahead4 shownType => ?_
  refine goes_identifier ahead4 identifier fun s5 kept5 ahead5 => ?_
  have shownType := shownType.extends kept5.grown
  have element : (localVariable name ms declared none).map s5.arena.commented = .localVariable name ms type none := by
    rw [Kind.map, shownType.2]
    rfl
  refine Reads.bind (reads_make ahead5 (by simpa [children] using shownType.1) element)
    fun v _ _ ahead6 shownElement => ?_
  refine goes_expect ahead6 (by decide) fun s7 kept7 ahead7 => ?_
  refine Reads.bind (reads_expression e ahead7 (closes_sign (by decide) (zero_le 1)))
    fun i _ kept8 ahead8 shownIterable => ?_
  refine goes_expect ahead8 (by decide) fun s9 kept9 ahead9 => ?_
  refine Reads.bind (reads.reads ahead9 ends) fun b s' kept' ahead' shownBody => ?_
  refine reads_pure ahead' (Arena.showsKind_of_children rfl ?_)
  have shownElement := shownElement.extends (kept7.trans (kept8.trans (kept9.trans kept'))).grown
  exact .cons shownElement (.cons (shownIterable.extends (kept9.trans kept').grown) (.cons shownBody (.nil _)))

end Loops

/-! ## Statements without others below them -/

section Simple

attribute [local simp] words_node nodePhrase statementWords Kind.map angles

theorem words_returnStmt (value : Option Page) : (phrase (.node [] (.returnStmt value))).words =
    nameWord "return" :: (optionWords value ++ [sign ";"]) := by
  cases value <;> simp [optionWords]

theorem words_breakStmt : (phrase (.node [] (.breakStmt none))).words = [nameWord "break", sign ";"] := by
  simp [jumpWords]

theorem words_continueStmt : (phrase (.node [] (.continueStmt none))).words = [nameWord "continue", sign ";"] := by
  simp [jumpWords]

theorem words_effect (value : Page) :
    (phrase (.node [] (.expressionStatement value))).words = (phrase value).words ++ [sign ";"] := by
  simp

theorem words_empty : (phrase (.node [] .empty)).words = [sign ";"] := by
  simp

end Simple

theorem readsKind_empty : ReadsKind .empty := by
  intro m s start rest ahead _
  exact goes_eat ahead rfl fun _ _ ahead1 => reads_pure ahead1 (Arena.showsKind_of_children rfl (.nil _))

theorem readsKind_returnStmt {value : Option Page} (e : ∀ t ∈ value, IsExpression Clear .operand t) :
    ReadsKind (.returnStmt value) := by
  intro m s start rest ahead _
  rw [words_returnStmt] at ahead
  simp only [cons_append, append_assoc, nil_append] at ahead
  iterate 5 refine goes_eat_not ahead rfl ?_
  refine goes_eat ahead rfl fun _ _ ahead1 => ?_
  refine goes_optional e ahead1 fun _ _ _ ahead2 shown => ?_
  refine goes_expect ahead2 (by decide) fun _ kept3 ahead3 => ?_
  have shown := shown.extends kept3.grown
  exact reads_pure ahead3 ⟨shown.1, by rw [Kind.map, shown.option]⟩

theorem reads_jumpLabel (ahead : s.At (sign ";" :: rest)) : Reads jumpLabel s rest fun _ found => found = none := by
  unfold jumpLabel
  rw [Reads, goes_look, ahead.kind]
  exact goes_expect ahead rfl fun _ _ ahead1 => reads_pure ahead1 rfl

theorem readsKind_breakStmt : ReadsKind (.breakStmt none) := by
  intro m s start rest ahead _
  iterate 7 refine goes_eat_not ahead rfl ?_
  refine goes_eat ahead rfl fun _ _ ahead1 => ?_
  refine Reads.bind (reads_jumpLabel ahead1) fun _ _ _ ahead2 same => ?_
  subst same
  exact reads_pure ahead2 (Arena.showsKind_of_children rfl (.nil _))

theorem readsKind_continueStmt : ReadsKind (.continueStmt none) := by
  intro m s start rest ahead _
  iterate 8 refine goes_eat_not ahead rfl ?_
  refine goes_eat ahead rfl fun _ _ ahead1 => ?_
  refine Reads.bind (reads_jumpLabel ahead1) fun _ _ _ ahead2 same => ?_
  subst same
  exact reads_pure ahead2 (Arena.showsKind_of_children rfl (.nil _))

theorem isStatementExpression_of_shows {id : NodeId} (shown : a.Shows id t) :
    isStatementExpression (a.kind id) = t.kind.isEffect := by
  have same := shown.1.commented_eq
  rw [shown.2] at same
  rw [same]
  cases a.kind id <;> rfl

theorem readsKind_expression {value : Page} (e : IsExpression Clear .operand value)
    (isEffect : value.kind.isEffect) : ReadsKind (.expressionStatement value) := by
  intro m s start rest ahead _
  rw [words_effect] at ahead
  simp only [append_assoc, cons_append, nil_append] at ahead
  obtain ⟨w, more, front, starts⟩ := first_expression e
  have first : firstWord ((phrase value).words ++ sign ";" :: rest) = w := by rw [front]; rfl
  iterate 10
    refine goes_eat_not ahead (by rw [first]; exact starts.other _ (by decide)) ?_
    rw [if_neg Bool.false_ne_true]
  refine Reads.bind (reads_expression e ahead (closes_sign (by decide) (Nat.zero_le 1)))
    fun id _ _ ahead1 shown => ?_
  rw [goes_look, isStatementExpression_of_shows shown, isEffect]
  refine goes_expect ahead1 (by decide) fun _ kept2 ahead2 => ?_
  exact reads_pure ahead2 (Arena.showsKind_of_children rfl (.cons (shown.extends kept2.grown) (.nil _)))

/-! ## Blocks -/

/-- The words of several statements. -/
def statementsWords (ts : List Page) : List Token := ts.flatMap fun t => (phrase t).words

theorem flatMap_line (silent : ∀ t ∈ ts, t.label = []) : (ts.map phrase).flatMap Phrase.line = statementsWords ts := by
  rw [statementsWords, flatMap_def, flatMap_def, List.map_map]
  exact congrArg _ (map_congr_left fun t mem => line_phrase (silent t mem))

theorem words_block (silent : ∀ t ∈ ts, t.label = []) :
    (phrase (.node [] (.block ts))).words = sign "\x7b" :: (statementsWords ts ++ [sign "\x7d"]) := by
  simp [words_node, nodePhrase, statementWords, Kind.map, angles, braced, flatMap_line silent]

theorem endsStatement_inBlock (each : ∀ t ∈ ts, ReadsStatement t) (t : Page) (rest : List Token) :
    EndsStatement t (firstWord (statementsWords ts ++ sign "\x7d" :: rest)) := by
  intro _
  cases ts with
  | nil => rfl
  | cons u ts =>
    have starts := (each u (.head _)).starts
    rw [statementsWords, flatMap_cons, append_assoc, starts.first_append]
    exact starts.other "else" (by decide)

theorem reads_blockStatements (each : ∀ t ∈ ts, ReadsStatement t)
    {steps : Nat} (ahead : s.At (statementsWords ts ++ sign "\x7d" :: rest)) :
    Reads (blockStatements ⟨m, grammar m⟩ steps) s (sign "\x7d" :: rest) fun a ids => a.ShowsAll ids ts := by
  induction ts generalizing steps s with
  | nil =>
    obtain _ | steps := steps
    · exact goes_outOfSteps
    rw [blockStatements, Reads, goes_look, ahead.is]
    exact reads_pure ahead (.nil _)
  | cons t ts ih =>
    obtain ⟨here, others⟩ := forall_mem_cons.mp each
    obtain _ | steps := steps
    · exact goes_outOfSteps
    have both : statementsWords (t :: ts) = (phrase t).words ++ statementsWords ts := flatMap_cons
    rw [both, append_assoc] at ahead
    have goesOn : (s.token.kind == .eof) = false := by
      rw [ahead.kind, here.starts.first_append]
      exact beq_false_of_ne here.starts.notEnd
    rw [blockStatements, Reads, goes_look, ahead.is, here.starts.first_append,
      here.starts.other "\x7d" (by decide), if_neg Bool.false_ne_true, goes_look, goesOn, if_neg Bool.false_ne_true]
    refine Reads.bind (here.blockStatement ahead (endsStatement_inBlock others t rest))
      fun ids _ _ ahead1 shown => ?_
    refine Reads.bind (ih others ahead1) fun more _ kept2 ahead2 shownAll => ?_
    have shown := shown.extends kept2.grown
    refine reads_pure ahead2 ⟨forall_mem_append.mpr ⟨shown.1, shownAll.1⟩, ?_⟩
    rw [map_append, shown.2, shownAll.2, singleton_append]

theorem reads_block (silent : ∀ t ∈ ts, t.label = []) (each : ∀ t ∈ ts, ReadsStatement t) {n : Nat}
    (ahead : s.At ((phrase (.node [] (.block ts))).words ++ rest)) :
    Reads (grammar n .block) s rest fun a id => a.Shows id (.node [] (.block ts)) := by
  rw [words_block silent] at ahead
  simp only [cons_append, append_assoc, nil_append] at ahead
  refine goes_goal fun m => goes_look.mpr ?_
  refine goes_expect ahead rfl fun _ _ ahead1 => ?_
  refine Reads.bind (reads_blockStatements each ahead1) fun _ _ _ ahead2 shown => ?_
  refine goes_advance ahead2 fun _ _ kept3 ahead3 _ => ?_
  have shown := shown.extends kept3.grown
  exact reads_make ahead3 shown.1 (by rw [Kind.map, shown.2])

theorem readsStatement_block (silent : ∀ t ∈ ts, t.label = []) (each : ∀ t ∈ ts, ReadsStatement t) :
    ReadsStatement (.node [] (.block ts)) := by
  have words := words_block silent
  refine ⟨words ▸ startsStatement_sign (by decide) _, fun n s rest ahead _ => ?_⟩
  refine goes_goal fun m => goes_deeper ahead fun s ahead => ?_
  have first : firstWord ((phrase (.node [] (.block ts))).words ++ rest) = sign "\x7b" := by rw [words]; rfl
  refine goes_takeComments ahead (by rw [first]; rfl) ?_
  rw [goes_look, goes_look, ahead.is, first]
  refine Reads.bind (reads_block silent each ahead) fun id _ _ ahead1 shown => ?_
  exact ⟨.refl _, ahead1, shown⟩

/-- The words of branches, loops and jumps are read as these, if no branch is left open. -/
theorem reads_branching (h : IsBranching IsShut t) : ReadsStatement t := by
  induction h with
  | block each ih => exact readsStatement_block (fun t mem => (each t mem).silent) ih
  | ifThen e body ih =>
    exact (readsKind_ifThen e body.silent ih).keyword (words_ifThen _ body.silent) (by decide)
  | ifElse e body other shut ih ih' =>
    exact (readsKind_ifElse e body.silent ih shut other.silent ih').keyword
      (words_ifElse _ body.silent other.silent) (by decide)
  | whileLoop e body ih =>
    exact (readsKind_whileLoop e body.silent ih).keyword (words_whileLoop _ body.silent) (by decide)
  | doWhile body e ih => exact (readsKind_doWhile e body.silent ih).keyword (words_doWhile _ body.silent) (by decide)
  | forLoop e body ih => exact (readsKind_forLoop body.silent ih e).keyword (words_forLoop body.silent _) (by decide)
  | forEach isName isLocal isType e body ih =>
    exact (readsKind_forEach body.silent ih isName isLocal isType e).keyword (words_forEach body.silent ..) (by decide)
  | @expression value e isEffect =>
    refine (readsKind_expression e isEffect).statement ?_ ?_ <;> rw [words_effect]
    · exact startsStatement_effect e isEffect []
    · obtain ⟨w, more, front, starts⟩ := first_expression e
      rw [front]
      exact starts.other "\x7b" (by decide)
  | returnStmt e => exact (readsKind_returnStmt e).keyword (words_returnStmt _) (by decide)
  | breakStmt => exact readsKind_breakStmt.keyword words_breakStmt (by decide)
  | continueStmt => exact readsKind_continueStmt.keyword words_continueStmt (by decide)
  | empty =>
    refine readsKind_empty.statement ?_ ?_ <;> rw [words_empty]
    · exact startsStatement_sign (by decide) []
    · decide

end Parser

end JavaEdit
