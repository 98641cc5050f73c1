import JavaEdit.Proofs.Layout.Inline
import JavaEdit.Proofs.Reading.Levels

/-!
# Reading expressions

The words of an expression are read as the expression, at the level at which it binds. Each kind
of expression has its lemma, from what the parsers do with its parts; `reads_expression` puts them
together by induction.
-/

namespace JavaEdit.Parser

open Layout List
open ParserState (firstWord)

variable {deep : Nat → Prop} {follow : Token → Prop} {level m : Nat} {n : String}
    {out : NodeId → List Token → Arena → Prop} {r : Rules} {rest : List Token} {s : ParserState}
    {t type : Page} {ts : List Page}

/-! ## First words -/

/-- Keywords and operators that an expression can start with. -/
def startingWords : List Token :=
  ["this", "super", "new"].map nameWord ++ sign "(" :: UnaryOperator.all.map fun op => sign op.symbol

/-- Words an expression can start with. -/
inductive StartsExpression : Token → Prop
  | literal {value : Literal} : value.IsWritten → StartsExpression (literalWord value)
  | name {n : String} : isIdentifier n = true → StartsExpression (nameWord n)
  | word {w : Token} : w ∈ startingWords → StartsExpression w

def OpensExpression (ws : List Token) : Prop := ∃ w more, ws = w :: more ∧ StartsExpression w

/-- Keywords and operators that no expression starts with. -/
def notStarting : List String :=
  [")", "]", "->", "<", "@", "\x7b", "\x7d", ";", "if", "else", "while", "do", "for", "return", "throw", "break",
    "continue", "try", "catch", "finally", "switch", "synchronized", "assert", "final", "abstract", "static", "class",
    "interface", "enum"]

theorem first_operand (h : OpensExpression (phrase t).words) (least : Nat) :
    OpensExpression ((phrase t).operand least) := by
  unfold Phrase.operand
  split
  · exact ⟨_, _, rfl, .word (by decide)⟩
  · exact h

theorem first_append {ws : List Token} (h : OpensExpression ws) (vs : List Token) : OpensExpression (ws ++ vs) := by
  obtain ⟨w, more, rfl, starts⟩ := h
  exact ⟨w, more ++ vs, rfl, starts⟩

theorem first_unary (h : OpensExpression (phrase t).words) (op : UnaryOperator) :
    OpensExpression (unaryWords op (phrase t)) := by
  unfold unaryWords
  split
  · exact first_append (first_operand h 14) _
  · exact ⟨_, _, rfl, .word (by cases op <;> decide)⟩

attribute [local simp] words_node nodePhrase inlinePhrase Kind.map angles

theorem first_expression {place : ValueSlot} (h : IsExpression Clear place t) : OpensExpression (phrase t).words := by
  induction h with
  | literal written => exact ⟨_, [], by simp, .literal written⟩
  | name isName => exact ⟨_, [], by simp, .name isName⟩
  | this => exact ⟨nameWord "this", [], by simp, .word (by decide)⟩
  | super => exact ⟨nameWord "super", [], by simp, .word (by decide)⟩
  | access _ _ _ ih | call _ _ _ _ ih _ | index _ _ ih _ => simpa using first_append (first_operand ih 15) _
  | @ownCall _ n arguments isName _ _ =>
    refine ⟨nameWord n, argumentWords (arguments.map phrase), by simp, ?_⟩
    rcases isName with isName | rfl | rfl
    · exact .name isName
    · exact .word (by decide)
    · exact .word (by decide)
  | new | newArray =>
    exact ⟨nameWord "new", _, rfl, .word (by decide)⟩
  | binary _ _ _ _ ih _ | typeTest _ _ _ ih => simpa using first_append (first_operand ih _) _
  | unary _ _ ih | update _ _ _ ih => simpa using first_unary ih _
  | assignment _ _ _ _ ih _ => simpa using first_append (first_operand ih 14) _
  | conditional _ _ _ ih _ _ => simpa using first_append (first_operand ih 3) _
  | cast =>
    exact ⟨sign "(", _, rfl, .word (by decide)⟩

theorem isSigned_eq_false {text : String} {p : Char → Bool} (h : Starts p text.toList)
    (plus : p '+' = false) (minus : p '-' = false) : isSigned text = false := by
  obtain ⟨c, tail, chars, start⟩ := h
  unfold isSigned
  rw [chars]
  split
  · rename_i same
    rw [(List.cons.inj same).1, plus] at start
    cases start
  · rename_i same
    rw [(List.cons.inj same).1, minus] at start
    cases start
  · rfl

theorem starting_words : ∀ w ∈ startingWords, leastValue? w = none ∧ (∀ text ∈ notStarting, w.is text = false) ∧
    (w.comments = [] ∧ w.kind ≠ .eof) ∧ (isSigned w.text → w.kind = .operator) ∧
      (isSigned w.text = false → startsCastOperand w) := by decide

section First

variable {w : Token} (h : StartsExpression w)
include h

/-- The smallest numbers have no literal. -/
theorem StartsExpression.not_least : leastValue? w = none := by
  cases h with
  | literal => exact leastValue?_literalWord _
  | name isName => simp [leastValue?, kind_nameWord_of_isIdentifier isName]
  | word known => exact (starting_words _ known).1

theorem StartsExpression.other : ∀ text ∈ notStarting, w.is text = false := by
  cases h with
  | @literal value _ =>
    cases value with
    | boolean b => cases b <;> decide
    | null => decide
    | _ => exact fun _ _ => rfl
  | name isName => exact fun text _ => is_nameWord isName text
  | word known => exact (starting_words _ known).2.1

theorem StartsExpression.silent : w.comments = [] ∧ w.kind ≠ .eof := by
  cases h with
  | @literal value _ => cases value <;> exact ⟨rfl, nofun⟩
  | name isName => exact ⟨rfl, by simp [kind_nameWord_of_isIdentifier isName]⟩
  | word known => exact (starting_words _ known).2.2.1

theorem StartsExpression.operator (signed : isSigned w.text) : w.kind = .operator := by
  cases h with
  | @literal value written =>
    have text : (literalWord value).text = value.text := by cases value <;> rfl
    rw [text, isSigned_eq_false (starts_literal written) (by decide) (by decide)] at signed
    cases signed
  | @name n isName =>
    have starts := starts_name (isName_of_isIdentifier isName)
    rw [text_nameWord, isSigned_eq_false starts (by decide) (by decide)] at signed
    cases signed
  | word known => exact (starting_words _ known).2.2.2.1 signed

theorem StartsExpression.castOperand (unsigned : isSigned w.text = false) : startsCastOperand w := by
  cases h with
  | @literal value _ =>
    cases value with
    | boolean b => cases b <;> decide
    | null => decide
    | _ => rfl
  | name isName => simp [startsCastOperand, kind_nameWord_of_isIdentifier isName]
  | word known => exact (starting_words _ known).2.2.2.2 unsigned

end First

/-! ## Arguments -/

theorem listed_front (separator : Token) (p : Phrase) (ps : List Phrase) :
    ∃ tail, Phrase.listed separator (p :: ps) = p.words ++ tail := by
  cases ps with
  | nil => exact ⟨[], (append_nil _).symm⟩
  | cons q ps => exact ⟨_, listed_cons ..⟩

theorem reads_items {item : Parser NodeId} (some : ts ≠ [])
    (starts : ∀ t ∈ ts, ∃ w more, (phrase t).words = w :: more ∧ w.is ")" = false)
    (each : ∀ t ∈ ts, ∀ s rest, s.At ((phrase t).words ++ rest) → Closes level (firstWord rest) →
      Reads item s rest fun a id => a.Shows id t)
    (ahead : s.At (Phrase.listed (sign ",") (ts.map phrase) ++ sign ")" :: rest)) : s.token.is ")" = false ∧
      Reads (separated "," item m) s (sign ")" :: rest) fun a ids => a.ShowsAll ids ts := by
  refine ⟨?_, reads_listed some each (closes_sign (by decide) (Nat.zero_le level)) ahead
    (closes_sign (by decide) (Nat.zero_le level)) rfl⟩
  obtain ⟨t, ts, rfl⟩ := exists_cons_of_ne_nil some
  obtain ⟨w, more, words, other⟩ := starts t (.head _)
  obtain ⟨tail, front⟩ := listed_front (sign ",") (phrase t) (ts.map phrase)
  rw [ahead.is, map_cons, front, words]
  exact other

/-- Expressions that are read as such. -/
def Readable (ts : List Page) : Prop :=
  ∀ t ∈ ts, OpensExpression (phrase t).words ∧ ReadsAs 1 (phrase t).words t

/-- Expressions in front of a closing parenthesis, if there are any. -/
theorem reads_values (h : Readable ts)
    (ahead : s.At (Phrase.listed (sign ",") (ts.map phrase) ++ sign ")" :: rest)) :
    Reads (if s.token.is ")" then pure [] else separated "," (expression ⟨m, grammar m⟩) m) s (sign ")" :: rest)
      fun a ids => a.ShowsAll ids ts := by
  cases ts with
  | nil =>
    rw [ahead.is]
    exact reads_pure ahead (.nil _)
  | cons t ts =>
    have starts : ∀ u ∈ t :: ts, ∃ w more, (phrase u).words = w :: more ∧ w.is ")" = false := by
      intro u member
      obtain ⟨⟨w, more, words, starts⟩, -⟩ := h u member
      exact ⟨w, more, words, starts.other ")" (by decide)⟩
    obtain ⟨notClosing, values⟩ := reads_items (m := m) (cons_ne_nil t ts) starts
      (fun u member _ _ ahead1 closes => readsAs_one.mp (h u member).2 ahead1 closes) ahead
    rw [notClosing, if_neg (by simp)]
    exact values

theorem reads_arguments (h : Readable ts) (ahead : s.At (argumentWords (ts.map phrase) ++ rest)) :
    Reads (arguments ⟨m, grammar m⟩) s rest fun a ids => a.ShowsAll ids ts := by
  have ahead : s.At (sign "(" :: (Phrase.listed (sign ",") (ts.map phrase) ++ (sign ")" :: rest))) := by
    simpa [argumentWords] using ahead
  refine goes_expect ahead rfl fun _ _ ahead1 => ?_
  rw [goes_look]
  refine Goes.either (Reads.bind (reads_values h ahead1) fun ids _ _ ahead2 shown => ?_)
  refine goes_expect ahead2 (by decide) fun _ kept3 ahead3 => ?_
  exact reads_pure ahead3 (shown.extends kept3.grown)

/-! ## Primary expressions -/

theorem readsSpine_primary {w : Token} {ws : List Token}
    (notOperator : w.kind ≠ .operator) (notOpening : w.is "(" = false)
    (reads : ∀ m s rest, s.At (w :: (ws ++ rest)) → follow (firstWord rest) →
      Reads (primary ⟨m, grammar m⟩) s rest (fun a id => a.Shows id t) deep) :
    ReadsSpine follow (w :: ws) t deep where
  notLeading rest operator := absurd operator notOperator
  notCast rest opening := absurd (notOpening.symm.trans opening) (by decide)
  goes m s start rest out ahead next goesOn := by
    exact Reads.bind (reads m s rest ahead next) fun id s1 kept1 ahead1 shown => goesOn s1 id m kept1 ahead1 shown

theorem reads_literal {value : Literal} (written : value.IsWritten) :
    ReadsSpine follow [literalWord value] (.node [] (.literal value)) deep := by
  have notOperator : (literalWord value).kind ≠ .operator := by cases value <;> exact nofun
  have notOpening : (literalWord value).is "(" = false := by
    cases value with
    | boolean b => cases b <;> decide
    | null => decide
    | _ => rfl
  refine readsSpine_primary notOperator notOpening fun m s _ ahead _ => ?_
  have found : literalValue? s.token = some (.ok value) := by
    rw [literalValue?_of_plain ahead.token]
    exact literalValue?_literalWord written
  rw [primary, Reads, goes_look, found]
  refine goes_advance ahead fun _ _ _ ahead1 _ => ?_
  exact reads_make ahead1 (by simp [Kind.children]) rfl

theorem goes_primary_name (isName : isIdentifier n)
    (ahead : s.At (nameWord n :: rest)) (noArrow : (firstWord rest).is "->" = false)
    (next : ∀ s', Kept s s' → s'.At rest → Goes (if (firstWord rest).is "(" then
          arguments r >>= fun values => make s.token (.invocation none n values)
        else make s.token (.name n)) s' out deep) : Goes (primary r) s out deep := by
  have identifier := kind_nameWord_of_isIdentifier isName
  have noLiteral : literalValue? s.token = none := by
    rw [literalValue?_of_plain ahead.token]
    simp [literalValue?, identifier]
  have kind : s.token.kind = .identifier := ahead.kind.trans identifier
  have noArrow : (tokenAt s.rest 1).is "->" = false := by
    rw [ahead.is_tokenAt, tokenAt_cons_end]
    exact noArrow
  rw [primary, goes_look, noLiteral]
  simp only [kind]
  rw [nameOrCall, goes_look, goes_look, noArrow, if_neg (by simp)]
  refine goes_advance ahead fun token s1 kept1 ahead1 word => ?_
  have text : token.text = n := by
    rw [← Token.text_plain, word, text_nameWord]
  rw [goes_look, ahead1.is, text]
  exact next s1 kept1 ahead1

/-- A name, which no parenthesis and no arrow follows. -/
theorem reads_name (isName : isIdentifier n) :
    ReadsSpine (Closes level) [nameWord n] (.node [] (.name n)) deep := by
  have identifier := kind_nameWord_of_isIdentifier isName
  refine readsSpine_primary (by rw [identifier]; exact nofun) (is_nameWord isName _) fun m s _ ahead closes => ?_
  refine goes_primary_name isName ahead (closes.other "->" (by simp)) fun _ _ ahead1 => ?_
  rw [nil_append, closes.other "(" (by simp), if_neg (by simp)]
  exact reads_make ahead1 (by simp [Kind.children]) rfl

theorem reads_ownCall (isName : isIdentifier n) (h : Readable ts) :
    ReadsSpine follow (nameWord n :: argumentWords (ts.map phrase)) (.node [] (.invocation none n ts)) := by
  have identifier := kind_nameWord_of_isIdentifier isName
  refine readsSpine_primary (by rw [identifier]; exact nofun) (is_nameWord isName _) fun m s _ ahead _ => ?_
  refine goes_primary_name isName ahead (by rfl) fun _ _ ahead1 => ?_
  refine Reads.bind (reads_arguments h ahead1) fun _ _ _ ahead2 shown => ?_
  refine reads_make ahead2 (by simpa [Kind.children] using shown.1) ?_
  exact congrArg (Kind.invocation none n) shown.2

theorem goes_primary_keyword (known : n ∈ ["this", "super", "new"]) (ahead : s.At (nameWord n :: rest))
    (next : Goes (if n = "new" then creation r else selfReference r) s out) : Goes (primary r) s out := by
  have words : ∀ n ∈ ["this", "super", "new"], literalValue? (nameWord n) = none ∧
      (nameWord n).kind = .keyword := by decide
  obtain ⟨noLiteral, keyword⟩ := words n known
  have noLiteral : literalValue? s.token = none := (literalValue?_of_plain ahead.token).trans noLiteral
  have kind : s.token.kind = .keyword := ahead.kind.trans keyword
  have text : s.token.text = n := ahead.text
  rw [primary, goes_look, noLiteral]
  simp only [kind, keywordExpression, text]
  simp only [mem_cons, not_mem_nil, or_false] at known
  rcases known with rfl | rfl | rfl <;> exact next

/-- A keyword for the object itself, with or without arguments. -/
theorem goes_primary_self (known : n = "this" ∨ n = "super") (ahead : s.At (nameWord n :: rest))
    (next : ∀ s' start, Kept s s' → s'.At rest → Goes (if (firstWord rest).is "(" then
          arguments r >>= fun values => make start (.invocation none n values)
        else if n == "this" then make start .this
        else if (firstWord rest).is "." then make start .super
        else unexpected .dotAfterSuper) s' out) : Goes (primary r) s out := by
  have other : n ≠ "new" := by rcases known with rfl | rfl <;> decide
  have mem : n ∈ ["this", "super", "new"] := by rcases known with rfl | rfl <;> simp
  refine goes_primary_keyword mem ahead ?_
  rw [if_neg other, selfReference]
  refine goes_advance ahead fun start s1 kept1 ahead1 word => ?_
  have text : start.text = n := by
    rw [← Token.text_plain, word, text_nameWord]
  have behind := next s1 start kept1 ahead1
  rw [goes_look, ahead1.is, text]
  by_cases call : (firstWord rest).is "(" = true
  · rw [if_pos call] at behind ⊢
    exact behind
  · rw [if_neg call] at behind ⊢
    by_cases self : (n == "this") = true
    · rw [if_pos self] at behind ⊢
      exact behind
    · rw [if_neg self] at behind ⊢
      rw [goes_look, ahead1.is]
      exact behind

theorem reads_this : ReadsSpine (Closes level) [nameWord "this"] (.node [] .this) := by
  refine readsSpine_primary (by decide) (by decide) fun m s _ ahead closes => ?_
  refine goes_primary_self (.inl rfl) ahead fun _ _ _ ahead1 => ?_
  rw [nil_append, closes.other "(" (by simp), if_neg (by simp), if_pos (by decide)]
  exact reads_make ahead1 (by simp [Kind.children]) rfl

theorem reads_super : ReadsSpine (· = sign ".") [nameWord "super"] (.node [] .super) := by
  refine readsSpine_primary (by decide) (by decide) fun m s _ ahead point => ?_
  refine goes_primary_self (.inr rfl) ahead fun _ _ _ ahead1 => ?_
  rw [nil_append, point, if_neg (by decide), if_neg (by decide), if_pos (by decide)]
  exact reads_make ahead1 (by simp [Kind.children]) rfl

/-- A call of a constructor of the class or its superclass. -/
theorem reads_selfCall (known : n = "this" ∨ n = "super") (h : Readable ts) :
    ReadsSpine follow (nameWord n :: argumentWords (ts.map phrase)) (.node [] (.invocation none n ts)) := by
  have words : ∀ n ∈ ["this", "super"], (nameWord n).kind ≠ .operator ∧ (nameWord n).is "(" = false := by decide
  obtain ⟨notOperator, notOpening⟩ := words n (by simpa using known)
  refine readsSpine_primary notOperator notOpening fun m s _ ahead _ => ?_
  refine goes_primary_self known ahead fun _ _ _ ahead1 => ?_
  refine Reads.bind (reads_arguments h ahead1) fun _ _ _ ahead2 shown => ?_
  refine reads_make ahead2 (by simpa [Kind.children] using shown.1) ?_
  exact congrArg (Kind.invocation none n) shown.2

/-! ## Creation -/

theorem followsType_created {w : Token} (h : w = sign "(" ∨ w = sign "[") : FollowsType false t w := by
  rcases h with rfl | rfl <;> exact ⟨by decide, nofun, fun _ => by decide⟩

theorem goes_creation (isType : IsType .created type) (ahead : s.At (nameWord "new" :: ((phrase type).words ++ rest)))
    (behind : firstWord rest = sign "(" ∨ firstWord rest = sign "[")
    (next : ∀ s' start id, Kept s s' → s'.At rest → s'.arena.Shows id type → Goes (if (firstWord rest).is "[" then
          sizes ⟨m, grammar m⟩ m 0 >>= fun found => atToken "\x7b" >>= fun brace =>
            if brace then refuse .arrayInitializers
            else if found.1.isEmpty then fail .noSizedDimension
            else make start (.newArray id found.1 found.2)
        else
          arguments ⟨m, grammar m⟩ >>= fun values => atToken "\x7b" >>= fun brace =>
            if brace then refuse .anonymousClasses else make start (.new id values)) s' out) :
    Goes (primary ⟨m, grammar m⟩) s out := by
  refine goes_primary_keyword (by simp) ahead ?_
  rw [if_pos rfl, creation, goes_look]
  refine goes_expect ahead rfl fun s1 kept1 ahead1 => ?_
  have noAngle : s1.token.is "<" = false := by
    obtain ⟨w, more, words, other, -⟩ := first_type isType
    rw [ahead1.is, Phrase.words, words]
    exact other "<" (by simp)
  rw [goes_look, noAngle, if_neg (by simp)]
  refine Reads.bind (goes_nested (readsType_of_isType isType m _ rest ahead1 (followsType_created behind)))
    fun id s2 kept2 ahead2 shown => ?_
  rw [goes_look, ahead2.is]
  exact next s2 _ id (kept1.trans kept2) ahead2 shown

theorem reads_new (isType : IsType .created type) (h : Readable ts) :
    ReadsSpine (Closes level) (nameWord "new" :: ((phrase type).words ++ argumentWords (ts.map phrase)))
      (.node [] (.new type ts)) := by
  refine readsSpine_primary (by decide) (by decide) fun m s rest ahead closes => ?_
  rw [append_assoc] at ahead
  refine goes_creation isType ahead (.inl rfl) fun _ _ id _ ahead1 shown => ?_
  refine Reads.bind (reads_arguments h ahead1) fun _ _ kept2 ahead2 shownAll => ?_
  rw [goes_look, ahead2.is, closes.other "\x7b" (by simp), if_neg (by simp)]
  have shown := shown.extends kept2.grown
  refine reads_make ahead2 (by simpa [Kind.children] using ⟨shown.1, shownAll.1⟩) ?_
  exact congr (congrArg Kind.new shown.2) shownAll.2

/-- Empty brackets behind the sizes of an array. -/
theorem reads_unsized {n steps : Nat} {count : UInt8} (small : count.toNat + n ≤ 255)
    (ahead : s.At ((List.replicate n [sign "[", sign "]"]).flatten ++ rest)) (ends : (firstWord rest).is "[" = false) :
    Reads (sizes r steps count) s rest fun _ found => found = ([], count + UInt8.ofNat n) := by
  induction n generalizing s steps count with
  | zero =>
    obtain _ | steps := steps
    · exact goes_outOfSteps
    exact goes_eat_not ahead ends (reads_pure ahead (by simp))
  | succ n ih =>
    obtain _ | steps := steps
    · exact goes_outOfSteps
    refine goes_eat ahead rfl fun _ _ ahead1 => ?_
    refine goes_eat ahead1 (by decide) fun _ _ ahead2 => ?_
    obtain ⟨notFull, next⟩ := count_succ (by omega : count.toNat < 255)
    rw [if_pos rfl, if_neg notFull]
    refine (ih (by omega : (count + 1).toNat + n ≤ 255) ahead2).mono ?_
    rintro found ws a ⟨left, rfl⟩
    refine ⟨left, ?_⟩
    rw [UInt8.add_assoc, UInt8.add_comm 1, UInt8.ofNat_add]
    rfl

/-- Words of the sizes of an array. -/
def sizeWords (ts : List Page) : List Token := ts.flatMap fun t => sign "[" :: (phrase t).words ++ [sign "]"]

theorem reads_sizes (h : Readable ts) {extra : UInt8} {steps : Nat}
    (ahead : s.At (sizeWords ts ++ (bracketWords extra ++ rest))) (ends : (firstWord rest).is "[" = false) :
    Reads (sizes ⟨m, grammar m⟩ steps 0) s rest fun a found => a.ShowsAll found.1 ts ∧ found.2 = extra := by
  induction ts generalizing s steps with
  | nil =>
    have small : (0 : UInt8).toNat + extra.toNat ≤ 255 := by
      have := extra.toNat_lt
      simp
      omega
    refine (reads_unsized small ahead ends).mono ?_
    rintro found ws a ⟨left, rfl⟩
    exact ⟨left, .nil _, by simp⟩
  | cons t ts ih =>
    obtain _ | steps := steps
    · exact goes_outOfSteps
    obtain ⟨⟨w, more, words, starts⟩, reads⟩ := h t (by simp)
    have ahead : s.At (sign "[" :: ((phrase t).words ++
        sign "]" :: (sizeWords ts ++ (bracketWords extra ++ rest)))) := by
      simpa [sizeWords] using ahead
    refine goes_eat ahead rfl fun s1 _ ahead1 => ?_
    have notEmpty : (firstWord ((phrase t).words ++
        sign "]" :: (sizeWords ts ++ (bracketWords extra ++ rest)))).is "]" = false := by
      rw [words]
      exact starts.other "]" (by decide)
    refine goes_eat_not ahead1 notEmpty ?_
    refine Reads.bind (readsAs_one.mp reads ahead1 (closes_sign (by decide) (Nat.zero_le 1)))
      fun id _ _ ahead2 shown => ?_
    refine goes_expect ahead2 (by decide) fun _ kept3 ahead3 => ?_
    refine Reads.bind (ih (fun u mem => h u (.tail _ mem)) ahead3) fun found s4 kept4 ahead4 ⟨shownAll, same⟩ => ?_
    exact reads_pure ahead4 ⟨.cons ((shown.extends kept3.grown).extends kept4.grown) shownAll, same⟩

theorem reads_newArray (isType : IsType .created type)
    (some : ts ≠ []) (h : Readable ts) (extra : UInt8) : ReadsSpine (Closes 14)
      (nameWord "new" :: ((phrase type).words ++ (sizeWords ts ++ bracketWords extra)))
      (.node [] (.newArray type ts extra)) := by
  refine readsSpine_primary (by decide) (by decide) fun m s rest ahead closes => ?_
  rw [append_assoc, append_assoc] at ahead
  have first : firstWord (sizeWords ts ++ (bracketWords extra ++ rest)) = sign "[" := by
    obtain ⟨t, others, rfl⟩ := exists_cons_of_ne_nil some
    rfl
  refine goes_creation isType ahead (.inr first) fun _ _ id _ ahead1 shown => ?_
  rw [first, if_pos (by decide)]
  refine Reads.bind (reads_sizes h ahead1 (closes.no_suffix "[" (by simp))) fun found s2 kept2 ahead2 ⟨shownAll, same⟩ => ?_
  obtain ⟨ids, dims⟩ := found
  subst same
  rw [goes_look, ahead2.is, closes.other "\x7b" (by simp), if_neg (by simp)]
  have sized : ids.isEmpty = false := by
    rw [isEmpty_eq_false_iff]
    rintro rfl
    exact some shownAll.2.symm
  rw [sized, if_neg (by simp)]
  have shown := shown.extends kept2.grown
  refine reads_make ahead2 (by simpa [Kind.children] using ⟨shown.1, shownAll.1⟩) ?_
  exact congr (congrArg (fun t ts => Kind.newArray t ts dims) shown.2) shownAll.2

end JavaEdit.Parser
