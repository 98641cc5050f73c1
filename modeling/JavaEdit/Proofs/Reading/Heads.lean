import JavaEdit.Proofs.Layout.Programs
import JavaEdit.Proofs.Reading.Operations

/-!
# Reading what stands above a type

The words of annotations are read as the annotations (`reads_note`). An argument of an annotation may
be an assignment, and is then read as a value with a key, which gives the same tree.
-/

namespace JavaEdit.Parser

open Layout List
open ParserState (firstWord)

variable {ms : Modifiers} {place : ValueSlot} {rest ws : List Token} {s : ParserState} {t : Page}
    {w : Token}

/-! ## Arguments with a key -/

/-- Words that start with an identifier and `=`. -/
def Keyed (ws : List Token) : Prop := ∃ w v more, ws = w :: v :: more ∧ w.kind = .identifier ∧ v.is "=" = true

theorem Keyed.first (h : Keyed (w :: ws)) : w.kind = .identifier := by
  obtain ⟨_, _, _, same, identifier, -⟩ := h
  cases same
  exact identifier

theorem Keyed.second {v : Token} (h : Keyed (w :: v :: ws)) : v.is "=" := by
  obtain ⟨_, _, _, same, -, assigns⟩ := h
  cases same
  exact assigns

/-- The operand that some words start with is the identifier, or has an identifier and `=` itself. -/
theorem Keyed.operand (some : (phrase t).words ≠ []) {least : Nat} {more : List Token}
    (h : Keyed ((phrase t).operand least ++ w :: more)) :
    (w.is "=" ∧ (phrase t).words.length = 1) ∨ (least ≤ precedence t.kind ∧ Keyed (phrase t).words) := by
  unfold Phrase.operand at h
  rw [tree_phrase] at h
  split at h
  · cases h.first
  · rename_i tight
    match words : (phrase t).words with
    | [] => exact absurd words some
    | [u] =>
      rw [words] at h
      exact .inl ⟨h.second, rfl⟩
    | u :: v :: us =>
      rw [words] at h
      exact .inr ⟨Nat.le_of_not_lt tight, u, v, us, rfl, h.first, h.second⟩

attribute [local simp] words_node nodePhrase inlinePhrase Kind.map angles

/-- An assignment to a name. -/
def IsKeyed (t : Page) : Prop :=
  ∃ key value, t = .node [] (.assignment none (.node [] (.name key)) value) ∧ isIdentifier key = true ∧
    IsExpression Clear .operand value

theorem IsKeyed.precedence_eq (h : IsKeyed t) : precedence t.kind = 1 := by
  obtain ⟨key, value, rfl, -⟩ := h
  rfl

theorem words_ne_nil (h : IsExpression Clear place t) : (phrase t).words ≠ [] := by
  obtain ⟨w, more, words, -⟩ := first_expression h
  simp [words]

/-- No operator but `=` stands behind an operand that starts like an argument with a key. -/
theorem not_keyed_operand (h : IsExpression Clear place t)
    (ih : Keyed (phrase t).words → IsKeyed t) (least : Nat) (tight : 1 < least) (w : Token) {more : List Token}
    (other : w.is "=" = false) : ¬ Keyed ((phrase t).operand least ++ w :: more) := by
  intro keyed
  rcases keyed.operand (words_ne_nil h) with ⟨assigns, -⟩ | ⟨loose, inner⟩
  · exact absurd (other.symm.trans assigns) nofun
  · have := (ih inner).precedence_eq
    omega

theorem not_keyed_unary (h : IsExpression Clear place t)
    (ih : Keyed (phrase t).words → IsKeyed t) (op : UnaryOperator) : ¬ Keyed (unaryWords op (phrase t)) := by
  unfold unaryWords
  split
  · exact not_keyed_operand h ih 14 (by decide) _ (by cases op <;> decide)
  · exact fun keyed => by cases keyed.first

/-- Only assignments to names start like an argument with a key. -/
theorem isKeyed_of_keyed (h : IsExpression Clear place t) (keyed : Keyed (phrase t).words) : IsKeyed t := by
  induction h with
  | literal | name | this | super =>
    obtain ⟨_, _, _, words, -⟩ := keyed
    simp at words
  | access e _ _ ih | call e _ _ _ ih _ =>
    exact absurd (by simpa using keyed) (not_keyed_operand e ih 15 (by decide) (sign ".") rfl)
  | index e _ ih _ => exact absurd (by simpa using keyed) (not_keyed_operand e ih 15 (by decide) (sign "[") rfl)
  | ownCall =>
    have second := Keyed.second (by simpa [argumentWords] using keyed)
    cases second
  | new | newArray => exact absurd (Keyed.first (by simpa using keyed)) (by decide)
  | @binary _ op _ _ _ e _ _ ih _ =>
    have tight : 1 < op.precedence := by cases op <;> decide
    have other : (operatorWord op).is "=" = false := by cases op <;> decide
    exact absurd (by simpa using keyed) (not_keyed_operand e ih _ tight _ other)
  | typeTest e _ _ ih =>
    exact absurd (by simpa using keyed)
      (not_keyed_operand e ih BinaryOperator.instanceOf.precedence (by decide) (operatorWord .instanceOf) rfl)
  | @unary _ op _ _ e ih | @update _ op _ _ _ e ih => exact absurd (by simpa using keyed) (not_keyed_unary e ih op)
  | @assignment _ op target value _ isTarget e e' ih _ =>
    have keyed : Keyed ((phrase target).operand 14 ++ assignmentWord op :: (phrase value).operand 1) := by
      simpa using keyed
    rcases keyed.operand (words_ne_nil e) with ⟨assigns, single⟩ | ⟨tight, inner⟩
    · have plain : op = none := by
        cases op with
        | none => rfl
        | some op => revert assigns; cases op <;> decide
      subst plain
      cases e with
      | name isName => exact ⟨_, value, rfl, isName, e'⟩
      | access => simp at single
      | index =>
        simp only [words_node, nodePhrase, inlinePhrase, Kind.map, length_append, length_cons] at single
        omega
      | _ => cases isTarget
    · exact absurd (ih inner).precedence_eq (by omega)
  | conditional e _ _ ih =>
    exact absurd (by simpa using keyed) (not_keyed_operand e ih 3 (by decide) (sign "?") rfl)
  | cast => cases Keyed.first (by simpa [castWords] using keyed)

/-! ## Annotations -/

/-- How the words of an annotation or one of its arguments are read, by where they stand. -/
def ReadsNote (t : Page) : NoteSlot → Prop
  | .use => ∀ n s rest, s.At ((phrase t).words ++ rest) → (∀ text ∈ [".", "("], (firstWord rest).is text = false) →
      Reads (grammar n .annotationUse) s rest fun a id => a.Shows id t
  | .argument => ∀ m s rest, s.At ((phrase t).words ++ rest) → Closes 0 (firstWord rest) →
      Reads (annotationArgument ⟨m, grammar m⟩) s rest fun a id => a.Shows id t
  | .value => ∀ m s rest, s.At ((phrase t).words ++ rest) → Closes 0 (firstWord rest) →
      Reads (elementValue ⟨m, grammar m⟩) s rest fun a id => a.Shows id t

theorem Closes.ends_note (h : Closes 0 w) : ∀ text ∈ [".", "("], w.is text = false := by
  have texts : ∀ text ∈ [".", "("], ∀ e ∈ endings, e.1 ≤ 0 → e.2 ≠ text := by decide
  exact fun text mem => h.is_eq_false (texts text mem)

theorem words_noted (name : String) (arguments : List Page) :
    (phrase (.node [] (.annotationUse name arguments))).words =
      sign "@" :: (dotted name ++ if arguments.isEmpty then [] else argumentWords (arguments.map phrase)) := by
  simp

theorem words_keyed (key : String) (value : Page) :
    (phrase (.node [] (.assignment none (.node [] (.name key)) value))).words =
      nameWord key :: sign "=" :: (phrase value).words := by
  have target : (phrase (.node [] (.name key))).operand 14 = [nameWord key] := by
    have tight : ¬ precedence (Tree.node [] (.name key) : Page).kind < 14 := (by decide : ¬ 15 < 14)
    rw [Phrase.operand, tree_phrase, if_neg tight]
    simp
  have behind : (phrase value).operand 1 = (phrase value).words := by
    rw [Phrase.operand, tree_phrase, if_neg (Nat.not_lt.mpr (one_le_precedence value.kind))]
  simp only [words_node, nodePhrase, inlinePhrase, Kind.map, target, behind]
  simp [assignmentWord]

/-- Whether words start with something else than a closing parenthesis. -/
def StartsArgument (ws : List Token) : Prop := ∃ w more, ws = w :: more ∧ w.is ")" = false

theorem startsArgument_note {place : NoteSlot} (h : IsNote Clear place t) : StartsArgument (phrase t).words := by
  cases h with
  | noted => exact ⟨sign "@", _, words_noted .., rfl⟩
  | expression _ e =>
    obtain ⟨w, more, words, starts⟩ := first_expression e
    exact ⟨w, more, words, starts.other ")" (by decide)⟩
  | @keyed key _ isName _ =>
    refine ⟨nameWord key, _, words_keyed .., ?_⟩
    exact is_nameWord isName _

theorem reads_noted {name : String} {arguments : List Page} (isName : isDotted name)
    (starts : ∀ t ∈ arguments, StartsArgument (phrase t).words) (each : ∀ t ∈ arguments, ReadsNote t .argument) :
    ReadsNote (.node [] (.annotationUse name arguments)) .use := by
  intro n s rest ahead ends
  rw [words_noted, cons_append, append_assoc] at ahead
  refine goes_goal fun m => goes_look.mpr ?_
  refine goes_expect ahead rfl fun _ _ ahead1 => ?_
  have noPoint : (firstWord ((if arguments.isEmpty then [] else argumentWords (arguments.map phrase)) ++ rest)).is
      "." = false := by
    cases arguments with
    | nil => exact ends "." (by simp)
    | cons => rfl
  refine Reads.bind (reads_qualifiedName isName ahead1 noPoint) fun _ s2 _ ahead2 same => ?_
  subst same
  cases arguments with
  | nil =>
    refine goes_eat_not ahead2 (ends "(" (by simp)) ?_
    exact reads_make ahead2 (by simp [Kind.children]) rfl
  | cons t ts =>
    have ahead2 : s2.At (sign "(" :: (Phrase.listed (sign ",") ((t :: ts).map phrase) ++ (sign ")" :: rest))) := by
      simpa [argumentWords] using ahead2
    refine goes_eat ahead2 (by decide) fun _ _ ahead3 => ?_
    obtain ⟨notClosing, values⟩ := reads_items (m := m) (cons_ne_nil t ts) starts
      (fun u member => each u member m) ahead3
    rw [if_pos rfl, goes_look, notClosing, if_neg (by simp)]
    refine Reads.bind values fun _ _ _ ahead4 shown => ?_
    refine goes_expect ahead4 (by decide) fun _ kept5 ahead5 => ?_
    have shown5 := shown.extends kept5.grown
    exact reads_make ahead5 shown5.1 (by rw [Kind.map, shown5.2])

theorem keyed_of_ahead (ahead : s.At ws) (some : ws ≠ [])
    (h : (s.token.kind == .identifier && (tokenAt s.rest 1).is "=")) : Keyed ws := by
  obtain ⟨w, ws, rfl⟩ := exists_cons_of_ne_nil some
  rw [Bool.and_eq_true, beq_iff_eq, ahead.kind, ahead.is_tokenAt, tokenAt_cons_end] at h
  obtain ⟨identifier, assigns⟩ := h
  cases ws with
  | nil => cases assigns
  | cons v ws => exact ⟨w, v, ws, rfl, identifier, assigns⟩

/-- A key stands in the argument itself and not behind it. -/
theorem Keyed.of_append (some : ws ≠ []) (closes : Closes 0 (firstWord rest)) (h : Keyed (ws ++ rest)) : Keyed ws := by
  have texts : ∀ e ∈ endings, e.1 ≤ 0 → e.2 ≠ "=" := by decide
  match ws, rest with
  | [], _ => exact absurd rfl some
  | [w], [] => exact h
  | [w], v :: rest => exact absurd ((closes.is_eq_false texts).symm.trans h.second) nofun
  | w :: v :: ws, _ => exact ⟨w, v, ws, rfl, h.first, h.second⟩

theorem reads_unkeyed (reads : ReadsNote t .value) (some : (phrase t).words ≠ [])
    (unkeyed : ¬ Keyed (phrase t).words) : ReadsNote t .argument := by
  intro m s rest ahead closes
  have noKey : (s.token.kind == .identifier && (tokenAt s.rest 1).is "=") = false := by
    rw [← Bool.not_eq_true]
    intro taken
    exact unkeyed ((keyed_of_ahead ahead (by simp [some]) taken).of_append some closes)
  unfold annotationArgument
  rw [Reads, goes_look, goes_look, noKey, if_neg Bool.false_ne_true]
  exact reads m s rest ahead closes

theorem reads_keyed {key : String} {value : Page} (isName : isIdentifier key) (reads : ReadsNote value .value) :
    ReadsNote (.node [] (.assignment none (.node [] (.name key)) value)) .argument := by
  intro m s rest ahead closes
  have identifier := kind_nameWord_of_isIdentifier isName
  rw [words_keyed] at ahead
  have taken : (s.token.kind == .identifier && (tokenAt s.rest 1).is "=") := by
    rw [ahead.kind, ahead.is_tokenAt]
    simp [identifier, tokenAt]
  unfold annotationArgument
  rw [Reads, goes_look, goes_look, taken, if_pos rfl]
  refine goes_identifier ahead identifier fun _ _ ahead1 => ?_
  refine Reads.bind (reads_make ahead1 (by simp [Kind.children]) rfl) fun _ _ _ ahead2 shown => ?_
  refine goes_expect ahead2 (by decide) fun s3 kept3 ahead3 => ?_
  refine Reads.bind (reads m s3 rest ahead3 closes) fun id _ kept4 ahead4 shownValue => ?_
  have shownTarget := (shown.extends kept3.grown).extends kept4.grown
  refine reads_make ahead4 ?_ ?_
  · simpa [Kind.children] using ⟨shownTarget.1, shownValue.1⟩
  · rw [Kind.map, shownTarget.2, shownValue.2, text_nameWord]
    rfl

theorem reads_elementValue (h : IsExpression Clear .operand t) : ReadsNote t .value := by
  intro m s rest ahead closes
  obtain ⟨w, more, words, starts⟩ := first_expression h
  have first : firstWord ((phrase t).words ++ rest) = w := by rw [words]; rfl
  unfold elementValue
  rw [Reads, goes_look, ahead.is, first, starts.other "@" (by decide), if_neg Bool.false_ne_true,
    goes_look, ahead.is, first, starts.other "\x7b" (by decide), if_neg Bool.false_ne_true]
  exact reads_expression h ahead (closes.mono (Nat.zero_le 1))

/-- The words of annotations and their arguments are read as these. -/
theorem reads_note {place : NoteSlot} (h : IsNote Clear place t) : ReadsNote t place := by
  induction h with
  | @noted place name arguments isName isNote ih =>
    have used := reads_noted isName (fun t mem => startsArgument_note (isNote t mem)) ih
    have valued : ReadsNote (.node [] (.annotationUse name arguments)) .value := by
      intro m s rest ahead closes
      have first : s.token.is "@" := by
        rw [ahead.is, words_noted]
        rfl
      unfold elementValue
      rw [Reads, goes_look, first, if_pos rfl]
      exact used m s rest ahead closes.ends_note
    cases place with
    | use => exact used
    | value => exact valued
    | argument =>
      refine reads_unkeyed valued (by simp) fun keyed => ?_
      cases keyed.first
  | @expression place t notUse e =>
    cases place with
    | use => exact absurd rfl notUse
    | value => exact reads_elementValue e
    | argument =>
      by_cases keyed : Keyed (phrase t).words
      · obtain ⟨key, value, rfl, isName, isValue⟩ := isKeyed_of_keyed e keyed
        exact reads_keyed isName (reads_elementValue isValue)
      · exact reads_unkeyed (reads_elementValue e) (words_ne_nil e) keyed
  | keyed isName _ ih => exact reads_keyed isName ih

/-! ## Modifiers -/

theorem mem_insert {m x : Modifier} : x ∈ ms.insert m ↔ x = m ∨ x ∈ ms := by
  have known : x ∈ Modifier.all := by cases x <;> decide
  simp [Modifiers.insert, Modifiers.ofPredicate, known]

theorem ofKeyword?_keyword (m : Modifier) : Modifier.ofKeyword? m.keyword = some m := by
  cases m <;> decide

theorem nameWord_keyword (m : Modifier) : (nameWord m.keyword).kind = .keyword := by
  cases m <;> decide

theorem modifier_other (m : Modifier) :
    ∀ text ∈ ["@", ".", "(", ";", "package", "import"], (nameWord m.keyword).is text = false := by
  cases m <;> decide

/-- Words that end annotations and modifiers. -/
structure EndsPreface (w : Token) : Prop where
  notNote : ∀ text ∈ ["@", ".", "("], w.is text = false
  notModifier : (if w.kind == .keyword then Modifier.ofKeyword? w.text else none) = none

theorem reads_modifiersFrom {r : Rules} (once : ms.Nodup) {found : Modifiers}
    (new : ∀ m ∈ ms, m ∉ found) (annotations : List NodeId) {steps : Nat}
    (ahead : s.At (modifierWords ms ++ rest)) (ends : EndsPreface (firstWord rest)) :
    Reads (modifiersFrom r steps found annotations) s rest fun _ read =>
      read = (ms.foldl Modifiers.insert found, annotations) := by
  induction ms generalizing found steps s with
  | nil =>
    obtain _ | steps := steps
    · exact goes_outOfSteps
    have ahead : s.At rest := ahead
    rw [modifiersFrom, Reads, goes_look, ahead.is, ends.notNote "@" (by simp), if_neg Bool.false_ne_true,
      ahead.kind, ahead.text, ends.notModifier]
    exact reads_pure ahead rfl
  | cons m ms ih =>
    obtain _ | steps := steps
    · exact goes_outOfSteps
    have ahead : s.At (nameWord m.keyword :: (modifierWords ms ++ rest)) := ahead
    obtain ⟨here, others⟩ := forall_mem_cons.mp new
    obtain ⟨fresh, once⟩ := nodup_cons.mp once
    rw [modifiersFrom, Reads, goes_look, ahead.is, ParserState.firstWord_cons,
      modifier_other m "@" (by simp), if_neg Bool.false_ne_true, ahead.kind, ahead.text, ParserState.firstWord_cons, nameWord_keyword,
      if_pos (by decide), text_nameWord, ofKeyword?_keyword]
    dsimp only
    rw [if_neg (by simpa using here)]
    refine goes_advance ahead fun _ _ _ ahead1 _ => ?_
    refine ih once (fun x mem inserted => ?_) ahead1
    rcases mem_insert.mp inserted with rfl | old
    · exact fresh mem
    · exact others x mem old

theorem words_note (h : IsNote Clear .use t) :
    ∃ p ws, (phrase t).words = sign "@" :: nameWord p :: ws ∧ isIdentifier p := by
  cases h with
  | noted isName _ =>
    obtain ⟨p, ps, -, parts, first, -⟩ := dotted_parts isName
    exact ⟨p, _, by rw [words_noted, parts]; rfl, first⟩
  | expression notUse _ => exact absurd rfl notUse

/-- What stands behind an annotation does not go on with it. -/
theorem EndsPreface.behind_note {notes : List Page} (isNote : ∀ t ∈ notes, IsNote Clear .use t)
    (h : EndsPreface (firstWord rest)) :
    ∀ text ∈ [".", "("], (firstWord (prefaceWords (notes.map phrase) ms ++ rest)).is text = false := by
  cases notes with
  | cons t notes =>
    obtain ⟨p, ws, words, -⟩ := words_note (isNote t (.head _))
    simp [prefaceWords, words, Token.is, sign, word]
  | nil =>
    cases ms with
    | cons m ms =>
      have listed : ∀ text ∈ [".", "("], text ∈ ["@", ".", "(", ";", "package", "import"] := by decide
      exact fun text mem => modifier_other m text (listed text mem)
    | nil => exact fun text mem => h.notNote text (.tail _ mem)

theorem reads_preface {m : Nat} {notes : List Page} (isNote : ∀ t ∈ notes, IsNote Clear .use t)
    (once : ms.Nodup) (annotations : List NodeId) {steps : Nat}
    (ahead : s.At (prefaceWords (notes.map phrase) ms ++ rest)) (ends : EndsPreface (firstWord rest)) :
    Reads (modifiersFrom ⟨m, grammar m⟩ steps [] annotations) s rest fun _ _ => True := by
  induction notes generalizing annotations steps s with
  | nil =>
    refine (reads_modifiersFrom once (fun _ _ => not_mem_nil) annotations ahead ends).mono ?_
    exact fun _ _ _ read => ⟨read.1, trivial⟩
  | cons t notes ih =>
    obtain ⟨here, others⟩ := forall_mem_cons.mp isNote
    have words : prefaceWords ((t :: notes).map phrase) ms =
        (phrase t).words ++ prefaceWords (notes.map phrase) ms := by simp [prefaceWords]
    rw [words, append_assoc] at ahead
    obtain ⟨p, ws, front, isName⟩ := words_note here
    have first : s.token.is "@" := by
      rw [ahead.is, front]
      rfl
    have second : (tokenAt s.rest 1).is "interface" = false := by
      rw [ahead.is_tokenAt, front]
      exact is_nameWord isName _
    obtain _ | steps := steps
    · exact goes_outOfSteps
    rw [modifiersFrom, Reads, goes_look, first, if_pos rfl, goes_look, second, if_neg Bool.false_ne_true]
    refine Reads.bind (reads_note here m s _ ahead (ends.behind_note others)) fun added _ _ ahead1 _ => ?_
    exact ih others (annotations ++ [added]) ahead1

/-! ## Package and imports -/

theorem reads_packageLine {package : Option String} (isName : ∀ n ∈ package, isDotted n) {steps : Nat}
    (ahead : s.At ((package.toList.flatMap fun name => nameWord "package" :: dotted name ++ [sign ";"]) ++ rest))
    (other : (firstWord rest).is "package" = false) :
    Reads (packageLine steps) s rest fun _ found => found = package := by
  cases package with
  | none => exact goes_eat_not ahead other (reads_pure ahead rfl)
  | some name =>
    have ahead : s.At (nameWord "package" :: (dotted name ++ sign ";" :: rest)) := by simpa using ahead
    refine goes_eat ahead rfl fun _ _ ahead1 => ?_
    refine Reads.bind (reads_qualifiedName (isName name rfl) ahead1 rfl) fun found _ _ ahead2 same => ?_
    refine goes_expect ahead2 (by decide) fun _ _ ahead3 => ?_
    exact reads_pure ahead3 (congrArg some same)

theorem reads_importRest {parts : List String} (names : ∀ q ∈ parts, isIdentifier q) {wildcard : Bool}
    {steps : Nat} (ahead : s.At ((parts.flatMap fun q => [sign ".", nameWord q]) ++
      ((if wildcard then [sign ".", sign "*"] else []) ++ sign ";" :: rest))) :
    Reads (importRest steps) s (sign ";" :: rest) fun _ _ => True := by
  induction parts generalizing s steps with
  | nil =>
    obtain _ | steps := steps
    · exact goes_outOfSteps
    cases wildcard with
    | true =>
      refine goes_eat ahead rfl fun s1 _ ahead1 => ?_
      exact goes_eat ahead1 (by decide) fun s2 _ ahead2 => reads_pure ahead2 trivial
    | false => exact goes_eat_not ahead rfl (reads_pure ahead trivial)
  | cons q parts ih =>
    obtain _ | steps := steps
    · exact goes_outOfSteps
    have identifier := kind_nameWord_of_isIdentifier (names q (.head _))
    refine goes_eat ahead rfl fun s1 _ ahead1 => ?_
    refine goes_eat_not ahead1 (Token.is_of_identifier identifier _) ?_
    refine goes_identifier ahead1 identifier fun s2 _ ahead2 => ?_
    refine Reads.bind (ih (fun q mem => names q (.tail _ mem)) ahead2) fun _ _ _ ahead3 _ => ?_
    exact reads_pure ahead3 trivial

theorem reads_importLine {i : Import} (isName : isDotted i.path) {steps : Nat}
    (ahead : s.At ((importWords i).tail ++ rest)) : Reads (importLine steps) s rest fun _ _ => True := by
  obtain ⟨path, isStatic, wildcard⟩ := i
  obtain ⟨p, ps, -, parts, first, names⟩ := dotted_parts isName
  have ahead : s.At ((if isStatic then [nameWord "static"] else []) ++ nameWord p ::
      ((ps.flatMap fun q => [sign ".", nameWord q]) ++
        ((if wildcard then [sign ".", sign "*"] else []) ++ sign ";" :: rest))) := by
    simpa [importWords, parts] using ahead
  refine goes_eat_if ahead (by decide) (is_nameWord first _) fun s0 _ ahead0 => ?_
  refine goes_identifier ahead0 (kind_nameWord_of_isIdentifier first) fun s1 _ ahead1 => ?_
  refine Reads.bind (reads_importRest names ahead1) fun found s2 _ ahead2 _ => ?_
  exact goes_expect ahead2 (by decide) fun s3 _ ahead3 => reads_pure ahead3 trivial

theorem reads_importLines {imports : List Import} (names : ∀ i ∈ imports, isDotted i.path) {steps more : Nat}
    (ahead : s.At (imports.flatMap importWords ++ rest)) (other : (firstWord rest).is "import" = false) :
    Reads (importLines steps more) s rest fun _ _ => True := by
  induction imports generalizing more s with
  | nil =>
    obtain _ | more := more
    · exact goes_outOfSteps
    exact goes_eat_not ahead other (reads_pure ahead trivial)
  | cons i imports ih =>
    obtain ⟨here, others⟩ := forall_mem_cons.mp names
    obtain _ | more := more
    · exact goes_outOfSteps
    have ahead : s.At (nameWord "import" :: ((importWords i).tail ++ (imports.flatMap importWords ++ rest))) := by
      simpa [importWords] using ahead
    refine goes_eat ahead rfl fun _ _ ahead1 => ?_
    refine Reads.bind (reads_importLine here ahead1) fun _ _ _ ahead2 _ => ?_
    refine Reads.bind (ih others ahead2) fun _ _ _ ahead3 _ => ?_
    exact reads_pure ahead3 trivial

end JavaEdit.Parser
