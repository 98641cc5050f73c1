import JavaEdit.Proofs.Accepted.Spacing
import JavaEdit.Proofs.Layout.Inline

/-!
# Tokens of what stands above a type

The text of a type starts with its comments, annotations and modifiers, with the package and the
imports of its unit in front of it. All of this is made of its words up to the name of the type,
whatever the text behind the name is made of (`lexes_head`).
-/

namespace JavaEdit.Layout

open Lexer List

variable {base : List Char → List Token → Prop} {imports : List Import} {more : List Token}
    {rest : List Char}

/-! ## Comments -/

theorem closesComment_star {cs : List Char} (open_ : closesComment cs = false)
    (first : cs.head? ≠ some '/') : closesComment ('*' :: cs) = false := by
  unfold closesComment
  split
  · rename_i same
    cases same
    exact absurd rfl first
  · rename_i same
    cases same
    exact open_
  · rename_i same
    cases same

theorem filler_commentLines {cs : List Comment} (written : ∀ c ∈ cs, c.IsWritten) :
    Filler (commentLines 0 cs).toList := by
  induction cs with
  | nil => exact .nil
  | cons c cs ih =>
    obtain ⟨here, others⟩ := forall_mem_cons.mp written
    have behind := ih others
    have lines : (commentLines 0 (c :: cs)).toList = (commentText c).toList ++ '\n' :: (commentLines 0 cs).toList := by
      simp [commentLines, margin]
    rw [lines]
    have newline : Filler ('\n' :: (commentLines 0 cs).toList) := .blank rfl behind
    obtain ⟨kind, text⟩ := c
    cases kind with
    | line => simpa [commentText] using Filler.line text.toList here.1 behind
    | block => simpa [commentText] using Filler.block text.toList here.1 newline
    | javadoc =>
      simpa [commentText] using Filler.block ('*' :: text.toList) (closesComment_star here.1 here.2) newline

/-! ## Annotations -/

attribute [local simp] text_node words_node nodeText nodePhrase inlinePart inlinePhrase Kind.map angles

theorem spells_noted {name : String} {arguments : List Page} (isName : isDotted name)
    {depth : Nat} (each : ∀ t ∈ arguments, LexesAs base t depth) :
    Spells base endsName ((piece (.node [] (.annotationUse name arguments))).text depth).toList
      (phrase (.node [] (.annotationUse name arguments))).words := by
  intro rest more stop lexed
  have start : ∀ tail, Heads endsName tail → ∀ ws, LexesOn base tail ws →
      LexesOn base ('@' :: (name.toList ++ tail)) (sign "@" :: (dotted name ++ ws)) :=
    fun tail stop ws lexed => (spells_dotted isName _ _ stop lexed).lone "@" (by decide)
  cases arguments with
  | nil => simpa using start rest stop more lexed
  | cons t ts => simpa using start _ (heads_arguments (by decide)) _ (lexes_arguments lexed each)

/-- The text of an annotation or one of its arguments is made of its words. -/
theorem lexes_note {place : NoteSlot} {t : Page} (h : IsNote Clear place t) (depth : Nat) : LexesAs base t depth := by
  induction h with
  | noted isName _ ih =>
    exact fun rest more follows => spells_noted isName ih rest more follows.nameEnds
  | expression _ e => exact lexes_expression e depth
  | @keyed key value isName _ ih =>
    intro rest more follows lexed
    have stop := follows.separated (show 1 < 15 by decide)
    have isTarget : IsExpression Clear .operand (.node [] (.name key)) := .name isName
    have value := lexes_operand lexed ih 1 fun _ => .separator stop
    simpa [assignmentText, assignmentWord] using
      lexes_between value (lexes_expression isTarget depth) 14 "=" (by decide)

/-- An annotation in front of a declaration is laid out as it is by itself. -/
theorem spells_note {t : Page} (h : IsNote Clear .use t) (depth : Nat) :
    Spells base endsName ((piece t).only .annotationUse depth).toList (phrase t).words := by
  cases h with
  | noted isName arguments =>
    rw [Piece.only, if_pos (by rw [Piece.variant, tree_piece]; rfl)]
    exact spells_noted isName fun t mem => lexes_note (arguments t mem) depth
  | expression notUse _ => exact absurd rfl notUse

theorem lexes_annotations {notes : List Page} (each : ∀ t ∈ notes, IsNote Clear .use t)
    (lexed : LexesOn base rest more) :
    LexesOn base ((String.join ((notes.map piece).map fun p => margin 0 ++ p.only .annotationUse 0 ++ "\n")).toList
      ++ rest) ((notes.map phrase).flatMap Phrase.words ++ more) := by
  induction notes with
  | nil => exact lexed
  | cons t notes ih =>
    obtain ⟨here, others⟩ := forall_mem_cons.mp each
    have whole := spells_note here 0 _ _ (.cons (by decide)) (ih others).newline
    simpa [margin] using whole

/-! ## Modifiers -/

theorem modifiers_are_names (m : Modifier) : isName m.keyword := by
  cases m <;> decide

theorem lexes_modifiers (ms : Modifiers) (lexed : LexesOn base rest more) :
    LexesOn base ((modifierText ms).toList ++ rest) (modifierWords ms ++ more) := by
  induction ms with
  | nil => exact lexed
  | cons m ms ih =>
    simpa [modifierText, modifierWords, nameWord] using
      ih.space.name m.keyword (modifiers_are_names m) (.cons (by decide))

/-! ## Package and imports -/

theorem lexes_import {i : Import} (isName : isDotted i.path) (lexed : LexesOn base rest more) :
    LexesOn base ((importText i).toList ++ rest) (importWords i ++ more) := by
  obtain ⟨path, isStatic, wildcard⟩ := i
  have ended : LexesOn base (';' :: '\n' :: rest) (sign ";" :: more) := lexed.newline.lone ";" (by decide)
  have starred : LexesOn base ('.' :: '*' :: ';' :: '\n' :: rest) (sign "." :: sign "*" :: sign ";" :: more) :=
    (ended.operator "*" (by decide) (.cons (by decide))).operator "." (by decide)
      (.cons (by decide))
  have named : LexesOn base (path.toList ++ ((if wildcard then ".*" else "").toList ++ ';' :: '\n' :: rest))
      (dotted path ++ ((if wildcard then [sign ".", sign "*"] else []) ++ sign ";" :: more)) := by
    cases wildcard with
    | true => exact spells_dotted isName _ _ (.cons (by decide)) starred
    | false => exact spells_dotted isName _ _ (.cons (by decide)) ended
  cases isStatic with
  | true =>
    have whole := (named.space.name "static" (by decide) (.cons (by decide))).space.name "import"
      (by decide) (.cons (by decide))
    simpa [importText, importWords, nameWord] using whole
  | false =>
    have whole := named.space.name "import" (by decide) (.cons (by decide))
    simpa [importText, importWords, nameWord] using whole

theorem lexes_imports (names : ∀ i ∈ imports, isDotted i.path) (lexed : LexesOn base rest more) :
    LexesOn base ((String.join (imports.map importText)).toList ++ rest) (imports.flatMap importWords ++ more) := by
  induction imports with
  | nil => exact lexed
  | cons i imports ih =>
    obtain ⟨here, others⟩ := forall_mem_cons.mp names
    simpa using lexes_import here (ih others)

variable {package : Option String}

theorem lexes_header
    (isPackage : ∀ n ∈ package, isDotted n) (names : ∀ i ∈ imports, isDotted i.path)
    (lexed : LexesOn base rest more) :
    LexesOn base ((headerText package imports).toList ++ rest) (headerWords package imports ++ more) := by
  have apart : LexesOn base ((if imports.isEmpty then "" else "\n").toList ++ rest) more := by
    split
    · exact lexed
    · exact lexed.newline
  have behind := lexes_imports names apart
  cases package with
  | none => simpa [headerText, headerWords] using behind
  | some name =>
    have line : LexesOn base (';' :: '\n' :: '\n' :: _) (sign ";" :: _) :=
      behind.newline.newline.lone ";" (by decide)
    have named := spells_dotted (isPackage name rfl) _ _ (.cons (by decide)) line
    have whole := named.space.name "package" (by decide) (.cons (by decide))
    simpa [headerText, headerWords, nameWord] using whole

/-! ## Heads -/

/-- Everything in front of the name of a type, and the name. The comments of the type belong to the
first word behind them. -/
theorem lexes_head
    (isPackage : ∀ n ∈ package, isDotted n) (isImport : ∀ i ∈ imports, isDotted i.path)
    {comments : List Comment} (written : ∀ c ∈ comments, c.IsWritten) {notes : List Page}
    (isNote : ∀ t ∈ notes, IsNote Clear .use t) (ms : Modifiers) {keyword name : String}
    (isKeyword : isName keyword) (isType : isName name)
    (stop : Heads endsName rest) (lexed : LexesOn base rest more) :
    ∃ found, LexesOn base ((headerText package imports ++ (above comments (notes.map piece) 0 ++ modifierText ms
        ++ (keyword ++ " ") ++ name)).toList ++ rest) (headerWords package imports ++ leading found
        (prefaceWords (notes.map phrase) ms ++ nameWord keyword :: nameWord name :: more)) := by
  have named := spells_name isType _ _ stop lexed
  have kept := spells_name isKeyword _ _ (.cons (by decide)) named.space
  have noted := lexes_annotations isNote (lexes_modifiers ms kept)
  obtain ⟨w, ws, first⟩ : ∃ w ws, (notes.map phrase).flatMap Phrase.words ++
      (modifierWords ms ++ ([nameWord keyword] ++ ([nameWord name] ++ more))) = w :: ws :=
    exists_cons_of_ne_nil (by simp)
  rw [first] at noted
  obtain ⟨found, commented⟩ := lexes_of_filler (filler_commentLines written) noted
  refine ⟨found, ?_⟩
  have words : leading found (prefaceWords (notes.map phrase) ms ++ nameWord keyword :: nameWord name :: more) =
      w.led found :: ws := by
    rw [prefaceWords, append_assoc]
    exact congrArg (leading found) first
  rw [words]
  simpa [above, margin] using lexes_header isPackage isImport commented

end JavaEdit.Layout
