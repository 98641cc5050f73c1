import JavaEdit.Proofs.Layout.AsWritten
import JavaEdit.Proofs.Layout.Heads

/-!
# Tokens of statements

The text of a statement without comments is made of the words of the statement that it tells
(`lexes_branching`). Nothing that follows runs into it, because every statement ends with a semicolon or
a brace.
-/

namespace JavaEdit.Layout

open Lexer List

variable {base : List Char → List Token → Prop} {more : List Token} {rest : List Char} {t : Page}

/-- The text of a statement is made of the words of the statement that it tells. -/
def LexesLines (base : List Char → List Token → Prop) (t : Page) : Prop :=
  ∀ depth rest more, LexesOn base rest more →
    LexesOn base (((piece t).text depth).toList ++ rest) ((phrase t.asWritten).words ++ more)

/-! ## Lines -/

theorem lexes_margin (depth : Nat) (lexed : LexesOn base rest more) :
    LexesOn base ((margin depth).toList ++ rest) more := by
  unfold margin
  induction depth with
  | zero => exact lexed
  | succ depth ih =>
    rw [replicate_succ, String.toList_join, flatMap_cons, append_assoc, ← String.toList_join]
    exact ih.space.space.space.space

section Lines

variable (h : LexesLines base t) (silent : t.label = [])
include h silent

theorem lexes_line (depth : Nat) (lexed : LexesOn base rest more) :
    LexesOn base (((piece t).line depth).toList ++ rest) ((phrase t.asWritten).line ++ more) := by
  have whole := lexes_margin depth (h depth _ _ lexed.newline)
  rw [line_phrase (by simpa using silent)]
  simpa [Piece.line, Piece.comments, silent, commentLines] using whole

/-- The statement below a head. -/
theorem lexes_branch (depth : Nat) (lexed : LexesOn base rest more) :
    LexesOn base ((branch (piece t) depth).toList ++ rest) ((phrase t.asWritten).line ++ more) := by
  rw [line_phrase (by simpa using silent)]
  unfold branch
  split
  · simpa [Piece.comments, silent] using (h depth _ _ lexed).space
  · simpa [Piece.comments, silent, commentLines] using (lexes_margin (depth + 1) (h (depth + 1) _ _ lexed)).newline

end Lines

theorem lexes_lines {ts : List Page} (each : ∀ t ∈ ts, LexesLines base t ∧ t.label = []) (depth : Nat)
    (lexed : LexesOn base rest more) :
    LexesOn base ((String.join ((ts.map piece).map fun p => p.line depth)).toList ++ rest)
      (((ts.map Tree.asWritten).map phrase).flatMap Phrase.line ++ more) := by
  induction ts with
  | nil => exact lexed
  | cons t ts ih =>
    obtain ⟨⟨here, silent⟩, others⟩ := forall_mem_cons.mp each
    simpa using lexes_line here silent depth (ih others)

theorem lexes_braces {lines : String} {ws : List Token}
    (inside : ∀ rest more, LexesOn base rest more → LexesOn base (lines.toList ++ rest) (ws ++ more)) (depth : Nat)
    (lexed : LexesOn base rest more) : LexesOn base ((braces lines depth).toList ++ rest) (braced ws ++ more) := by
  have closed := lexes_margin depth (lexed.lone "\x7d" (by decide))
  have whole := (inside _ _ closed).newline.lone "\x7b" (by decide)
  simpa [braces, braced, sign] using whole

theorem heads_branch (p : Piece) (depth : Nat) (rest : List Char) :
    Heads endsName ((branch p depth).toList ++ rest) := by
  unfold branch
  split
  all_goals
    simp only [String.toList_append, append_assoc]
    exact .cons (by decide)

theorem heads_elseText (p : Piece) (depth : Nat) (rest : List Char) :
    Heads endsName ((elseText p depth).toList ++ rest) := by
  unfold elseText
  split
  · rw [String.toList_append, append_assoc]
    exact .cons (by decide)
  · exact heads_branch p depth rest

/-- What stands between a branch and a keyword is blank. -/
theorem lexes_behindBranch (closed : Bool) (depth : Nat)
    (lexed : LexesOn base rest more) : LexesOn base ((behindBranch closed depth).toList ++ rest) more := by
  cases closed with
  | true => simpa [behindBranch] using lexed.space
  | false => simpa [behindBranch] using (lexes_margin depth lexed).newline

/-- The statement in front of an `else`. -/
theorem lexes_thenText (h : LexesLines base t) (silent : t.label = []) (depth : Nat)
    (lexed : LexesOn base rest more) : LexesOn base ((thenText (piece t) depth).toList ++ rest)
      ((phrase (thenAsWritten t.asWritten)).line ++ more) := by
  unfold thenText thenAsWritten
  rw [tree_piece, endsWithOpenIf_asWritten]
  split
  · rw [line_phrase rfl]
    have inside : ∀ rest more, LexesOn base rest more →
        LexesOn base (((piece t).line (depth + 1)).toList ++ rest) ((phrase t.asWritten).line ++ more) :=
      fun _ _ => lexes_line h silent (depth + 1)
    have whole := (lexes_braces inside depth (lexes_behindBranch true depth lexed)).space
    simpa [words_node, nodePhrase, statementWords, Kind.map, angles] using whole
  · have whole := lexes_branch h silent depth (lexes_behindBranch ((piece t).variant == .block) depth lexed)
    simpa using whole

theorem lexes_elseText (h : LexesLines base t) (silent : t.label = []) (depth : Nat) (lexed : LexesOn base rest more) :
    LexesOn base ((elseText (piece t) depth).toList ++ rest) ((phrase t.asWritten).line ++ more) := by
  unfold elseText
  split
  · rw [line_phrase (by simpa using silent)]
    simpa using (h depth _ _ lexed).space
  · exact lexes_branch h silent depth lexed

theorem lexes_semicolon (lexed : LexesOn base rest more) : LexesOn base (';' :: rest) (sign ";" :: more) :=
  lexed.lone ";" (by decide)

/-! ## Heads -/

theorem lexes_condition (keyword : String) (isKeyword : isName keyword) {c : Page}
    (e : IsExpression Clear .operand c) (depth : Nat) (lexed : LexesOn base rest more) :
    LexesOn base ((keyword ++ " (" ++ (piece c).text depth ++ ")").toList ++ rest)
      (headWords keyword (phrase c) ++ more) := by
  have inside := lexes_expression e depth _ _ (.separator (.cons (by decide))) (lexes_close lexed)
  have whole := (inside.lone "(" (by decide)).space.name keyword isKeyword (.cons (by decide))
  simpa [headWords, nameWord, sign] using whole

theorem lexes_variable {name : String} (isName : isIdentifier name) (ms : Modifiers) {type : Page}
    (isType : IsType .plain type) (depth : Nat) (stop : Heads endsName rest) (lexed : LexesOn base rest more) :
    LexesOn base ((localText name ms (piece type) none depth).toList ++ rest)
      (localWords name ms (phrase type) none ++ more) := by
  have named := (lexed.name name (isName_of_isIdentifier isName) stop).space
  have typed := spells_typeWords isType depth _ _ (.cons (by decide)) named
  simpa [localText, localWords, declaratorText, declaratorWords, nameWord] using lexes_modifiers ms typed

theorem binding_piece (cs : List Comment) (name : String) (ms : Modifiers) (type : Page) :
    (piece (.node cs (.localVariable name ms type none))).binding = localText name ms (piece type) none := by
  rw [piece_node]
  rfl

theorem lexes_spacedOption {t : Option Page} (e : ∀ u ∈ t, IsExpression Clear .operand u) (depth : Nat)
    (stop : Heads separates rest) (lexed : LexesOn base rest more) :
    LexesOn base ((spacedList (t.map piece).toList depth).toList ++ rest)
      ((t.map phrase).toList.flatMap Phrase.words ++ more) := by
  cases t with
  | none => exact lexed
  | some t => simpa [spacedList, Piece.list] using (lexes_expression (e t rfl) depth _ _ (.separator stop) lexed).space

/-! ## Statements -/

attribute [local simp] text_node words_node nodeText nodePhrase statementPart statementWords Kind.map angles
  Tree.asWritten_node kindAsWritten nameWord sign

/-- The text of a statement without comments is made of the words of the statement that it tells. -/
theorem lexes_branching {ok : Page → Prop} (h : IsBranching ok t) : LexesLines base t := by
  induction h with intro depth rest more lexed
  | block inner ih =>
    have lines := lexes_braces (fun rest more => lexes_lines (fun t mem => ⟨ih t mem, (inner t mem).silent⟩)
      (depth + 1)) depth lexed
    simpa [blockText] using lines
  | ifThen e body ih =>
    have below := lexes_branch ih body.silent depth lexed
    simpa [e.asWritten_eq] using lexes_condition "if" (by decide) e depth below
  | ifElse e first second _ ih ih' =>
    have last := (lexes_elseText ih' second.silent depth lexed).name "else" (by decide) (heads_elseText _ depth rest)
    have below := lexes_thenText ih first.silent depth last
    simpa [e.asWritten_eq] using lexes_condition "if" (by decide) e depth below
  | whileLoop e body ih =>
    have below := lexes_branch ih body.silent depth lexed
    simpa [e.asWritten_eq] using lexes_condition "while" (by decide) e depth below
  | @doWhile _ body isBody e ih =>
    have last := lexes_condition "while" (by decide) e depth (lexes_semicolon lexed)
    have below := lexes_branch ih isBody.silent depth (lexes_behindBranch ((piece body).variant == .block) depth last)
    simpa [e.asWritten_eq] using below.name "do" (by decide) (heads_branch _ depth _)
  | forLoop e body ih =>
    have below := lexes_close (lexes_branch ih body.silent depth lexed)
    have tested := lexes_spacedOption e depth (.cons (by decide)) (lexes_semicolon below)
    have whole := ((lexes_semicolon tested).lone "(" (by decide)).space.name "for" (by decide) (.cons (by decide))
    simpa [initText, initWords, spacedList, Phrase.listed, Phrase.joined, option_asWritten_eq e] using whole
  | @forEach name ms type _ _ isName _ isType e body ih =>
    have below := lexes_close (lexes_branch ih body.silent depth lexed)
    have inside := lexes_expression e depth _ _ (.separator (.cons (by decide))) below
    have element := lexes_variable isName ms isType depth (.cons (by decide)) (inside.spaced ":" (by decide)).space
    have whole := (element.lone "(" (by decide)).space.name "for" (by decide) (.cons (by decide))
    simpa [e.asWritten_eq, isType.asWritten_eq, binding_piece, binding_phrase] using whole
  | expression e =>
    simpa [e.asWritten_eq] using lexes_expression e depth _ _ (.separator (.cons (by decide))) (lexes_semicolon lexed)
  | @returnStmt value e =>
    have ended := lexes_semicolon lexed
    cases value with
    | none => simpa using ended.name "return" (by decide) (.cons (by decide))
    | some value =>
      have inside := lexes_expression (e value rfl) depth _ _ (.separator (.cons (by decide))) ended
      simpa [(e value rfl).asWritten_eq] using inside.space.name "return" (by decide) (.cons (by decide))
  | breakStmt =>
    simpa [jumpText, jumpWords] using (lexes_semicolon lexed).name "break" (by decide) (.cons (by decide))
  | continueStmt =>
    simpa [jumpText, jumpWords] using (lexes_semicolon lexed).name "continue" (by decide) (.cons (by decide))
  | empty =>
    simpa using lexes_semicolon lexed

end JavaEdit.Layout
