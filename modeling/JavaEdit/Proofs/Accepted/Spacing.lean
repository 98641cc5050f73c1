import JavaEdit.Proofs.Accepted.Equality
import JavaEdit.Proofs.Parser.Wording

/-!
# Layout does not matter

The tokens of a text can be written apart, with blanks and whole comments between them. What comes out
has the same words (`lexes_of_spaced`), because a token that is cut out of its text and put in front of
a blank is the same token (`Scans.spaced`). And parsers see words only, so it is accepted as what the
first text was accepted as, with a structurally equal tree (`layout_does_not_matter`).
-/

namespace JavaEdit

open List

/-! ## Gaps -/

/-- Blanks and whole comments, one after the other. A line comment is whole with the end of its line,
a block comment with the first `*/` behind its opening. -/
inductive Filler : List Char → Prop
  | nil : Filler []
  | blank {c : Char} {cs : List Char} : Text.isBlank c = true → Filler cs → Filler (c :: cs)
  | line (body : List Char) {cs : List Char} : '\n' ∉ body → Filler cs → Filler ('/' :: '/' :: (body ++ '\n' :: cs))
  | block (body : List Char) {cs : List Char} : closesComment body = false → Filler cs →
      Filler ('/' :: '*' :: (body ++ '*' :: '/' :: cs))

/-- What keeps two tokens apart: a blank, and more blanks and comments behind it. -/
structure IsGap (cs : List Char) : Prop where
  filler : Filler cs
  blank : Heads Text.isBlank cs
  nonempty : cs ≠ []

/-- Words one after the other, with a gap between any two of them. There may be one at the end, too. -/
inductive Spaced : List String → List Char → Prop
  | none : Spaced [] []
  | last (word : String) : Spaced [word] word.toList
  | cons (word : String) {words : List String} {gap cs : List Char} : IsGap gap → Spaced words cs →
      Spaced (word :: words) (word.toList ++ (gap ++ cs))

namespace Lexer

variable {body cs : List Char}

theorem closesComment_tail {c : Char} (h : closesComment (c :: cs) = false) : closesComment cs = false := by
  unfold closesComment at h
  split at h
  · cases h
  · rename_i same
    cases same
    exact h
  · rename_i same
    cases same

theorem not_closed_of_star {rest after : List Char} (h : closesComment ('*' :: cs) = false) :
    cs ++ '*' :: rest ≠ '/' :: after := by
  intro same
  cases cs with
  | nil => cases same
  | cons d cs =>
    cases same
    cases h

theorem splitBlock_append (open_ : closesComment body = false) (rest : List Char) :
    splitBlock (body ++ '*' :: '/' :: rest) = some (body, rest) := by
  induction body with
  | nil => rfl
  | cons c body ih =>
    have notEnd : ∀ after, c = '*' → body ++ '*' :: '/' :: rest = '/' :: after → False := by
      rintro after rfl
      exact not_closed_of_star open_
    rw [cons_append, splitBlock.eq_3 _ _ notEnd, ih (closesComment_tail open_)]
    rfl

theorem scanGap?_block (open_ : closesComment body = false) (rest : List Char) :
    ∃ c, scanGap? ('/' :: '*' :: (body ++ '*' :: '/' :: rest)) =
      some (.ok ⟨'/' :: '*' :: (body ++ ['*', '/']), some c, rest⟩) := by
  have split := splitBlock_append open_ rest
  show ∃ c, some (scanBlockComment _) = _
  unfold scanBlockComment
  cases body with
  | nil => exact ⟨_, rfl⟩
  | cons c body =>
    by_cases star : c = '*'
    · -- a documentation comment: the second star is not counted to its text
      subst star
      have inside := splitBlock_append (closesComment_tail open_) rest
      split
      · rename_i same
        exact absurd (cons.inj same).2 (not_closed_of_star open_)
      · dsimp only
        rw [if_pos rfl, cons_append, drop_one, tail_cons, inside]
        exact ⟨_, rfl⟩
      · rename_i other
        exact absurd rfl (other _)
    · split
      · rename_i same
        exact absurd (cons.inj same).1 star
      · rename_i same
        exact absurd (cons.inj same).1 star
      · dsimp only
        rw [if_neg Bool.false_ne_true, split]
        exact ⟨_, rfl⟩

theorem scanGap?_line (inLine : '\n' ∉ body) (rest : List Char) :
    ∃ c, scanGap? ('/' :: '/' :: (body ++ '\n' :: rest)) = some (.ok ⟨'/' :: '/' :: body, some c, '\n' :: rest⟩) := by
  have all : ∀ c ∈ body, (c != '\n') := by
    intro c mem
    rw [bne_iff_ne]
    rintro rfl
    exact inLine mem
  have ends : Heads (fun c => !(c != '\n')) ('\n' :: rest) := .cons rfl
  obtain ⟨take, drop⟩ := takeWhile_append_stop all ends
  rw [scanGap?, take, drop]
  exact ⟨_, rfl⟩

/-- Blanks and comments in front of a text give its first token some comments. -/
theorem lexes_of_filler {base : List Char → List Token → Prop} {gap : List Char} (filler : Filler gap)
    {w : Token} {ws : List Token} (h : LexesOn base cs (w :: ws)) :
    ∃ comments, LexesOn base (gap ++ cs) (w.led comments :: ws) := by
  induction filler with
  | nil => exact ⟨[], h⟩
  | @blank c gap isBlank _ ih =>
    obtain ⟨comments, lexes⟩ := ih
    refine ⟨comments, .blank ?_ lexes⟩
    have notSlash : c ≠ '/' := by
      rintro rfl
      cases isBlank
    unfold scanGap?
    split
    · rename_i same
      exact absurd (cons.inj same).1 notSlash
    · rename_i same
      exact absurd (cons.inj same).1 notSlash
    · rename_i same
      cases same
      rw [if_pos isBlank]
    · rename_i same
      cases same
  | @line body gap inLine _ ih =>
    obtain ⟨comments, lexes⟩ := ih
    obtain ⟨c, found⟩ := scanGap?_line inLine (gap ++ cs)
    have whole : LexesOn base (('/' :: '/' :: body) ++ '\n' :: (gap ++ cs)) _ :=
      .comment (cons_ne_nil _ _) found lexes.newline
    rw [led_led] at whole
    refine ⟨[c] ++ comments, ?_⟩
    simpa using whole
  | @block body gap open_ _ ih =>
    obtain ⟨comments, lexes⟩ := ih
    obtain ⟨c, found⟩ := scanGap?_block open_ (gap ++ cs)
    have tiles : body ++ '*' :: '/' :: (gap ++ cs) = (body ++ ['*', '/']) ++ (gap ++ cs) := by simp
    rw [tiles] at found
    have whole : LexesOn base (('/' :: '*' :: (body ++ ['*', '/'])) ++ (gap ++ cs)) _ :=
      .comment (cons_ne_nil _ _) found lexes
    rw [led_led] at whole
    refine ⟨[c] ++ comments, ?_⟩
    simpa using whole

/-! ## Words -/

theorem scanned_of_lexes {ws : List Token} (h : Lexes cs ws) :
    ∃ front last, ws = front ++ [last] ∧ last.bare = word .eof "" ∧
      ∀ w ∈ front, ∃ rest, Scans w.kind w.text.toList rest := by
  induction h with
  | base finished =>
    cases finished
    exact ⟨[], _, rfl, rfl, nofun⟩
  | blank _ _ ih => exact ih
  | @comment text cs c w ws _ _ _ ih =>
    obtain ⟨front, last, all, isEnd, scanned⟩ := ih
    cases front with
    | nil =>
      cases all
      exact ⟨[], w.led [c], rfl, isEnd, nofun⟩
    | cons t front =>
      cases all
      refine ⟨w.led [c] :: front, last, rfl, isEnd, ?_⟩
      rw [forall_mem_cons] at scanned ⊢
      exact scanned
  | @token kind text rest ws scans _ ih =>
    obtain ⟨front, last, rfl, isEnd, scanned⟩ := ih
    refine ⟨word kind (String.ofList text) :: front, last, rfl, isEnd, ?_⟩
    rw [forall_mem_cons]
    refine ⟨⟨rest, ?_⟩, scanned⟩
    show Scans kind (String.ofList text).toList rest
    rw [String.toList_ofList]
    exact scans

/-- Tokens that were found in some text are found again where they are written apart. -/
theorem lexes_of_spaced {words : List String} (h : Spaced words cs) :
    ∀ front : List Token, front.map Token.text = words → (∀ w ∈ front, ∃ rest, Scans w.kind w.text.toList rest) →
      ∃ ws, Lexes cs ws ∧ ws.map Token.bare = front.map Token.bare ++ [word .eof ""] := by
  induction h with
  | none =>
    intro front texts _
    rw [map_eq_nil_iff] at texts
    subst texts
    exact ⟨_, .done, rfl⟩
  | last text =>
    intro front texts scanned
    obtain ⟨w, rfl, rfl⟩ := map_eq_singleton_iff.mp texts
    obtain ⟨rest, scans⟩ := scanned w (.head _)
    have found := LexesOn.token (scans.spaced (heads_nil _)) Lexes.done
    rw [append_nil, String.ofList_toList] at found
    exact ⟨_, found, rfl⟩
  | @cons text words gap cs isGap _ ih =>
    intro front texts scanned
    obtain ⟨w, front, rfl, rfl, others⟩ := map_eq_cons_iff.mp texts
    rw [forall_mem_cons] at scanned
    obtain ⟨⟨rest, scans⟩, scanned⟩ := scanned
    obtain ⟨ws, lexes, bare⟩ := ih front others scanned
    obtain ⟨first, ws, rfl⟩ := exists_cons_of_ne_nil lexes.ne_nil
    obtain ⟨comments, filled⟩ := lexes_of_filler isGap.filler lexes
    -- the gap starts with a blank, so the word in front of it ends where it did
    have blank : Heads Text.isBlank (gap ++ cs) := by
      obtain ⟨c, gap, rfl⟩ := exists_cons_of_ne_nil isGap.nonempty
      exact isGap.blank
    have found := LexesOn.token (scans.spaced blank) filled
    rw [String.ofList_toList] at found
    exact ⟨_, found, congrArg (w.bare :: ·) bare⟩

end Lexer

theorem tokenize_of_spaced {file text text' : String} {ts : List Token} (tokens : tokenize file text = .ok ts)
    (spaced : Spaced (ts.dropLast.map Token.text) text'.toList) (file' : String) :
    ∃ ts', tokenize file' text' = .ok ts' ∧ ts'.map Token.bare = ts.map Token.bare := by
  obtain ⟨front, last, all, isEnd, scanned⟩ := Lexer.scanned_of_lexes (lexes_of_tokenize tokens)
  have texts : front.map Token.text = ts.dropLast.map Token.text := by
    have plain : ts.dropLast.map Token.plain = front := by
      rw [map_dropLast, all, dropLast_concat]
    rw [← plain, map_map]
    rfl
  obtain ⟨ws, lexes, words⟩ := Lexer.lexes_of_spaced spaced front texts scanned
  obtain ⟨ts', tokens', plain'⟩ := tokenize_of_lexes lexes file'
  refine ⟨ts', tokens', ?_⟩
  rw [← Token.map_bare_plain ts', ← Token.map_bare_plain ts, plain', words, all, map_append, map_singleton, isEnd]

/-! ## Texts -/

/-- What a text can be read as. -/
inductive Entry where
  /-- A compilation unit, from a file with a name. -/
  | unit (file : String)
  | expression
  | block

namespace Entry

/-- Where errors say they are. -/
def file : Entry → String
  | unit file => file
  | expression => "<expression>"
  | block => "<block>"

def read (entry : Entry) (a : Arena) (text : String) : Except ParseError NodeId × Arena :=
  match entry with
  | unit file => a.readUnit file text
  | expression => a.readExpression text
  | block => a.readBlock text

variable {entry : Entry} {a b : Arena} {text : String} {id : NodeId}

theorem regular_of_read (accepted : entry.read a text = (.ok id, b)) : b.TreeAt (·.Every (Regular Made)) id := by
  cases entry with
  | unit file => exact (Arena.isUnit_of_readUnit accepted).mono fun _ => IsUnit.every_regular
  | expression => exact (Arena.isExpression_of_readExpression accepted).mono fun _ => IsExpression.every_regular
  | block => exact (Arena.isBlock_of_readBlock accepted).mono fun _ => IsStatement.every_regular

theorem read_of_words {text' : String} {ts ts' : List Token} (tokens : tokenize entry.file text = .ok ts)
    (tokens' : tokenize entry.file text' = .ok ts') (words : ts'.map Token.bare = ts.map Token.bare)
    (accepted : entry.read a text = (.ok id, b)) : ∃ b', entry.read a text' = (.ok id, b') ∧ b.Alike b' := by
  unfold read at accepted ⊢
  cases entry with
  | unit file =>
    unfold Arena.readUnit at accepted ⊢
    exact Parser.readWith_of_words (fun _ _ => inferInstance) tokens tokens' words accepted
  | expression =>
    unfold Arena.readExpression at accepted ⊢
    exact Parser.readWith_of_words (fun _ _ => inferInstance) tokens tokens' words accepted
  | block =>
    unfold Arena.readBlock at accepted ⊢
    exact Parser.readWith_of_words (fun _ _ => inferInstance) tokens tokens' words accepted

end Entry

/-- A text is accepted. Its tokens are written once more, in order, with a gap between any two of them
that starts with a blank and has any number of blanks and whole comments behind it. This gives tokens of
the same kinds, with the same texts, and it is accepted as what the first text was accepted as, with a
structurally equal tree. -/
theorem layout_does_not_matter {entry : Entry} {a b : Arena} {text text' : String} {id : NodeId}
    {ts : List Token} (accepted : entry.read a text = (.ok id, b)) (tokens : tokenize entry.file text = .ok ts)
    (spaced : Spaced (ts.dropLast.map Token.text) text'.toList) :
    (∃ ts', tokenize entry.file text' = .ok ts' ∧
      ts'.map (fun t => (t.kind, t.text)) = ts.map fun t => (t.kind, t.text)) ∧
    ∃ id' b', entry.read a text' = (.ok id', b') ∧ b.structurallyEqual id b' id' = true := by
  obtain ⟨ts', tokens', words⟩ := tokenize_of_spaced tokens spaced entry.file
  refine ⟨⟨ts', tokens', ?_⟩, ?_⟩
  · have pairs := congrArg (List.map fun t : Token => (t.kind, t.text)) words
    rw [List.map_map, List.map_map] at pairs
    exact pairs
  · obtain ⟨b', accepted', alike⟩ := Entry.read_of_words tokens tokens' words accepted
    refine ⟨id, b', accepted', ?_⟩
    rw [Arena.structurallyEqual_iff_bare (Entry.regular_of_read accepted) (Entry.regular_of_read accepted')]
    exact (alike.bare id).symm

/-- An expression without blanks. -/
def shiftedFraction : String := "x>>>-.5f"

/-- The same words apart, with comments of all kinds between them. -/
def shiftedFractionApart : String := "x /**//** a *//*/ b */ >>>\t- // minus\n .5f"

theorem layout_does_not_matter_shiftedFraction :
    ∃ id b, Entry.expression.read Arena.empty shiftedFractionApart = (.ok id, b) ∧
      (Entry.expression.read Arena.empty shiftedFraction).2.structurallyEqual 3 b id = true := by
  have words : (tokenize Entry.expression.file shiftedFraction).toOption.map
      (fun ts => ts.dropLast.map Token.text) = some ["x", ">>>", "-", ".5f"] := by decide +kernel
  cases tokens : tokenize Entry.expression.file shiftedFraction with
  | error e =>
    rw [tokens] at words
    cases words
  | ok ts =>
    rw [tokens] at words
    have texts : ts.dropLast.map Token.text = ["x", ">>>", "-", ".5f"] := Option.some.inj words
    have spaced : Spaced (ts.dropLast.map Token.text) shiftedFractionApart.toList := by
      rw [texts]
      have blocks : Filler " /**//** a *//*/ b */ ".toList :=
        .blank rfl (.block [] rfl (.block "* a ".toList rfl (.block "/ b ".toList rfl (.blank rfl .nil))))
      have line : Filler " // minus\n ".toList :=
        .blank rfl (.line " minus".toList (by decide) (.blank rfl .nil))
      have tab : Filler ['\t'] := .blank rfl .nil
      have apart : shiftedFractionApart.toList = "x".toList ++ (" /**//** a *//*/ b */ ".toList ++
          (">>>".toList ++ (['\t'] ++ ("-".toList ++ (" // minus\n ".toList ++ ".5f".toList))))) := by decide
      rw [apart]
      refine .cons "x" ⟨blocks, .cons rfl, by decide⟩ ?_
      refine .cons ">>>" ⟨tab, .cons rfl, by decide⟩ ?_
      exact .cons "-" ⟨line, .cons rfl, by decide⟩ (.last ".5f")
    exact (layout_does_not_matter (run_eq_of_toOption (by decide +kernel)) tokens spaced).2

end JavaEdit
