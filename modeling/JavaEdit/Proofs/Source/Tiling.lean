import JavaEdit.Proofs.Source.Cutting

/-!
# Tokens tile the text

Every character of a text belongs to a token or to the gap in front of one. `Tiling` says so without the
lexer: where a token stands is told by the characters in front of it (`Location.behind`), and what a gap holds by
the rules for blanks and comments (`Separates`). The lexer carries its place along from piece to piece; that it never
loses it is `tiles_of_run`, by induction over its steps. Every text that has tokens is made of them, with blanks and
comments between them (`lexes_of_tokenize`); a text without tokens is refused at a place in it.
-/

namespace JavaEdit

open List

variable {cs : List Char}

/-! ## Places -/

/-- Bytes that some characters take in a text. -/
def bytes (cs : List Char) : Nat := (String.ofList cs).utf8ByteSize

@[simp] theorem bytes_append (cs ds : List Char) : bytes (cs ++ ds) = bytes cs + bytes ds := by
  simp [bytes]

/-- The place behind the first characters of a text: lines are counted by the ends of lines among them, columns by
the characters behind the last of these. -/
def Location.behind (cs : List Char) : Location :=
  ⟨bytes cs, 1 + cs.count '\n', 1 + (cs.reverse.takeWhile (· != '\n')).length⟩

@[simp] theorem Location.offset_behind (cs : List Char) : (behind cs).offset = bytes cs := rfl

theorem Location.next_behind (cs : List Char) (c : Char) : (behind cs).next c = behind (cs ++ [c]) := by
  have size : bytes [c] = c.utf8Size := by simp [bytes]
  unfold next behind
  rw [bytes_append, size, count_append, reverse_append, reverse_singleton, singleton_append]
  by_cases newline : c = '\n'
  · subst newline
    simp
    omega
  · rw [if_neg (by simpa using newline), takeWhile_cons_of_pos (by simpa using newline)]
    simp [newline]
    omega

theorem Location.after_behind (cs ds : List Char) : (behind cs).after ds = behind (cs ++ ds) := by
  induction ds generalizing cs with
  | nil => rw [append_nil]; rfl
  | cons d ds ih =>
    show ((behind cs).next d).after ds = _
    rw [next_behind, ih, append_assoc, singleton_append]

/-! ## Gaps -/

namespace Lexer

variable {failure : Failure}

theorem Separates.append {gap more rest : List Char} {comments others : List Comment}
    (h : Separates (more ++ rest) gap comments) (h' : Separates rest more others) :
    Separates rest (gap ++ more) (comments ++ others) := by
  induction h with
  | none => exact h'
  | blank isBlank _ ih => exact .blank isBlank ih
  | line noEnd last returns ends _ ih =>
    rw [append_assoc]
    exact .line noEnd last returns (by rwa [append_assoc]) ih
  | block noClose notDoc _ ih =>
    rw [append_assoc]
    exact .block noClose notDoc ih
  | javadoc noClose notEmpty _ ih =>
    rw [append_assoc]
    exact .javadoc noClose notEmpty ih

/-! ## Operators -/

/-- An operator in front of a text than which none is longer. -/
structure IsLongest (op : String) (cs : List Char) : Prop where
  known : op ∈ Token.operators
  here : op.toList <+: cs
  longest : ∀ other ∈ Token.operators, other.toList <+: cs → other.length ≤ op.length

theorem operators_descend : Token.operators.Pairwise fun a b => b.length ≤ a.length := by decide

theorem isLongest_of_scanOperator {piece : Piece} (h : scanOperator cs = .ok piece)
    (isOperator : piece.kind = .operator) : IsLongest (String.ofList piece.text) cs := by
  unfold scanOperator at h
  split at h
  · rename_i text rest first
    cases h
    obtain ⟨front, op, back, list, matched, others⟩ := List.findSome?_eq_some_iff.mp first
    obtain ⟨rest', after, same⟩ := Option.map_eq_some_iff.mp matched
    cases same
    rw [String.ofList_toList]
    refine ⟨by simp [list], ⟨rest, (afterPrefix?_eq_some after).symm⟩, fun other known here => ?_⟩
    have ordered := operators_descend
    rw [list, pairwise_append, pairwise_cons] at ordered
    rw [list] at known
    rcases mem_append.mp known with before | mem
    · -- what stands in front of it in the list does not fit
      obtain ⟨rest', rfl⟩ := here
      have none := others other before
      rw [afterPrefix?_append] at none
      cases none
    · rcases mem_cons.mp mem with rfl | behind
      · exact Nat.le_refl _
      · exact ordered.2.1.1 other behind
  · split at h
    · cases h
    · cases h
      cases isOperator

/-- Operators are as long as they can be, and keywords are in their list. -/
theorem Scans.known {kind : TokenKind} {text rest : List Char} (h : Scans kind text rest) :
    (kind = .operator → IsLongest (String.ofList text) (text ++ rest)) ∧
      (kind = .keyword → String.ofList text ∈ Token.keywords) := by
  obtain ⟨c, more, rfl⟩ := exists_cons_of_ne_nil h.nonempty
  cases found_of_scanToken h.found with
  | name _ same =>
    injection same with kind text
    split at kind <;> subst kind
    · rename_i known
      rw [text] at known
      exact ⟨nofun, fun _ => contains_iff_mem.mp known⟩
    · exact ⟨nofun, nofun⟩
  | number _ _ found =>
    have isNumber : kind ∈ _ := (cuts_scanNumber found).numeral.kind
    constructor <;> rintro rfl <;> exact absurd isNumber (by decide)
  | string _ _ found | character _ found =>
    obtain ⟨-, rfl, -⟩ := body_of_scanQuoted found
    exact ⟨nofun, nofun⟩
  | operator found =>
    obtain ⟨-, -, rfl, -⟩ := operator_of_scanOperator found
    exact ⟨fun _ => isLongest_of_scanOperator found rfl, nofun⟩

/-! ## Tilings -/

/-- Behind the characters `before` a text goes on with gaps and tokens up to its end. -/
inductive Tiles : List Char → List Char → List Token → Prop
  | done {before gap : List Char} {comments : List Comment} : Separates [] gap comments →
      Tiles before gap [⟨.eof, "", .behind (before ++ gap), bytes (before ++ gap), comments⟩]
  | token {before gap text rest : List Char} {comments : List Comment} {kind : TokenKind} {ts : List Token} :
      Separates (text ++ rest) gap comments → Scans kind text rest → Tiles (before ++ gap ++ text) rest ts →
      Tiles before (gap ++ (text ++ rest))
        (⟨kind, String.ofList text, .behind (before ++ gap), bytes (before ++ gap ++ text), comments⟩ :: ts)

/-- The tokens of a text, each in its place. -/
structure Tiling (text : String) (ts : List Token) : Prop where
  /-- Every token is a piece of the text. In front of it stands the end of the token before it, or the front of
  the text, and a gap that holds its comments. -/
  placed : ∀ front t back, ts = front ++ t :: back → ∃ before gap after,
    text.toList = before ++ gap ++ t.text.toList ++ after ∧
    bytes before = front.getLast?.elim 0 Token.stop ∧
    t.start = Location.behind (before ++ gap) ∧
    t.stop = bytes (before ++ gap ++ t.text.toList) ∧
    Separates (t.text.toList ++ after) gap t.comments ∧
    (t.kind = .operator → IsLongest t.text (t.text.toList ++ after))
  ordered : ts.Pairwise fun t u => t.start.offset ≤ t.stop ∧ t.stop ≤ u.start.offset
  nonempty : ∀ t ∈ ts, t.kind ≠ .eof → t.text ≠ ""
  ended : ∃ front last, ts = front ++ [last] ∧ (∀ t ∈ front, t.kind ≠ .eof) ∧ last.kind = .eof ∧ last.text = "" ∧
    last.stop = text.utf8ByteSize

namespace Tiles

variable {before : List Char} {ts : List Token}

theorem le_start (h : Tiles before cs ts) : ∀ t ∈ ts, bytes before ≤ t.start.offset := by
  induction h with
  | done =>
    intro t mem
    rw [mem_singleton.mp mem]
    simp
  | @token before gap text rest comments kind ts _ _ _ ih =>
    intro t mem
    rcases mem_cons.mp mem with rfl | later
    · simp
    · have := ih t later
      simp only [bytes_append] at this
      omega

theorem ordered (h : Tiles before cs ts) :
    ts.Pairwise fun t u => t.start.offset ≤ t.stop ∧ t.stop ≤ u.start.offset := by
  induction h with
  | done => exact pairwise_singleton ..
  | token _ _ rest ih => exact pairwise_cons.mpr ⟨fun u later =>
    ⟨by simp, rest.le_start u later⟩, ih⟩

theorem nonempty (h : Tiles before cs ts) : ∀ t ∈ ts, t.kind ≠ .eof → t.text ≠ "" := by
  induction h with
  | done =>
    intro t mem notEnd
    rw [mem_singleton.mp mem] at notEnd
    exact absurd rfl notEnd
  | token _ scans _ ih =>
    refine forall_mem_cons.mpr ⟨fun _ => ?_, ih⟩
    simpa using scans.nonempty

theorem ended (h : Tiles before cs ts) : ∃ front last, ts = front ++ [last] ∧ (∀ t ∈ front, t.kind ≠ .eof) ∧
    last.kind = .eof ∧ last.text = "" ∧ last.stop = bytes (before ++ cs) := by
  induction h with
  | done => exact ⟨[], _, rfl, nofun, rfl, rfl, rfl⟩
  | token _ scans _ ih =>
    obtain ⟨front, last, rfl, others, isEnd, empty, stop⟩ := ih
    refine ⟨_ :: front, last, rfl, forall_mem_cons.mpr ⟨scans.notEnd, others⟩, isEnd, empty, ?_⟩
    simpa only [append_assoc] using stop

theorem placed (h : Tiles before cs ts) (front : List Token) (t : Token) (back : List Token)
    (list : ts = front ++ t :: back) : ∃ passed gap after, before ++ cs = passed ++ gap ++ t.text.toList ++ after ∧
      bytes passed = front.getLast?.elim (bytes before) Token.stop ∧ t.start = Location.behind (passed ++ gap) ∧
      t.stop = bytes (passed ++ gap ++ t.text.toList) ∧ Separates (t.text.toList ++ after) gap t.comments ∧
      (t.kind = .operator → IsLongest t.text (t.text.toList ++ after)) := by
  induction h generalizing front with
  | @done before gap comments separates =>
    obtain ⟨rfl, rfl, -⟩ : front = [] ∧ t = _ ∧ back = [] := by
      cases front with
      | nil => simpa [eq_comm] using list
      | cons => simp at list
    exact ⟨before, gap, [], by simp, rfl, rfl, by simp, by simpa using separates, nofun⟩
  | @token before gap text rest comments kind ts separates scans _ ih =>
    cases front with
    | nil =>
      obtain ⟨rfl, -⟩ := List.cons.inj list
      refine ⟨before, gap, rest, by simp, rfl, rfl, by simp, by simpa using separates, ?_⟩
      rintro rfl
      simpa using scans.known.1 rfl
    | cons first front =>
      obtain ⟨rfl, later⟩ := List.cons.inj list
      obtain ⟨passed, gap', after, tiles, stop, rest⟩ := ih front later
      refine ⟨passed, gap', after, by simpa using tiles, ?_, rest⟩
      rw [stop, List.getLast?_cons]
      cases front.getLast? <;> rfl

end Tiles

/-! ## The run of the lexer -/

/-- A failure is located behind characters of the text, and steps are never wanting. -/
structure Failure.At (failure : Failure) (cs : List Char) : Prop where
  here : failure.read <+: cs
  cause : failure.cause ≠ .outOfSteps

theorem at_of_scanRadix {marker : List Char} {accept : Char → Bool}
    (h : scanRadix marker accept cs = .error failure) : failure.At (marker ++ cs) := by
  have here : ∀ p : Char → Bool, marker ++ cs.takeWhile p <+: marker ++ cs := fun p =>
    (prefix_append_right_inj _).mpr ( takeWhile_prefix p)
  unfold scanRadix at h
  dsimp only at h
  split at h
  · cases h
    exact ⟨here _, nofun⟩
  · split at h
    · cases h
      exact ⟨here _, nofun⟩
    · cases h

theorem at_of_scanDecimal (h : scanDecimal cs = .error failure) : failure.At cs := by
  cases fractionSplit : splitFraction (cs.dropWhile isSpacedDigit) with
  | mk fraction behind =>
  cases markSplit : splitExponentMark behind with
  | mk mark after =>
  cases powerSplit : splitPower mark after with
  | mk power rest =>
  rw [scanDecimal_eq rfl fractionSplit markSplit powerSplit] at h
  split at h
  · cases h
    refine ⟨⟨rest, ?_⟩, nofun⟩
    conv => rhs; rw [← takeWhile_append_dropWhile (p := isSpacedDigit) (l := cs)]
    rw [(fraction_of_splitFraction fractionSplit).1, (mark_of_splitExponentMark markSplit).1,
      splitPower_append powerSplit]
    simp only [append_assoc]
  · cases h

theorem at_of_scanNumber (h : scanNumber cs = .error failure) : failure.At cs := by
  unfold scanNumber at h
  split at h
  · split at h
    · exact at_of_scanRadix h
    · split at h
      · exact at_of_scanRadix h
      · exact at_of_scanDecimal h
  · exact at_of_scanDecimal h

theorem at_of_scanQuoted {kind : TokenKind} {quote : Char} {cause : Cause} {ds : List Char}
    (h : scanQuoted kind quote cause cs = .error failure) (known : cause ≠ .outOfSteps) : failure.At ds := by
  unfold scanQuoted at h
  split at h
  · cases h
  · cases h
    exact ⟨ nil_prefix, known⟩

theorem at_of_scanToken (h : scanToken cs = .error failure) : failure.At cs := by
  unfold scanToken at h
  split at h
  · cases h
  · split at h
    · cases h
    · split at h
      · exact at_of_scanNumber h
      · split at h
        · split at h
          · cases h
            exact ⟨ nil_prefix, nofun⟩
          · exact at_of_scanQuoted h nofun
        · split at h
          · exact at_of_scanQuoted h nofun
          · unfold scanOperator at h
            split at h
            · cases h
            · cases h
              exact ⟨ nil_prefix, nofun⟩

theorem at_of_scanGap? (h : scanGap? cs = some (.error failure)) : failure.At cs := by
  unfold scanGap? at h
  split at h
  · cases h
  · replace h := Option.some.inj h
    unfold scanBlockComment at h
    dsimp only at h
    split at h
    · cases h
      exact ⟨ nil_prefix, nofun⟩
    · cases h
  · split at h
    · cases h
    · cases h
  · cases h

/-- A text is refused at a place in it, and not for want of steps. -/
structure Refused (file : String) (cs : List Char) (e : ParseError) : Prop where
  file : e.file = file
  cause : e.cause ≠ .outOfSteps
  place : ∃ before after, cs = before ++ after ∧ e.location = .behind before

theorem Failure.At.refused {before : List Char} (h : failure.At cs) (file : String) :
    Refused file (before ++ cs) ⟨file, (Location.behind before).after failure.read, failure.cause⟩ := by
  obtain ⟨⟨after, rfl⟩, cause⟩ := h
  exact ⟨rfl, cause, before ++ failure.read, after, (append_assoc ..).symm, Location.after_behind ..⟩

/-- The lexer has come through the tokens in front of `before` and behind them through a gap. What it finds tiles the
gap and the rest of the text. -/
theorem tiles_of_run (file : String) {fuel : Nat} (before gap : List Char) (pending : List Comment)
    (found : List Token) (separates : Separates cs gap pending.reverse) (enough : cs.length < fuel) :
    match run file fuel (.behind (before ++ gap)) pending found cs with
    | .ok ts => ∃ new ws, ts = found.reverse ++ new ∧ Tiles before (gap ++ cs) new ∧ Lexes cs ws ∧
        new.map Token.plain = leading pending.reverse ws
    | .error e => Refused file (before ++ gap ++ cs) e := by
  induction fuel generalizing before gap pending found cs with
  | zero => omega
  | succ fuel ih =>
    rw [run]
    cases isGap : scanGap? cs with
    | some outcome =>
      cases outcome with
      | error failure => exact (at_of_scanGap? isGap).refused file
      | ok more =>
        obtain ⟨tiles, nonempty, single, inside⟩ := separates_of_scanGap? isGap
        have shorter := length_pos_iff.mpr nonempty
        have longer : Separates more.rest (gap ++ more.text) (more.comment.toList ++ pending).reverse := by
          have both := (tiles ▸ separates).append inside
          rwa [reverse_append, show more.comment.toList.reverse = more.comment.toList by
            cases more.comment <;> rfl]
        have next := ih before (gap ++ more.text) _ found longer (by rw [tiles, length_append] at enough; omega)
        dsimp only
        rw [Location.after_behind, append_assoc]
        generalize run file fuel _ _ found more.rest = outcome at next ⊢
        obtain ⟨text, comment, rest⟩ := more
        subst tiles
        cases outcome with
        | error e => simpa only [append_assoc] using next
        | ok ts =>
          obtain ⟨new, ws, all, tiled, lexes, plain⟩ := next
          rw [append_assoc] at tiled
          cases comment with
          | none =>
            obtain ⟨c, rfl⟩ := single rfl
            exact ⟨new, ws, all, tiled, .blank isGap lexes, plain⟩
          | some c =>
            obtain ⟨w, ws, rfl⟩ := exists_cons_of_ne_nil lexes.ne_nil
            refine ⟨new, w.led [c] :: ws, all, tiled, .comment nonempty isGap lexes, plain.trans ?_⟩
            simp [leading, Token.led]
    | none =>
      cases scanned : scanToken cs with
      | error failure => exact (at_of_scanToken scanned).refused file
      | ok piece =>
        cases cs with
        | nil =>
          cases scanned
          refine ⟨_, _, by rw [reverse_cons], ?_, .done, by simp [leading, Token.plain, Token.led, word]⟩
          rw [append_nil]
          exact .done separates
        | cons c cs =>
          obtain ⟨cuts, nonempty, notEnd⟩ := cuts_scanToken scanned
          have shorter := length_pos_iff.mpr nonempty
          have tiles := cuts.tiles
          have scans : Scans piece.kind piece.text piece.rest := ⟨nonempty, tiles ▸ isGap, tiles ▸ scanned, notEnd⟩
          have next := ih (before ++ gap ++ piece.text) [] []
            (⟨piece.kind, String.ofList piece.text, .behind (before ++ gap),
              bytes (before ++ gap ++ piece.text), pending.reverse⟩ :: found)
            (.none : Separates piece.rest [] []) (by rw [tiles, length_append] at enough; omega)
          dsimp only
          rw [if_neg (by simpa using notEnd), Location.after_behind]
          rw [append_nil] at next
          rw [Location.offset_behind]
          generalize run file fuel _ _ _ piece.rest = outcome at next ⊢
          cases outcome with
          | error e =>
            rw [tiles]
            simpa only [append_assoc] using next
          | ok ts =>
            obtain ⟨new, ws, all, rest, lexes, plain⟩ := next
            refine ⟨_ :: new, word piece.kind (String.ofList piece.text) :: ws,
              by rw [all, reverse_cons, append_assoc]; rfl, ?_, tiles ▸ .token scans lexes, ?_⟩
            · rw [tiles]
              exact .token (tiles ▸ separates) scans rest
            · rw [map_cons, plain]
              cases ws <;> simp [leading, Token.plain, Token.led, word]

end Lexer

/-- A text is tiled by its tokens and made of them, or refused. -/
theorem outcome_of_tokenize (file text : String) : match tokenize file text with
    | .ok ts => Lexer.Tiles [] text.toList ts ∧ Lexer.Lexes text.toList (ts.map Token.plain)
    | .error e => Lexer.Refused file text.toList e := by
  have outcome := Lexer.tiles_of_run file [] [] [] [] (.none : Lexer.Separates text.toList [] []) (Nat.lt_succ_self _)
  change match tokenize file text with | .ok _ => _ | .error _ => _ at outcome
  generalize tokenize file text = result at outcome ⊢
  cases result with
  | error e => exact outcome
  | ok ts =>
    obtain ⟨new, ws, rfl, tiles, lexes, plain⟩ := outcome
    obtain ⟨w, ws, rfl⟩ := exists_cons_of_ne_nil lexes.ne_nil
    refine ⟨tiles, ?_⟩
    rw [plain]
    simpa [leading, Token.led] using lexes

/-- A text that has tokens is made of them, with blanks and comments between them. -/
theorem lexes_of_tokenize {file text : String} {ts : List Token} (h : tokenize file text = .ok ts) :
    Lexer.Lexes text.toList (ts.map Token.plain) := by
  have outcome := outcome_of_tokenize file text
  rw [h] at outcome
  exact outcome.2

/-- The tokens of a text tile it, exactly if it can be cut into blanks, comments and tokens; every other text is refused
at a place in it. -/
theorem tokens_tile_the_text (file text : String) : ((∃ ts, tokenize file text = .ok ts ∧ Lexer.Tiling text ts) ∨
      ∃ e, tokenize file text = .error e ∧ Lexer.Refused file text.toList e) ∧
    ((∃ ts, tokenize file text = .ok ts) ↔ ∃ ws, Lexer.Lexes text.toList ws) := by
  refine ⟨?_, fun ⟨ts, tokens⟩ => ⟨_, lexes_of_tokenize tokens⟩, fun ⟨ws, lexes⟩ => ?_⟩
  · have outcome := outcome_of_tokenize file text
    cases tokens : tokenize file text with
    | error e =>
      rw [tokens] at outcome
      exact .inr ⟨e, rfl, outcome⟩
    | ok ts =>
      rw [tokens] at outcome
      obtain ⟨tiles, -⟩ := outcome
      refine .inl ⟨_, rfl, tiles.placed, tiles.ordered, tiles.nonempty, ?_⟩
      simpa [bytes] using tiles.ended
  · obtain ⟨ts, tokens, -⟩ := tokenize_of_lexes lexes file
    exact ⟨ts, tokens⟩

end JavaEdit
