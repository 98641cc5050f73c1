import JavaEdit.Proofs.Source.Literals

/-!
# Tokens cut out of a text

Where a token ends depends on what follows it: digits and names go on, a point belongs to a number or
to the name behind it, and operators are as long as they can be. In front of a blank, and at the end
of a text, all that is settled. So a token that was found somewhere is found again when it is cut out
and something else is put behind it, if only a blank comes first (`Scans.spaced`).
-/

namespace JavaEdit

open List

variable {p : Char → Bool} {cs rest rest' : List Char}

theorem Heads.swap {front : List Char} (h : Heads p (front ++ rest))
    (h' : Heads p rest') : Heads p (front ++ rest') := by
  cases front with
  | nil => exact h'
  | cons => exact h

/-- Whether the end of a block comment stands among some characters. -/
def closesComment : List Char → Bool
  | '*' :: '/' :: _ => true
  | _ :: cs => closesComment cs
  | [] => false

theorem closesComment_iff : closesComment cs ↔ ['*', '/'] <:+: cs := by
  induction cs using closesComment.induct with
  | case1 cs => exact ⟨fun _ => ⟨[], cs, rfl⟩, fun _ => rfl⟩
  | case2 c cs notEnd ih =>
    rw [closesComment.eq_2 _ _ notEnd, ih, infix_cons_iff]
    refine ⟨.inr, fun found => found.resolve_left fun ⟨rest, here⟩ => ?_⟩
    cases here
    exact notEnd rest rfl rfl
  | case3 => simp [closesComment]

namespace Lexer

variable {c quote : Char} {mark : List Char} {piece : Piece} {ws : List Token}
variable {gap : Gap} {text : List Char}

theorem Heads.of_blank (blank : Heads Text.isBlank rest) : Heads (fun c => !isNamePart c) rest :=
  blank.mono fun c isBlank => by rw [not_isNamePart_of_isBlank isBlank]; rfl

/-- A character that is no blank does not stand in front of one. -/
theorem heads_ne_of_blank (blank : Heads Text.isBlank rest) {x : Char}
    (notBlank : Text.isBlank x = false) : Heads (fun c => c != x) rest :=
  blank.mono fun c isBlank => by
    rw [bne_iff_ne]
    rintro rfl
    rw [notBlank] at isBlank
    cases isBlank

/-! ## Numbers -/

theorem suffix_of_integerSuffix (text rest : List Char) : ∃ suffix kind after,
    IsIntegerSuffix suffix kind ∧ rest = suffix ++ after ∧ integerSuffix text rest = ⟨kind, text ++ suffix, after⟩ := by
  unfold integerSuffix
  split
  · rename_i c after
    split
    · rename_i isLong
      exact ⟨[c], _, after, .long (by simpa using isLong), rfl, rfl⟩
    · exact ⟨[], _, c :: after, .none, rfl, by rw [append_nil]⟩
  · exact ⟨[], _, [], .none, rfl, by rw [append_nil]⟩

theorem suffix_of_finishNumber (isReal : Bool) (text rest : List Char) : ∃ suffix kind after,
    IsSuffix isReal suffix kind ∧ rest = suffix ++ after ∧
      finishNumber isReal text rest = ⟨kind, text ++ suffix, after⟩ := by
  have plain : ∃ suffix kind after, IsSuffix isReal suffix kind ∧ rest = suffix ++ after ∧
      (if isReal then ⟨.doubleLiteral, text, rest⟩ else integerSuffix text rest) =
        (⟨kind, text ++ suffix, after⟩ : Piece) := by
    cases isReal with
    | true => exact ⟨[], _, rest, .none, rfl, by rw [append_nil]; rfl⟩
    | false =>
      obtain ⟨suffix, kind, after, isSuffix, tiles, found⟩ := suffix_of_integerSuffix text rest
      exact ⟨suffix, kind, after, .integer isSuffix, tiles, found⟩
  unfold finishNumber
  dsimp only
  split
  · rename_i c after
    split
    · rename_i isFloat
      exact ⟨[c], _, after, .float (by simpa using isFloat), rfl, rfl⟩
    · split
      · rename_i isDouble
        exact ⟨[c], _, after, .double (by simpa using isDouble), rfl, rfl⟩
      · exact plain
  · exact plain

theorem splitPower_append {power : List Char} (h : splitPower mark cs = (power, rest)) : cs = power ++ rest := by
  unfold splitPower at h
  split at h <;> cases h
  · rfl
  · exact takeWhile_append_dropWhile.symm

theorem fraction_of_splitFraction {fraction behind : List Char} (h : splitFraction cs = (fraction, behind)) :
    cs = fraction ++ behind ∧
      (fraction = [] ∨ ∃ places, fraction = '.' :: places ∧ ∀ c ∈ places, isSpacedDigit c) := by
  unfold splitFraction at h
  split at h
  · split at h
    · cases h
      refine ⟨by rw [cons_append, takeWhile_append_dropWhile], .inr ⟨_, rfl, ?_⟩⟩
      exact fun c mem => all_eq_true.mp all_takeWhile c mem
    · cases h
      exact ⟨rfl, .inl rfl⟩
  · cases h
    exact ⟨rfl, .inl rfl⟩

theorem mark_of_splitExponentMark {after : List Char} (h : splitExponentMark cs = (mark, after)) :
    cs = mark ++ after ∧ (mark = [] ∨ ∃ e, (e = 'e' ∨ e = 'E') ∧ (mark = [e] ∨ mark = [e, '+'] ∨ mark = [e, '-'])) := by
  unfold splitExponentMark at h
  split at h
  · split at h
    · rename_i isMark
      have letter := by simpa using isMark
      split at h
      · rename_i isSign
        cases h
        rcases (by simpa using isSign) with rfl | rfl
        · exact ⟨rfl, .inr ⟨_, letter, .inr (.inl rfl)⟩⟩
        · exact ⟨rfl, .inr ⟨_, letter, .inr (.inr rfl)⟩⟩
      · cases h
        exact ⟨rfl, .inr ⟨_, letter, .inl rfl⟩⟩
    · cases h
      exact ⟨rfl, .inl rfl⟩
  · split at h
    · rename_i isMark
      cases h
      exact ⟨rfl, .inr ⟨_, by simpa using isMark, .inl rfl⟩⟩
    · cases h
      exact ⟨rfl, .inl rfl⟩
  · cases h
    exact ⟨rfl, .inl rfl⟩

theorem parts_of_scanDecimal (h : scanDecimal cs = .ok piece) :
    ∃ (d : DecimalParts) (suffix : List Char), d.Valid ∧ IsSuffix d.isReal suffix piece.kind ∧
      piece.text = d.text ++ suffix ∧ cs = piece.text ++ piece.rest ∧ d.whole = cs.takeWhile isSpacedDigit ∧
      d.fraction = (splitFraction (cs.dropWhile isSpacedDigit)).1 := by
  cases fractionSplit : splitFraction (cs.dropWhile isSpacedDigit) with
  | mk fraction behind =>
  cases markSplit : splitExponentMark behind with
  | mk mark after =>
  cases powerSplit : splitPower mark after with
  | mk power rest =>
  obtain ⟨fractionText, fractionShape⟩ := fraction_of_splitFraction fractionSplit
  obtain ⟨markText, markShape⟩ := mark_of_splitExponentMark markSplit
  rw [scanDecimal_eq rfl fractionSplit markSplit powerSplit] at h
  split at h
  · cases h
  · rename_i present
    obtain ⟨suffix, kind, last, isSuffix, restText, finished⟩ := suffix_of_finishNumber
      (!(fraction.isEmpty && mark.isEmpty)) (cs.takeWhile isSpacedDigit ++ fraction ++ mark ++ power) rest
    rw [finished] at h
    cases h
    refine ⟨⟨cs.takeWhile isSpacedDigit, fraction, mark, power⟩, suffix, ⟨?_, ?_, ?_⟩, isSuffix, rfl, ?_, rfl, rfl⟩
    · exact fun c mem => all_eq_true.mp all_takeWhile c mem
    · exact fractionShape
    · rcases markShape with rfl | shape
      · unfold splitPower at powerSplit
        cases powerSplit
        exact .inl ⟨rfl, rfl⟩
      · refine .inr ⟨shape, ?_, ?_⟩
        · rintro rfl
          obtain ⟨e, -, rfl | rfl | rfl⟩ := shape <;> exact present rfl
        · unfold splitPower at powerSplit
          split at powerSplit
          · cases powerSplit
            nofun
          · cases powerSplit
            exact fun c mem => all_eq_true.mp all_takeWhile c mem
    · conv => lhs; rw [← takeWhile_append_dropWhile (p := isSpacedDigit) (l := cs)]
      rw [fractionText, markText, splitPower_append powerSplit, restText]
      simp only [append_assoc]

theorem parts_of_scanRadix {marker : List Char} {accept : Char → Bool}
    (h : scanRadix marker accept cs = .ok piece) : ∃ digits suffix,
      (∀ c ∈ digits, (accept c || c == '_')) ∧ digits.all (· == '_') = false ∧
      IsIntegerSuffix suffix piece.kind ∧ piece.text = marker ++ digits ++ suffix ∧
      marker ++ cs = piece.text ++ piece.rest := by
  unfold scanRadix at h
  dsimp only at h
  split at h
  · cases h
  · rename_i some
    split at h
    · cases h
    · obtain ⟨suffix, kind, after, isSuffix, tiles, found⟩ := suffix_of_integerSuffix
        (marker ++ cs.takeWhile fun c => accept c || c == '_') (cs.dropWhile fun c => accept c || c == '_')
      rw [found] at h
      cases h
      refine ⟨_, suffix, fun c mem => all_eq_true.mp all_takeWhile c mem, ?_, isSuffix, rfl, ?_⟩
      · simpa using some
      · conv => lhs; rw [← takeWhile_append_dropWhile (p := fun c => accept c || c == '_') (l := cs)]
        rw [tiles]
        simp only [append_assoc]

/-- The texts of numbers, and what they are. -/
inductive Numeral : List Char → TokenKind → Prop
  | decimal {d : DecimalParts} {suffix : List Char} {kind : TokenKind} : d.Valid →
      IsSuffix d.isReal suffix kind → Numeral (d.text ++ suffix) kind
  | radix {mark : Char} {accept : Char → Bool} {digits suffix : List Char} {kind : TokenKind} :
      (∀ rest, scanNumber ('0' :: mark :: rest) = scanRadix ['0', mark] accept rest) → IsRadixDigit accept →
      (∀ c ∈ digits, (accept c || c == '_') = true) → digits.all (· == '_') = false →
      IsIntegerSuffix suffix kind → Numeral ('0' :: mark :: digits ++ suffix) kind

theorem Numeral.kind {kind : TokenKind} (h : Numeral text kind) :
    kind ∈ [.intLiteral, .longLiteral, .floatLiteral, .doubleLiteral] := by
  cases h with
  | decimal _ isSuffix =>
    generalize DecimalParts.isReal _ = isReal at isSuffix
    cases isSuffix with
    | integer isInteger => cases isInteger <;> decide
    | none | double | float => decide
  | radix _ _ _ _ isInteger => cases isInteger <;> decide

theorem Numeral.scanNumber_eq {kind : TokenKind} (h : Numeral text kind)
    (blank : Heads Text.isBlank rest) : scanNumber (text ++ rest) = .ok ⟨kind, text, rest⟩ := by
  have apart := Heads.of_blank blank
  have notPoint := heads_ne_of_blank blank (x := '.') (by decide)
  cases h with
  | decimal valid isSuffix =>
    exact scanNumber_decimal valid isSuffix fun _ => ⟨apart, fun _ => splitFraction_eq_nil notPoint, fun _ => notPoint⟩
  | radix same isDigit all some isSuffix =>
    rw [cons_append, cons_append, cons_append, cons_append, same]
    exact scanRadix_eq_ok isDigit all some isSuffix fun _ c first =>
      Bool.and_eq_true_iff.mpr ⟨apart c first, notPoint c first⟩

def startsNumber (c : Char) (cs : List Char) : Bool := c.isDigit || (c == '.' && cs.head?.any Char.isDigit)

theorem startsNumber_scanDecimal (start : startsNumber c cs)
    (h : scanDecimal (c :: cs) = .ok piece) : ∃ more, piece.text = c :: more ∧
      ∀ rest, startsNumber c (more ++ rest) := by
  obtain ⟨d, suffix, -, -, text, -, whole, fraction⟩ := parts_of_scanDecimal h
  simp only [startsNumber, Bool.or_eq_true, Bool.and_eq_true, beq_iff_eq] at start
  rcases start with digit | ⟨rfl, next⟩
  · rw [takeWhile_cons_of_pos (isSpacedDigit_of_isDigit digit)] at whole
    refine ⟨_, by rw [text, DecimalParts.text, whole, cons_append, cons_append, cons_append,
      cons_append], fun rest => ?_⟩
    simp [startsNumber, digit]
  · obtain ⟨e, others, rfl, digit⟩ : ∃ e others, cs = e :: others ∧ e.isDigit := by
      cases cs with
      | nil => cases next
      | cons e others => exact ⟨e, others, rfl, next⟩
    -- nothing is in front of the point, and the digit behind it belongs to the fraction
    have isFraction : startsFraction (e :: others) :=
      startsFraction_of_heads (by rw [heads_cons, endsFraction_of_isSpacedDigit (isSpacedDigit_of_isDigit digit)]; rfl)
    rw [dropWhile_cons_of_neg (by decide), splitFraction, if_pos isFraction,
      takeWhile_cons_of_pos (isSpacedDigit_of_isDigit digit)] at fraction
    refine ⟨_, by rw [text, DecimalParts.text, whole, fraction]; rfl, fun rest => ?_⟩
    simp [startsNumber, digit]

/-- A number at the front of a text, at least as long as what made it a number. -/
structure CutsNumber (c : Char) (cs : List Char) (piece : Piece) : Prop where
  numeral : Numeral piece.text piece.kind
  tiles : c :: cs = piece.text ++ piece.rest
  starts : startsNumber c cs = true →
    ∃ more, piece.text = c :: more ∧ ∀ rest, startsNumber c (more ++ rest) = true

theorem cuts_scanNumber (h : scanNumber (c :: cs) = .ok piece) : CutsNumber c cs piece := by
  have decimal : scanDecimal (c :: cs) = .ok piece → CutsNumber c cs piece := fun found => by
    obtain ⟨d, suffix, valid, isSuffix, text, tiles, -, -⟩ := parts_of_scanDecimal found
    exact ⟨text ▸ .decimal valid isSuffix, tiles, fun start => startsNumber_scanDecimal start found⟩
  have marked : ∀ {mark : Char} {rest : List Char} {accept : Char → Bool}, c :: cs = '0' :: mark :: rest →
      (∀ rest, scanNumber ('0' :: mark :: rest) = scanRadix ['0', mark] accept rest) → IsRadixDigit accept →
      scanRadix ['0', mark] accept rest = .ok piece → CutsNumber c cs piece := fun start same isDigit found => by
    cases start
    obtain ⟨digits, suffix, all, some, isSuffix, text, tiles⟩ := parts_of_scanRadix found
    exact ⟨text ▸ .radix same isDigit all some isSuffix, tiles, fun _ => ⟨_, by rw [text]; rfl, fun _ => rfl⟩⟩
  unfold scanNumber at h
  split at h
  · rename_i mark rest start
    split at h
    · rename_i isHex
      refine marked start (fun rest => ?_) isRadixDigit_hex h
      rw [scanNumber, if_pos isHex]
    · rename_i notHex
      split at h
      · rename_i isBinary
        refine marked start (fun rest => ?_) isRadixDigit_binary h
        rw [scanNumber, if_neg notHex, if_pos isBinary]
      · exact decimal (start ▸ h)
  · exact decimal h

/-! ## Tokens -/

/-- A piece at the front of a text that is found again in front of every blank. -/
structure Cuts (scan : List Char → Except Failure Piece) (cs : List Char) (piece : Piece) : Prop where
  tiles : cs = piece.text ++ piece.rest
  again : ∀ rest, Heads Text.isBlank rest → scan (piece.text ++ rest) = .ok { piece with rest }

theorem splitQuoted_close (notLine : quote ≠ '\n') (notBackslash : quote ≠ '\\')
    (cs : List Char) : splitQuoted quote (quote :: cs) = some ([quote], cs) := by
  rw [splitQuoted.eq_def]
  split
  · simp_all
  · simp_all
  · rename_i same
    obtain ⟨rfl, rfl⟩ := cons.inj same
    rw [if_neg (by simp [notLine, notBackslash]), if_pos (beq_self_eq_true _)]

theorem splitQuoted_append {body : List Char} (h : splitQuoted quote cs = some (body, rest)) :
    cs = body ++ rest ∧ (∃ inner, body = inner ++ [quote]) ∧
      ∀ rest', splitQuoted quote (body ++ rest') = some (body, rest') := by
  induction cs using splitQuoted.induct quote generalizing body with
  | case1 => cases h
  | case2 c cs ih =>
    rw [splitQuoted_escaped, Option.map_eq_some_iff] at h
    obtain ⟨⟨inner, after⟩, found, same⟩ := h
    cases same
    obtain ⟨tiles, ⟨inner, rfl⟩, again⟩ := ih found
    refine ⟨by rw [tiles]; rfl, ⟨'\\' :: c :: inner, rfl⟩, fun rest' => ?_⟩
    rw [cons_append, cons_append, splitQuoted_escaped, again rest']
    rfl
  | case3 c cs notEscape stops =>
    rw [splitQuoted.eq_3 _ _ _ notEscape, if_pos stops] at h
    cases h
  | case4 c cs notEscape other isQuote =>
    simp only [Bool.or_eq_true, beq_iff_eq, not_or] at other
    rw [beq_iff_eq.mp isQuote] at h other ⊢
    rw [splitQuoted_close other.1 other.2] at h
    cases h
    exact ⟨rfl, ⟨[], rfl⟩, fun rest' => splitQuoted_close other.1 other.2 rest'⟩
  | case5 c cs notEscape other notQuote ih =>
    simp only [Bool.or_eq_true, beq_iff_eq, not_or] at other notQuote
    rw [splitQuoted_plain other.1 other.2 notQuote, Option.map_eq_some_iff] at h
    obtain ⟨⟨inner, after⟩, found, same⟩ := h
    cases same
    obtain ⟨tiles, ⟨inner, rfl⟩, again⟩ := ih found
    refine ⟨by rw [tiles]; rfl, ⟨c :: inner, rfl⟩, fun rest' => ?_⟩
    rw [cons_append, splitQuoted_plain other.1 other.2 notQuote, again rest']
    rfl

/-- A literal in quotes is closed by its last character, so nothing behind it matters. -/
theorem body_of_scanQuoted {kind : TokenKind} {cause : Cause}
    (h : scanQuoted kind quote cause cs = .ok piece) : ∃ body, piece.kind = kind ∧ piece.text = quote :: body ∧
      body ≠ [] ∧ cs = body ++ piece.rest ∧
      ∀ rest, scanQuoted kind quote cause (body ++ rest) = .ok { piece with rest } := by
  unfold scanQuoted at h
  split at h
  · rename_i body rest found
    cases h
    obtain ⟨tiles, -, again⟩ := splitQuoted_append found
    refine ⟨body, rfl, rfl, ?_, tiles, fun rest' => ?_⟩
    · rintro rfl
      have empty := again []
      cases empty
    · unfold scanQuoted
      rw [again rest']
  · cases h

theorem operator_of_scanOperator
    (h : scanOperator (c :: cs) = .ok piece) : ∃ op ∈ Token.operators, piece.kind = .operator ∧
      piece.text = op.toList ∧ c :: cs = piece.text ++ piece.rest := by
  unfold scanOperator at h
  split at h
  · rename_i text rest found
    cases h
    obtain ⟨op, known, matched⟩ := exists_of_findSome?_eq_some found
    obtain ⟨after, same, pair⟩ := Option.map_eq_some_iff.mp matched
    cases pair
    exact ⟨op, known, rfl, rfl, afterPrefix?_eq_some same⟩
  · cases h

theorem not_joins_of_isBlank {op : String} (known : op ∈ Token.operators) (blank : Text.isBlank c) : (!joins op c) := by
  have apart : ∀ op ∈ Token.operators, ∀ x ∈ joining op, Text.isBlank x = false := by decide
  have notDigit : c.isDigit = false := by
    cases digit : c.isDigit with
    | false => rfl
    | true =>
      have part := isNamePart_of_isAlphanum (show c.isAlphanum = true by simp [Char.isAlphanum, digit])
      rw [not_isNamePart_of_isBlank blank] at part
      cases part
  have notJoining : c ∉ joining op := by
    intro mem
    rw [apart op known c mem] at blank
    cases blank
  simp [joins, notDigit, notJoining]

theorem scanToken_name (start : isNameStart c) (cs : List Char) : Cuts scanToken (c :: cs) (scanName (c :: cs)) where
  tiles := takeWhile_append_dropWhile.symm
  again rest blank := by
    have first : (c :: cs).takeWhile isNamePart = c :: cs.takeWhile isNamePart :=
      takeWhile_cons_of_pos (isNamePart_of_isNameStart start)
    have all : ∀ d ∈ (c :: cs).takeWhile isNamePart, isNamePart d := fun d mem =>
      all_eq_true.mp all_takeWhile d mem
    obtain ⟨take, drop⟩ := takeWhile_append_stop all (Heads.of_blank blank)
    show scanToken ((c :: cs).takeWhile isNamePart ++ rest) = _
    rw [first] at take drop ⊢
    rw [cons_append, scanToken, if_pos start]
    rw [cons_append] at take drop
    unfold scanName
    rw [take, drop, first]

theorem scanToken_string (single : (afterPrefix? ['"', '"'] cs).isSome = false)
    (h : scanQuoted .stringLiteral '"' .unterminatedString cs = .ok piece) : Cuts scanToken ('"' :: cs) piece := by
  obtain ⟨body, -, text, some, tiles, again⟩ := body_of_scanQuoted h
  refine ⟨by rw [text, tiles]; rfl, fun rest blank => ?_⟩
  -- three quotes would open a text block, but a blank follows the second one
  have quotes : (afterPrefix? ['"', '"'] (body ++ rest)).isSome = false := by
    match body, rest with
    | [], _ => exact absurd rfl some
    | [c], [] => by_cases quote : '"' = c <;> simp [afterPrefix?, quote]
    | [c], d :: rest =>
      have notQuote : '"' ≠ d := by
        rintro rfl
        rw [heads_cons] at blank
        cases blank
      by_cases quote : '"' = c <;> simp [afterPrefix?, quote, notQuote]
    | c :: d :: body, rest =>
      rw [tiles] at single
      simpa [afterPrefix?] using single
  have found := again rest
  rw [text, cons_append]
  rw [text] at found
  show (if _ then _ else _) = _
  rw [if_neg (by simp [quotes])]
  exact found

/-- The ways in which a token is found. -/
inductive Found (c : Char) (cs : List Char) (piece : Piece) : Prop
  | name : isNameStart c = true → scanName (c :: cs) = piece → Found c cs piece
  | number : isNameStart c = false → startsNumber c cs = true → scanNumber (c :: cs) = .ok piece → Found c cs piece
  | string : c = '"' → (afterPrefix? ['"', '"'] cs).isSome = false →
      scanQuoted .stringLiteral '"' .unterminatedString cs = .ok piece → Found c cs piece
  | character : c = '\'' → scanQuoted .charLiteral '\'' .unterminatedCharacter cs = .ok piece → Found c cs piece
  | operator : scanOperator (c :: cs) = .ok piece → Found c cs piece

theorem found_of_scanToken (h : scanToken (c :: cs) = .ok piece) : Found c cs piece := by
  rw [scanToken] at h
  split at h
  · rename_i start
    exact .name start (Except.ok.inj h)
  · rename_i notName
    split at h
    · rename_i start
      exact .number (by simpa using notName) start h
    · split at h
      · rename_i quote
        split at h
        · cases h
        · rename_i single
          exact .string (beq_iff_eq.mp quote) (by simpa using single) h
      · split at h
        · rename_i quote
          exact .character (beq_iff_eq.mp quote) h
        · exact .operator h

/-- A token that is found is a piece of the text, and is found again in front of every blank. -/
theorem cuts_scanToken (h : scanToken (c :: cs) = .ok piece) :
    Cuts scanToken (c :: cs) piece ∧ piece.text ≠ [] ∧ piece.kind ≠ .eof := by
  cases found_of_scanToken h with
  | name start same =>
    subst same
    refine ⟨scanToken_name start cs, ?_, ?_⟩
    · show (c :: cs).takeWhile isNamePart ≠ []
      rw [takeWhile_cons_of_pos (isNamePart_of_isNameStart start)]
      exact cons_ne_nil _ _
    · unfold scanName
      dsimp only
      split <;> rintro ⟨⟩
  | number notName start found =>
    obtain ⟨numeral, tiles, starts⟩ := cuts_scanNumber found
    obtain ⟨more, text, starts⟩ := starts start
    refine ⟨⟨tiles, fun rest blank => ?_⟩, by rw [text]; exact cons_ne_nil _ _, fun isEnd => ?_⟩
    · have again := numeral.scanNumber_eq blank
      rw [text, cons_append] at again ⊢
      rw [scanToken, if_neg (by simp [notName]), ← startsNumber, if_pos (starts rest)]
      exact again
    · exact absurd (isEnd ▸ numeral.kind) (by decide)
  | string quote single found =>
    subst quote
    obtain ⟨body, kind, text, -, -, -⟩ := body_of_scanQuoted found
    exact ⟨scanToken_string single found, by rw [text]; exact cons_ne_nil _ _, by rw [kind]; rintro ⟨⟩⟩
  | character quote found =>
    subst quote
    obtain ⟨body, kind, text, -, tiles, again⟩ := body_of_scanQuoted found
    refine ⟨⟨by rw [text, tiles]; rfl, fun rest _ => ?_⟩, by rw [text]; exact cons_ne_nil _ _, by rw [kind]; rintro ⟨⟩⟩
    have found := again rest
    rw [text] at found ⊢
    exact found
  | operator found =>
    obtain ⟨op, known, kind, text, tiles⟩ := operator_of_scanOperator found
    have nonempty : ∀ op ∈ Token.operators, op.toList ≠ [] := by decide
    refine ⟨⟨tiles, fun rest blank => ?_⟩, by rw [text]; exact nonempty op known, by rw [kind]; rintro ⟨⟩⟩
    have scans := scans_operator known (blank.mono fun _ => not_joins_of_isBlank known)
    rw [text, scans.found, ← kind]

/-! ## Blanks and comments -/

theorem splitBlock_eq_some {body : List Char} (h : splitBlock cs = some (body, rest)) :
    cs = body ++ '*' :: '/' :: rest ∧ closesComment body = false := by
  induction cs using splitBlock.induct generalizing body with
  | case1 => cases h
  | case2 cs =>
    obtain ⟨rfl, rfl⟩ := h
    exact ⟨rfl, rfl⟩
  | case3 c cs notEnd ih =>
    rw [splitBlock.eq_3 _ _ notEnd] at h
    simp only [Option.bind_eq_bind, Option.bind_eq_some_iff, Prod.exists] at h
    obtain ⟨inner, rest', found, same⟩ := h
    cases same
    obtain ⟨rfl, open_⟩ := ih found
    refine ⟨rfl, ?_⟩
    unfold closesComment
    split
    · rename_i eq
      cases eq
      exact absurd rfl (notEnd _ rfl)
    · rename_i eq
      cases eq
      exact open_
    · rfl

theorem scanGap?_eq_none_iff : scanGap? (c :: cs) = none ↔
    Text.isBlank c = false ∧ (c = '/' → Heads (fun d => !(d == '/' || d == '*')) cs) := by
  constructor
  · intro none
    rw [scanGap?.eq_def] at none
    split at none
    · cases none
    · cases none
    · rename_i noLine noBlock same
      cases same
      split at none
      · cases none
      · rename_i notBlank
        refine ⟨by simpa using notBlank, ?_⟩
        rintro rfl d first
        obtain ⟨after, rfl⟩ := head?_eq_some_iff.mp first
        rw [Bool.not_eq_true', Bool.or_eq_false_iff, beq_eq_false_iff_ne, beq_eq_false_iff_ne]
        constructor
        · rintro rfl
          exact noLine after rfl rfl
        · rintro rfl
          exact noBlock after rfl rfl
    · rename_i same
      cases same
  · rintro ⟨notBlank, noComment⟩
    by_cases slash : c = '/'
    · subst slash
      exact scanGap?_slash (noComment rfl)
    · exact scanGap?_eq_none slash notBlank

theorem Scans.spaced {kind : TokenKind} (h : Scans kind text rest)
    (blank : Heads Text.isBlank rest') : Scans kind text rest' := by
  obtain ⟨nonempty, noGap, found, notEnd⟩ := h
  obtain ⟨c, more, rfl⟩ := exists_cons_of_ne_nil nonempty
  refine ⟨nonempty, ?_, ?_, notEnd⟩
  · rw [cons_append, scanGap?_eq_none_iff]
    obtain ⟨notBlank, noComment⟩ := scanGap?_eq_none_iff.mp noGap
    refine ⟨notBlank, fun slash => (noComment slash).swap (blank.mono fun d isBlank => ?_)⟩
    rw [Bool.not_eq_true', Bool.or_eq_false_iff, beq_eq_false_iff_ne, beq_eq_false_iff_ne]
    constructor <;> rintro rfl <;> cases isBlank
  · exact (cuts_scanToken found).1.again rest' blank

theorem getLast?_dropReturns (cs : List Char) : (dropReturns cs).getLast? ≠ some '\r' := by
  unfold dropReturns
  rw [getLast?_reverse]
  intro last
  have := head?_dropWhile_not (· == '\r') cs.reverse
  rw [last] at this
  simp at this

theorem mem_of_mem_dropReturns (h : c ∈ dropReturns cs) : c ∈ cs := by
  unfold dropReturns at h
  rw [mem_reverse] at h
  exact mem_reverse.mp ((dropWhile_sublist _).subset h)

theorem dropReturns_append (cs : List Char) : ∃ returns, cs = dropReturns cs ++ returns ∧ ∀ c ∈ returns, c = '\r' := by
  refine ⟨(cs.reverse.takeWhile (· == '\r')).reverse, ?_, fun c mem => ?_⟩
  · rw [dropReturns, ← reverse_append, takeWhile_append_dropWhile, reverse_reverse]
  · simpa using all_eq_true.mp all_takeWhile c (mem_reverse.mp mem)

/-- Blanks and comments in front of `rest`, and the comments among them. A line comment goes up to the end of its
line, and carriage returns there are no part of its text; other comments go up to the first `*/`. -/
inductive Separates (rest : List Char) : List Char → List Comment → Prop
  | none : Separates rest [] []
  | blank {c : Char} {gap : List Char} {comments : List Comment} : Text.isBlank c = true →
      Separates rest gap comments → Separates rest (c :: gap) comments
  | line {text returns gap : List Char} {comments : List Comment} : '\n' ∉ text → text.getLast? ≠ some '\r' →
      (∀ c ∈ returns, c = '\r') → Heads (· == '\n') (gap ++ rest) → Separates rest gap comments →
      Separates rest ('/' :: '/' :: (text ++ returns) ++ gap) (⟨.line, String.ofList text⟩ :: comments)
  | block {text gap : List Char} {comments : List Comment} : ¬ ['*', '/'] <:+: text → text.head? ≠ some '*' →
      Separates rest gap comments →
      Separates rest ('/' :: '*' :: (text ++ ['*', '/']) ++ gap) (⟨.block, String.ofList text⟩ :: comments)
  | javadoc {text gap : List Char} {comments : List Comment} : ¬ ['*', '/'] <:+: text → text.head? ≠ some '/' →
      Separates rest gap comments →
      Separates rest ('/' :: '*' :: '*' :: (text ++ ['*', '/']) ++ gap) (⟨.javadoc, String.ofList text⟩ :: comments)

/-- A block comment ends at the first `*/`; a second star in front of its text makes it a javadoc. -/
theorem separates_of_scanBlockComment (h : scanBlockComment cs = .ok gap) :
    '/' :: '*' :: cs = gap.text ++ gap.rest ∧ gap.text ≠ [] ∧ gap.comment ≠ none ∧
      Separates gap.rest gap.text gap.comment.toList := by
  unfold scanBlockComment at h
  extract_lets javadoc opening at h
  split at h
  · cases h
  · rename_i kind _ body rest found
    cases h
    obtain ⟨text, unclosed⟩ := splitBlock_eq_some found
    have inside : ¬ ['*', '/'] <:+: body := by
      rw [← closesComment_iff, unclosed]
      decide
    have shape : javadoc ∧ (∃ tail, cs = '*' :: tail ∧ tail.head? ≠ some '/') ∨
        javadoc = false ∧ (cs.head? = some '*' → ∃ tail, cs = '*' :: '/' :: tail) := by
      subst javadoc
      split
      · exact .inr ⟨rfl, fun _ => ⟨_, rfl⟩⟩
      · rename_i tail notEmpty
        refine .inl ⟨rfl, tail, rfl, fun slash => ?_⟩
        obtain ⟨after, rfl⟩ := head?_eq_some_iff.mp slash
        exact notEmpty after rfl
      · rename_i notStar
        refine .inr ⟨rfl, fun star => ?_⟩
        obtain ⟨after, rfl⟩ := head?_eq_some_iff.mp star
        exact absurd rfl (notStar after)
    rcases shape with ⟨isJavadoc, tail, rfl, notSlash⟩ | ⟨isBlock, star⟩
    · simp only [kind, opening, isJavadoc, if_true, drop_one, tail_cons] at text ⊢
      subst text
      have notEmpty : body.head? ≠ some '/' := fun slash => notSlash (by rw [head?_append, slash]; rfl)
      refine ⟨by simp, by simp, by simp, ?_⟩
      simpa using Separates.javadoc inside notEmpty (.none : Separates rest [] [])
    · simp only [kind, opening, isBlock, Bool.false_eq_true, if_false] at text ⊢
      have notDoc : body.head? ≠ some '*' := fun first => by
        -- a star behind the first one is followed by the slash that ends the comment, not by its text
        obtain ⟨more, rfl⟩ := head?_eq_some_iff.mp first
        obtain ⟨tail, same⟩ := star (by rw [text]; rfl)
        rw [same] at text
        cases more with
        | nil => simp at text
        | cons d more =>
          obtain ⟨rfl, -⟩ := cons.inj (cons.inj text).2
          cases unclosed
      subst text
      refine ⟨by simp, by simp, by simp, ?_⟩
      simpa using Separates.block inside notDoc (.none : Separates rest [] [])

/-- A blank or comment that the lexer finds is one. -/
theorem separates_of_scanGap? (h : scanGap? cs = some (.ok gap)) :
    cs = gap.text ++ gap.rest ∧ gap.text ≠ [] ∧ (gap.comment = none → ∃ c, gap.text = [c]) ∧
      Separates gap.rest gap.text gap.comment.toList := by
  unfold scanGap? at h
  split at h
  · rename_i cs
    cases h
    refine ⟨?_, cons_ne_nil _ _, nofun, ?_⟩
    · rw [cons_append, cons_append, takeWhile_append_dropWhile]
    · obtain ⟨returns, body, all⟩ := dropReturns_append (cs.takeWhile (· != '\n'))
      have noEnd : '\n' ∉ dropReturns (cs.takeWhile (· != '\n')) := fun newline => by
        have kept := all_eq_true.mp all_takeWhile _ (mem_of_mem_dropReturns newline)
        simp at kept
      have ends : Heads (· == '\n') ([] ++ cs.dropWhile (· != '\n')) := by
        intro c first
        have := head?_dropWhile_not (· != '\n') cs
        rw [nil_append] at first
        rw [first] at this
        simpa using this
      have line := Separates.line noEnd (getLast?_dropReturns _) all ends .none
      rwa [append_nil, ← body] at line
  · obtain ⟨tiles, nonempty, comment, separates⟩ := separates_of_scanBlockComment (Option.some.inj h)
    exact ⟨tiles, nonempty, fun none => absurd none comment, separates⟩
  · split at h
    · cases h
      exact ⟨rfl, cons_ne_nil _ _, fun _ => ⟨_, rfl⟩, .blank ‹_› .none⟩
    · cases h
  · cases h

/-! ## Texts -/

theorem Lexes.ne_nil (h : Lexes cs ws) : ws ≠ [] := by
  induction h with
  | base finished =>
    cases finished
    exact cons_ne_nil _ _
  | blank _ _ ih => exact ih
  | comment | token => exact cons_ne_nil _ _

/-- Behind a blank or a comment the text goes on, and a comment belongs to the first token there. -/
theorem Lexes.behind_gap (h : Lexes cs ws) (found : scanGap? cs = some (.ok gap)) :
    match gap.comment with
    | none => Lexes gap.rest ws
    | some c => ∃ w more, ws = w.led [c] :: more ∧ Lexes gap.rest (w :: more) := by
  cases h with
  | base finished =>
    cases finished
    cases found
  | blank found' others =>
    cases found'.symm.trans found
    exact others
  | comment _ found' others =>
    cases found'.symm.trans found
    exact ⟨_, _, rfl, others⟩
  | token scans _ => cases scans.noGap.symm.trans found

theorem Lexes.behind_token {kind : TokenKind} (h : Lexes (text ++ rest) ws) (scans : Scans kind text rest) :
    ∃ more, ws = word kind (String.ofList text) :: more ∧ Lexes rest more := by
  obtain ⟨nonempty, noGap, found, notEnd⟩ := scans
  generalize text ++ rest = cs at h noGap found
  cases h with
  | base finished =>
    cases finished
    cases found
    exact absurd rfl notEnd
  | blank found' _ | comment _ found' _ => cases found'.symm.trans noGap
  | token scans' others =>
    cases scans'.found.symm.trans found
    exact ⟨_, rfl, others⟩

/-- A text of which the tokens are known up to some place starts with these, whatever follows. -/
theorem LexesOn.split {front : List Token}
    (h : LexesOn (fun cs ws => cs = rest ∧ ws = []) cs front) (whole : Lexes cs ws) :
    ∃ more, ws = front ++ more ∧ Lexes rest more := by
  induction h generalizing ws with
  | base reached =>
    obtain ⟨rfl, rfl⟩ := reached
    exact ⟨ws, rfl, whole⟩
  | blank gap _ ih => exact ih (whole.behind_gap gap)
  | comment _ gap _ ih =>
    obtain ⟨w, others, rfl, behind⟩ := whole.behind_gap gap
    obtain ⟨more, same, left⟩ := ih behind
    cases same
    exact ⟨more, rfl, left⟩
  | token scans _ ih =>
    obtain ⟨others, rfl, behind⟩ := whole.behind_token scans
    obtain ⟨more, rfl, left⟩ := ih behind
    exact ⟨more, rfl, left⟩

end Lexer

end JavaEdit
