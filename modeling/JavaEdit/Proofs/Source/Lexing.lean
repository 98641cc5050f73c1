import JavaEdit.Source.Lexer

/-!
# What a text is made of

`Lexes cs ws` says that the characters `cs` are blanks, comments and tokens one after the other, and
that `ws` are the tokens, each with the comments in front of it and without its place. Texts that
are put together from pieces are taken apart by it from the front: a token needs to know no more of
what follows than its first character. `tokenize_of_lexes` connects the relation to `tokenize`.
-/

namespace JavaEdit

open List

variable {cs : List Char} {ws : List Token}

/-- A token without its place. -/
def Token.plain (t : Token) : Token := { t with start := .start, stop := 0 }

/-- A token with comments in front of those it has. -/
def Token.led (t : Token) (cs : List Comment) : Token := { t with comments := cs ++ t.comments }

/-- A token by its kind and text, without comments and place. -/
def word (kind : TokenKind) (text : String) : Token := ⟨kind, text, .start, 0, []⟩

/-- Comments in front of the first of some tokens. -/
def leading (cs : List Comment) : List Token → List Token
  | [] => []
  | w :: ws => w.led cs :: ws

/-- What holds of the characters in a list is decided by going through the list, and not through all
characters there are. -/
instance (priority := high) decidableForallMemChar {p : Char → Prop} [DecidablePred p] :
    Decidable (∀ c ∈ cs, p c) := List.decidableBAll p cs

/-- The first character, if there is one, satisfies `p`. -/
def Heads (p : Char → Bool) (cs : List Char) : Prop := ∀ c ∈ cs.head?, p c = true

@[simp] theorem heads_nil (p : Char → Bool) : Heads p [] := fun _ h => by simp at h

@[simp] theorem heads_cons (p : Char → Bool) (c : Char) (cs : List Char) : Heads p (c :: cs) ↔ p c := by simp [Heads]

theorem Heads.cons {p : Char → Bool} {c : Char} {cs : List Char} (h : p c) : Heads p (c :: cs) := (heads_cons ..).mpr h

theorem Heads.mono {p q : Char → Bool} (h : Heads p cs)
    (weaker : ∀ c, p c → q c) : Heads q cs := fun c first => weaker c (h c first)

namespace Lexer

variable {c : Char} {op : String} {rest : List Char}

/-- In front of `rest` the characters `text` are a token. -/
structure Scans (kind : TokenKind) (text rest : List Char) : Prop where
  nonempty : text ≠ []
  noGap : scanGap? (text ++ rest) = none
  found : scanToken (text ++ rest) = .ok ⟨kind, text, rest⟩
  notEnd : kind ≠ .eof

/-- The tokens of a text, with their comments, up to some place; `base` says what text is left there
and which tokens stand for it. -/
inductive LexesOn (base : List Char → List Token → Prop) : List Char → List Token → Prop
  | base {cs : List Char} {ws : List Token} : base cs ws → LexesOn base cs ws
  | blank {c : Char} {cs : List Char} {ws : List Token} :
      scanGap? (c :: cs) = some (.ok ⟨[c], none, cs⟩) → LexesOn base cs ws → LexesOn base (c :: cs) ws
  | comment {text cs : List Char} {c : Comment} {w : Token} {ws : List Token} : text ≠ [] →
      scanGap? (text ++ cs) = some (.ok ⟨text, some c, cs⟩) → LexesOn base cs (w :: ws) →
      LexesOn base (text ++ cs) (w.led [c] :: ws)
  | token {kind : TokenKind} {text rest : List Char} {ws : List Token} : Scans kind text rest →
      LexesOn base rest ws → LexesOn base (text ++ rest) (word kind (String.ofList text) :: ws)

/-- No text is left, and the token is its end. -/
inductive Finished : List Char → List Token → Prop
  | intro : Finished [] [word .eof ""]

/-- The tokens of a whole text, with their comments. -/
abbrev Lexes : List Char → List Token → Prop := LexesOn Finished

theorem Lexes.done : Lexes [] [word .eof ""] := .base .intro

@[simp] theorem led_led (t : Token) (cs ds : List Comment) : (t.led ds).led cs = t.led (cs ++ ds) := by
  simp [Token.led, append_assoc]

/-- The lexer finds the tokens, from any place and behind any comments that are pending. -/
theorem run_of_lexes (h : Lexes cs ws) (file : String) : ∀ fuel here pending found, cs.length < fuel →
      ∃ ts, run file fuel here pending found cs = .ok (found.reverse ++ ts) ∧
        ts.map Token.plain = leading pending.reverse ws := by
  induction h with
  | base finished =>
    cases finished
    intro fuel here pending found enough
    obtain _ | fuel := fuel
    · omega
    refine ⟨[⟨.eof, "", here, here.offset, pending.reverse⟩], ?_, ?_⟩
    · rw [run]
      simp [scanGap?, scanToken, Location.after]
    · simp [leading, Token.plain, Token.led, word]
  | @blank c cs ws gap _ ih =>
    intro fuel here pending found enough
    obtain _ | fuel := fuel
    · omega
    rw [run, gap]
    exact ih fuel _ _ _ (by simp only [length_cons] at enough; omega)
  | @comment text cs c w ws nonempty gap _ ih =>
    intro fuel here pending found enough
    obtain _ | fuel := fuel
    · omega
    have shorter := length_pos_iff.mpr nonempty
    rw [length_append] at enough
    obtain ⟨ts, run', plain⟩ := ih fuel (here.after text) (c :: pending) found (by omega)
    refine ⟨ts, ?_, ?_⟩
    · rw [run, gap]
      exact run'
    · rw [plain]
      simp [leading, Token.led]
  | @token kind text rest ws scans _ ih =>
    intro fuel here pending found enough
    obtain _ | fuel := fuel
    · omega
    have shorter := length_pos_iff.mpr scans.nonempty
    rw [length_append] at enough
    obtain ⟨ts, run', plain⟩ := ih fuel (here.after text) []
      (⟨kind, String.ofList text, here, (here.after text).offset, pending.reverse⟩ :: found) (by omega)
    refine ⟨⟨kind, String.ofList text, here, (here.after text).offset, pending.reverse⟩ :: ts, ?_, ?_⟩
    · rw [run, scans.noGap, scans.found]
      have notEnd : (kind == .eof) = false := by simpa using scans.notEnd
      simp only [notEnd, Bool.false_eq_true, if_false]
      rw [run', reverse_cons, append_assoc]
      rfl
    · rw [map_cons, plain]
      cases ws <;> simp [leading, Token.plain, Token.led, word]

/-! ## Blanks -/

variable {base : List Char → List Token → Prop}

theorem scanGap?_eq_none (notSlash : c ≠ '/') (notBlank : Text.isBlank c = false) : scanGap? (c :: cs) = none := by
  unfold scanGap?
  split <;> simp_all

/-- A slash opens a comment only with a second slash or a star behind it. -/
theorem scanGap?_slash (ends : Heads (fun c => !(c == '/' || c == '*')) cs) : scanGap? ('/' :: cs) = none := by
  cases cs with
  | nil => rfl
  | cons d cs =>
    rw [scanGap?.eq_def]
    split
    · simp_all
    · simp_all
    · rename_i same
      obtain ⟨rfl, rfl⟩ := cons.inj same
      rfl
    · rfl

theorem LexesOn.space (h : LexesOn base cs ws) : LexesOn base (' ' :: cs) ws :=
  .blank (by rfl) h

theorem LexesOn.newline (h : LexesOn base cs ws) : LexesOn base ('\n' :: cs) ws :=
  .blank (by rfl) h

/-! ## Names -/

theorem isAlpha_iff (c : Char) : c.isAlpha ↔ 65 ≤ c.toNat ∧ c.toNat ≤ 90 ∨ 97 ≤ c.toNat ∧ c.toNat ≤ 122 := by
  show (decide (_ ∧ _) || decide _ && decide _) = true ↔ _
  simp only [Bool.or_eq_true, Bool.and_eq_true, decide_eq_true_eq, ge_iff_le, UInt32.le_iff_toNat_le]
  rfl

theorem isDigit_iff (c : Char) : c.isDigit ↔ 48 ≤ c.toNat ∧ c.toNat ≤ 57 := by
  show (decide _ && decide _) = true ↔ _
  simp only [Bool.and_eq_true, decide_eq_true_eq, ge_iff_le, UInt32.le_iff_toNat_le]
  rfl

theorem isNamePart_of_isNameStart (h : isNameStart c) : isNamePart c := by
  simp only [isNameStart, Text.isLetter, Bool.or_eq_true] at h
  simp only [isNamePart, Text.isLetterOrNumber, Bool.or_eq_true]
  rcases h with (letter | underscore) | dollar
  · left; left
    split at letter
    · rename_i small
      rw [if_pos small, Char.isAlphanum, Bool.or_eq_true]
      exact .inl letter
    · rename_i wide
      rw [if_neg wide, letter]
      rfl
  · exact .inl (.inr underscore)
  · exact .inr dollar

theorem wideBlanks_apart : ∀ blank ∈ Text.wideBlanks, ∀ range ∈ Text.wideLetters ++ Text.wideNumbers,
    blank.2 < range.1 ∨ range.2 < blank.1 := by
  decide +kernel

theorem not_isNamePart_of_isBlank (h : Text.isBlank c) : isNamePart c = false := by
  unfold Text.isBlank at h
  unfold isNamePart Text.isLetterOrNumber
  by_cases small : c.toNat < 128
  · rw [if_pos small] at h ⊢
    -- the code points of ASCII blanks are below those of letters and digits
    have low : c.toNat ≤ 32 := by
      simp only [Bool.or_eq_true, beq_iff_eq, Bool.and_eq_true, decide_eq_true_eq] at h
      rcases h with rfl | bounds
      · exact Nat.le_refl _
      · omega
    have plain : c.isAlphanum = false := by
      simp only [Char.isAlphanum, Bool.eq_false_iff, Ne, Bool.or_eq_true, isAlpha_iff, isDigit_iff]
      omega
    have others : c ≠ '_' ∧ c ≠ '$' := by
      constructor <;> rintro rfl <;> exact absurd low (by decide)
    simp [plain, others]
  · rw [if_neg small] at h ⊢
    have wide : ∀ ranges : Text.Ranges, (∀ range ∈ ranges, range ∈ Text.wideLetters ++ Text.wideNumbers) →
        ranges.holds c = false := by
      intro ranges listed
      simp only [Text.Ranges.holds, any_eq_true, Bool.and_eq_true, decide_eq_true_eq, any_eq_false, not_and] at h ⊢
      obtain ⟨blank, mem, low, high⟩ := h
      intro range inside above
      rcases wideBlanks_apart blank mem range (listed range inside) with before | behind
      · omega
      · omega
    have others : c ≠ '_' ∧ c ≠ '$' := by
      constructor <;> rintro rfl <;> exact small (by decide)
    rw [wide _ fun _ mem => mem_append_left _ mem, wide _ fun _ mem => mem_append_right _ mem]
    simp [others]

theorem not_isBlank_of_isNameStart (h : isNameStart c) : Text.isBlank c = false := by
  cases blank : Text.isBlank c with
  | false => rfl
  | true =>
    have part := isNamePart_of_isNameStart h
    rw [not_isNamePart_of_isBlank blank] at part
    cases part

/-- A run of characters ends where one follows that does not belong to it. -/
theorem takeWhile_append_stop {p : Char → Bool} (all : ∀ c ∈ cs, p c) (stop : Heads (fun c => !p c) rest) :
    (cs ++ rest).takeWhile p = cs ∧ (cs ++ rest).dropWhile p = rest := by
  have front : rest.takeWhile p = [] := by
    cases rest with
    | nil => rfl
    | cons c rest => rw [takeWhile_cons_of_neg (by simpa using stop)]
  have take : (cs ++ rest).takeWhile p = cs := by
    rw [takeWhile_append_of_pos all, front, append_nil]
  refine ⟨take, ?_⟩
  have both := takeWhile_append_dropWhile (p := p) (l := cs ++ rest)
  rw [take] at both
  exact append_cancel_left both

/-- Names: identifiers and keywords. -/
def isName (n : String) : Bool :=
  match n.toList with
  | c :: cs => isNameStart c && cs.all isNamePart
  | [] => false

/-- What a name is read as. -/
def nameKind (n : String) : TokenKind :=
  if Token.keywords.contains n then .keyword else .identifier

theorem exists_of_isName {n : String} (name : isName n) :
    ∃ c cs, n.toList = c :: cs ∧ isNameStart c ∧ ∀ d ∈ c :: cs, isNamePart d := by
  unfold isName at name
  split at name
  · rename_i c cs chars
    rw [Bool.and_eq_true, all_eq_true] at name
    exact ⟨c, cs, chars, name.1, forall_mem_cons.mpr ⟨isNamePart_of_isNameStart name.1, name.2⟩⟩
  · cases name

theorem scans_name {n : String} (name : isName n)
    (ends : Heads (fun c => !isNamePart c) rest) : Scans (nameKind n) n.toList rest := by
  obtain ⟨c, cs, chars, start, parts⟩ := exists_of_isName name
  obtain ⟨take, drop⟩ := takeWhile_append_stop parts ends
  rw [chars]
  refine ⟨cons_ne_nil _ _, ?_, ?_, ?_⟩
  · refine scanGap?_eq_none ?_ (not_isBlank_of_isNameStart start)
    rintro rfl
    cases start
  · rw [cons_append, scanToken, if_pos start, scanName, ← cons_append, take, drop, ← chars, String.ofList_toList]
    rfl
  · unfold nameKind
    split <;> simp

theorem LexesOn.name (h : LexesOn base rest ws) (n : String)
    (name : isName n) (ends : Heads (fun c => !isNamePart c) rest) :
    LexesOn base (n.toList ++ rest) (word (nameKind n) n :: ws) := by
  have token := LexesOn.token (scans_name name ends) h
  rwa [String.ofList_toList] at token

/-! ## Operators -/

/-- Characters that make another operator or a comment of an operator they stand right behind. -/
def joining (op : String) : List Char :=
  (Token.operators.filterMap fun o => (afterPrefix? op.toList o.toList).bind List.head?)
    ++ if op == "/" then ['/', '*'] else []

/-- Whether a character right behind an operator would be read together with it. -/
def joins (op : String) (c : Char) : Bool := (joining op).contains c || (op == "." && c.isDigit)

theorem not_joins (notPoint : op ≠ ".") (apart : c ∉ joining op) : (!joins op c) := by
  simp [joins, notPoint, apart]

theorem afterPrefix?_append (p cs : List Char) : afterPrefix? p (p ++ cs) = some cs := by
  induction p with
  | nil => rfl
  | cons c p ih => simp [afterPrefix?, ih]

theorem afterPrefix?_eq_some {p : List Char} (h : afterPrefix? p cs = some rest) : cs = p ++ rest := by
  induction p generalizing cs with
  | nil => simpa [afterPrefix?] using h
  | cons c p ih =>
    cases cs with
    | nil => simp [afterPrefix?] at h
    | cons d cs =>
      rw [afterPrefix?] at h
      split at h
      · rename_i same
        rw [ih h, beq_iff_eq.mp same]
        rfl
      · cases h

/-- Longer operators stand in front of the shorter ones they start with. -/
theorem operators_ordered : ∀ op ∈ Token.operators,
    Token.operators.find? (fun o => o.toList.isPrefixOf op.toList) = some op := by
  decide

theorem scanOperator_eq_ok (known : op ∈ Token.operators) (ends : Heads (fun c => !joins op c) rest) :
    scanOperator (op.toList ++ rest) = .ok ⟨.operator, op.toList, rest⟩ := by
  -- what matches in front of the operator in the list would be longer, and go on with `rest`
  obtain ⟨-, front, back, list, shorter⟩ := find?_eq_some_iff_append.mp (operators_ordered op known)
  have first : Token.operators.findSome? (fun o => (afterPrefix? o.toList (op.toList ++ rest)).map (o.toList, ·)) =
        some (op.toList, rest) := by
    refine findSome?_eq_some_iff.mpr ⟨front, op, back, list, ?_, fun o mem => ?_⟩
    · simp [afterPrefix?_append]
    · rw [Option.map_eq_none_iff]
      refine Option.eq_none_iff_forall_ne_some.mpr fun _ found => ?_
      have same := afterPrefix?_eq_some found
      have inList : o ∈ Token.operators := by
        rw [list]
        exact mem_append.mpr (.inl mem)
      rcases append_eq_append_iff.mp same with ⟨more, longer, tail⟩ | ⟨more, longer, tail⟩
      · cases more with
        | nil =>
          rw [append_nil] at longer
          have := shorter o mem
          rw [longer, Bool.not_eq_true', ← Bool.not_eq_true, isPrefixOf_iff_prefix] at this
          exact this (prefix_refl _)
        | cons c more =>
          have joined : joins op c := by
            simp only [joins, joining, Bool.or_eq_true, contains_iff_mem, mem_append, mem_filterMap]
            refine .inl (.inl ⟨o, inList, ?_⟩)
            rw [longer, afterPrefix?_append]
            rfl
          rw [tail, cons_append, heads_cons] at ends
          simp [joined] at ends
      · have := shorter o mem
        rw [Bool.not_eq_true', ← Bool.not_eq_true, isPrefixOf_iff_prefix] at this
        exact this ⟨more, longer.symm⟩
  rw [scanOperator.eq_def, first]

/-- How an operator starts: not like a name, a number, a quoted literal or a blank. -/
def startsOperator (op : String) : Bool :=
  match op.toList with
  | c :: cs =>
    !isNameStart c && !c.isDigit && c != '"' && c != '\'' && !Text.isBlank c
      && (c != '.' || cs.head? == some '.' || op == ".")
      && (c != '/' || cs.head? == some '=' || op == "/")
  | [] => false

theorem operators_start : ∀ op ∈ Token.operators, startsOperator op := by
  decide

theorem scans_operator (known : op ∈ Token.operators)
    (ends : Heads (fun c => !joins op c) rest) : Scans .operator op.toList rest := by
  have start := operators_start op known
  have scanned := scanOperator_eq_ok known ends
  unfold startsOperator at start
  split at start
  · rename_i c cs chars
    simp only [Bool.and_eq_true, Bool.not_eq_true', bne_iff_ne, Bool.or_eq_true, beq_iff_eq] at start
    obtain ⟨⟨⟨⟨⟨⟨notName, notDigit⟩, notQuote⟩, notApostrophe⟩, notBlank⟩, point⟩, slash⟩ := start
    rw [chars] at scanned ⊢
    refine ⟨cons_ne_nil _ _, ?_, ?_, by simp⟩
    · by_cases isSlash : c = '/'
      · subst isSlash
        cases cs with
        | nil =>
          have division : op = "/" := String.toList_inj.mp chars
          subst division
          refine scanGap?_slash (ends.mono fun d apart => ?_)
          have same : joining "/" = ['=', '/', '*'] := by decide
          simp only [joins, same] at apart
          simp_all
        | cons d cs =>
          have assigns : d = '=' := by
            rcases slash with (impossible | next) | rfl
            · exact absurd rfl impossible
            · simpa using next
            · cases chars
          subst assigns
          rfl
      · exact scanGap?_eq_none isSlash notBlank
    · have noNumber : (c.isDigit || (c == '.' && (cs ++ rest).head?.any Char.isDigit)) = false := by
        rw [notDigit, Bool.false_or, Bool.and_eq_false_iff, beq_eq_false_iff_ne]
        rcases point with (other | next) | rfl
        · exact .inl other
        · obtain ⟨cs', rfl⟩ := head?_eq_some_iff.mp next
          exact .inr rfl
        · right
          have single : cs = [] := by simpa using (cons.inj chars).2.symm
          subst single
          cases rest with
          | nil => rfl
          | cons d rest =>
            rw [heads_cons, joins, Bool.not_eq_true', Bool.or_eq_false_iff] at ends
            simpa using ends.2
      rw [cons_append, scanToken, if_neg (by simp [notName]), noNumber, if_neg (by simp),
        if_neg (by simpa using notQuote), if_neg (by simpa using notApostrophe)]
      exact scanned
  · cases start

theorem LexesOn.operator (h : LexesOn base rest ws) (op : String)
    (known : op ∈ Token.operators) (ends : Heads (fun c => !joins op c) rest) :
    LexesOn base (op.toList ++ rest) (word .operator op :: ws) := by
  have token := LexesOn.token (scans_operator known ends) h
  rwa [String.ofList_toList] at token

/-- Whether an operator is read by itself, whatever follows it. -/
def isLone (op : String) : Bool := Token.operators.contains op && (joining op).isEmpty && op != "."

theorem LexesOn.lone (h : LexesOn base rest ws) (op : String)
    (alone : isLone op) : LexesOn base (op.toList ++ rest) (word .operator op :: ws) := by
  simp only [isLone, Bool.and_eq_true, contains_iff_mem, List.isEmpty_iff, bne_iff_ne] at alone
  obtain ⟨⟨known, nothing⟩, notPoint⟩ := alone
  refine h.operator op known fun c _ => ?_
  simp [joins, nothing, notPoint]

theorem LexesOn.spaced (h : LexesOn base rest ws) (op : String) (known : op ∈ Token.operators) :
    LexesOn base (op.toList ++ ' ' :: rest) (word .operator op :: ws) := by
  have apart : ∀ op ∈ Token.operators, joins op ' ' = false := by decide
  refine h.space.operator op known ?_
  simp [apart op known]

end Lexer

theorem tokenize_of_lexes {text : String} (h : Lexer.Lexes text.toList ws)
    (file : String) : ∃ ts, tokenize file text = .ok ts ∧ ts.map Token.plain = ws := by
  obtain ⟨ts, run, plain⟩ := Lexer.run_of_lexes h file (text.toList.length + 1) .start [] [] (Nat.lt_succ_self _)
  refine ⟨ts, run, plain.trans ?_⟩
  cases ws <;> simp [leading, Token.led]

end JavaEdit
