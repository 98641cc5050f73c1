import JavaEdit.Proofs.Reading.Types
import JavaEdit.Proofs.Source.Tiling

/-!
# Scanning a type and reading it

Whether a declaration is ahead is found out by counting tokens, while reading a type takes them one
by one and splits an operator such as `>>` where two lists of arguments end at once. Both agree: a
type that is read up to a token is scanned up to the same token (`ends_type`). Inside of angle
brackets the two go side by side (`Crosses`), with the scan at the depth that the rules have opened.
-/

namespace JavaEdit

open List

/-! ## Tokens up to the end of a text -/

/-- The characters around a literal that are cut off before its value is read: a letter behind a long integer, and
the quotes of the other two. -/
def Token.Framed (kind : TokenKind) (text : List Char) : Prop :=
  match kind with
  | .longLiteral => ∃ body c, (c = 'l' ∨ c = 'L') ∧ text = body ++ [c]
  | .charLiteral => ∃ body, text = '\'' :: (body ++ ['\''])
  | .stringLiteral => ∃ body, text = '"' :: (body ++ ['"'])
  | _ => True

/-- Keywords and operators are those of the language, and no token is empty. -/
structure Token.Listed (t : Token) : Prop where
  keyword : t.kind = .keyword → t.text ∈ Token.keywords
  operator : t.kind = .operator → t.text ∈ Token.operators
  nonempty : 0 < t.text.length
  framed : Framed t.kind t.text.toList

/-- Tokens of which the last one, and no other, is the end of the text. -/
inductive Sealed : List Token → Prop
  | done {t : Token} : t.kind = .eof → Sealed [t]
  | cons {t : Token} {ts : List Token} : t.kind ≠ .eof → t.Listed → Sealed ts → Sealed (t :: ts)

namespace Lexer

variable {rest text : List Char}

theorem Numeral.framed {kind : TokenKind} (h : Numeral text kind) : Token.Framed kind text := by
  cases h with
  | decimal _ isSuffix =>
    generalize DecimalParts.isReal _ = isReal at isSuffix
    cases isSuffix with
    | integer isInteger =>
      cases isInteger with
      | none => trivial
      | long letter => exact ⟨_, _, letter, rfl⟩
    | none | double | float => trivial
  | radix _ _ _ _ isInteger =>
    cases isInteger with
    | none => trivial
    | long letter => exact ⟨_, _, letter, rfl⟩

theorem Scans.framed {kind : TokenKind} (h : Scans kind text rest) : Token.Framed kind text := by
  obtain ⟨c, more, rfl⟩ := exists_cons_of_ne_nil h.nonempty
  have quoted : ∀ {kind' quote cause}, scanQuoted kind' quote cause (more ++ rest) = .ok ⟨kind, c :: more, rest⟩ →
      kind = kind' ∧ ∃ body, c :: more = quote :: (body ++ [quote]) := fun found => by
    unfold scanQuoted at found
    split at found
    · rename_i closed
      cases found
      obtain ⟨-, ⟨inner, rfl⟩, -⟩ := splitQuoted_append closed
      exact ⟨rfl, inner, rfl⟩
    · cases found
  cases found_of_scanToken h.found with
  | name _ same =>
    have isWord := congrArg Piece.kind same
    unfold scanName at isWord
    dsimp only at isWord
    split at isWord <;> cases isWord <;> trivial
  | number _ _ found => exact (cuts_scanNumber found).numeral.framed
  | string _ _ found | character _ found =>
    obtain ⟨rfl, framed⟩ := quoted found
    exact framed
  | operator found =>
    obtain ⟨-, -, isOperator, -⟩ := operator_of_scanOperator found
    cases isOperator
    trivial

theorem Lexes.sealed {cs : List Char} {ws : List Token} (h : Lexes cs ws) : Sealed ws := by
  induction h with
  | base finished =>
    cases finished
    exact .done rfl
  | blank _ _ ih => exact ih
  | comment _ _ _ ih =>
    cases ih with
    | done isEnd => exact .done isEnd
    | cons more listed later => exact .cons more ⟨listed.keyword, listed.operator, listed.nonempty, listed.framed⟩ later
  | token scans _ ih =>
    refine .cons scans.notEnd ⟨?_, ?_, ?_, ?_⟩ ih
    · rintro rfl
      exact scans.known.2 rfl
    · rintro rfl
      exact (scans.known.1 rfl).known
    · simpa [word, length_pos_iff] using scans.nonempty
    · simpa [word] using scans.framed

end Lexer

namespace Sealed

variable {t : Token} {ts : List Token} {s : ParserState}

theorem of_plain (h : Sealed (ts.map Token.plain)) : Sealed ts := by
  induction ts with
  | nil => cases h
  | cons t ts ih =>
    generalize listed : (t :: ts).map Token.plain = plain at h
    cases h with
    | done isEnd =>
      cases ts with
      | nil =>
        cases listed
        exact .done isEnd
      | cons => cases listed
    | cons more known later =>
      cases listed
      exact .cons more ⟨known.keyword, known.operator, known.nonempty, known.framed⟩ (ih later)

theorem exists_cons (h : Sealed ts) : ∃ t more, ts = t :: more := by
  cases h with
  | done | cons => exact ⟨_, _, rfl⟩

theorem drop {n : Nat} (h : Sealed ts) (inside : n < ts.length) : Sealed (ts.drop n) := by
  induction h generalizing n with
  | done isEnd =>
    obtain rfl : n = 0 := by simpa using inside
    exact .done isEnd
  | cons more listed later ih =>
    cases n with
    | zero => exact .cons more listed later
    | succ n => exact ih (Nat.lt_of_succ_lt_succ inside)

theorem next (h : Sealed s.rest) (more : s.token.kind ≠ .eof) :
    ∃ ts, s.rest = s.token :: ts ∧ s.token.Listed ∧ Sealed ts ∧ s.advanced.rest = ts := by
  unfold ParserState.token ParserState.advanced at *
  generalize s.rest = rest at *
  cases h with
  | done isEnd => exact absurd isEnd more
  | cons _ listed later =>
    refine ⟨_, rfl, listed, later, ?_⟩
    cases later <;> rfl

end Sealed

theorem sealed_of_tokenize {file text : String} {ts : List Token} (h : tokenize file text = .ok ts) : Sealed ts :=
  (lexes_of_tokenize h).sealed.of_plain

namespace Parser

variable {w : String}

/-! ## Going on inside of angle brackets -/

variable {t : Token} {ts ts' ts'' c : List Token} {k m opened : Nat}

/-- The scan of type arguments goes from `ts` to `ts'` in `k` tokens, which open some angle brackets
more than they close. The first token of `ts'` may be the end of one of `ts`. -/
structure Crosses (opened k : Nat) (ts ts' : List Token) : Prop where
  sealed : Sealed ts'
  behind : ∃ t t' r, ts.drop k = t :: r ∧ ts' = t' :: r ∧ t'.text.length ≤ t.text.length
  scan : Advances opened k ts ts'

theorem Crosses.refl (h : Sealed ts) : Crosses 0 0 ts ts := by
  obtain ⟨t, more, rfl⟩ := h.exists_cons
  exact ⟨h, ⟨t, t, more, rfl, rfl, Nat.le_refl _⟩, .refl _⟩

theorem Crosses.trans (h : Crosses opened k ts ts') (h' : Crosses 0 m ts' ts'') : Crosses opened (k + m) ts ts'' := by
  refine ⟨h'.sealed, ?_, h.scan.trans h'.scan⟩
  obtain ⟨t, t', r, left, rfl, shorter⟩ := h.behind
  obtain ⟨u, u', r', right, rfl, shorter'⟩ := h'.behind
  rw [← drop_drop, left]
  cases m with
  | zero =>
    cases right
    exact ⟨t, u', r, rfl, rfl, Nat.le_trans shorter' shorter⟩
  | succ m => exact ⟨u, u', r', right, rfl, shorter'⟩

theorem crosses_bracket (deeper : ∀ depth, angleDepth? t depth = some (depth + opened)) (h : Sealed ts) :
    Crosses opened 1 (t :: ts) ts := by
  obtain ⟨u, more, rfl⟩ := h.exists_cons
  exact ⟨h, ⟨u, u, more, rfl, rfl, Nat.le_refl _⟩, advances_token deeper⟩

theorem crosses_token (level : ∀ depth, angleDepth? t depth = some depth) (h : Sealed ts) :
    Crosses 0 1 (t :: ts) ts :=
  crosses_bracket (fun depth => (level depth).trans (by simp)) h

/-- Words that may stand in type arguments and are no brackets. -/
theorem level_of_is (h : t.Listed) (is : t.is w)
    (inside : w ∈ [",", ".", "?", "[", "]", "extends", "super"]) (depth : Int) : angleDepth? t depth = some depth := by
  obtain ⟨operator | keyword, rfl⟩ := Token.is_iff.mp is
  · have known := h.operator operator
    have signs : ∀ w ∈ [",", ".", "?", "[", "]", "extends", "super"], w ∈ Token.operators →
        w ∈ [",", ".", "?", "[", "]"] := by decide
    replace inside := signs _ inside known
    simp only [mem_cons, not_mem_nil, or_false] at inside
    unfold angleDepth?
    rw [operator]
    rcases inside with is | is | is | is | is <;> rw [is] <;> rfl
  · have known := h.keyword keyword
    have words : ∀ w ∈ [",", ".", "?", "[", "]", "extends", "super"], w ∈ Token.keywords →
        w = "extends" ∨ w = "super" := by decide
    unfold angleDepth?
    rw [keyword]
    rcases words _ inside known with is | is <;> simp [is]

theorem operator_of_is (h : t.Listed) (is : t.is w) (other : w ∉ Token.keywords) : t.kind = .operator ∧ t.text = w := by
  obtain ⟨operator | keyword, rfl⟩ := Token.is_iff.mp is
  · exact ⟨operator, rfl⟩
  · exact absurd (h.keyword keyword) other

theorem opening_of_is (h : t.Listed) (is : t.is "<") (depth : Int) : angleDepth? t depth = some (depth + 1) := by
  obtain ⟨operator, text⟩ := operator_of_is h is (by decide)
  unfold angleDepth?
  rw [operator, text]
  rfl

/-! ## Names and dimensions -/

/-- The pairs that a scan counts may stand in type arguments. -/
structure LevelPairs (isPair : Token → Token → Bool) (scan : List Token → Nat) : Prop extends CountsPairs isPair scan where
  notEnd {a b : Token} : isPair a b = true → a.kind ≠ .eof ∧ b.kind ≠ .eof
  level {a b : Token} : isPair a b = true → a.Listed → b.Listed →
    (∀ depth, angleDepth? a depth = some depth) ∧ ∀ depth, angleDepth? b depth = some depth

theorem levelPairs_dotted : LevelPairs (fun a b => a.is "." && b.kind == .identifier) scanDotted where
  toCountsPairs := countsPairs_dotted
  notEnd isPair := by
    rw [Bool.and_eq_true, beq_iff_eq] at isPair
    exact ⟨Token.kind_ne_eof_of_is isPair.1, by simp [isPair.2]⟩
  level isPair known _ := by
    rw [Bool.and_eq_true, beq_iff_eq] at isPair
    exact ⟨level_of_is known isPair.1 (by decide), level_of_identifier isPair.2⟩

theorem levelPairs_dimensions : LevelPairs (fun a b => a.is "[" && b.is "]") scanDimensions where
  toCountsPairs := countsPairs_dimensions
  notEnd isPair := by
    rw [Bool.and_eq_true] at isPair
    exact ⟨Token.kind_ne_eof_of_is isPair.1, Token.kind_ne_eof_of_is isPair.2⟩
  level isPair known known' := by
    rw [Bool.and_eq_true] at isPair
    exact ⟨level_of_is known isPair.1 (by decide), level_of_is known' isPair.2 (by decide)⟩

def Counted (scan : List Token → Nat) (ts ts' : List Token) : Prop :=
  ts' = ts.drop (scan ts) ∧ Crosses 0 (scan ts) ts ts'

variable {α β : Type} {s : ParserState} {isPair : Token → Token → Bool} {scan : List Token → Nat}

theorem LevelPairs.stop (h : LevelPairs isPair scan) (ends : Sealed s.rest)
    (other : isPair s.token (tokenAt s.rest 1) ≠ true) : Counted scan s.rest s.rest := by
  unfold Counted
  rw [h.eq_zero (Bool.eq_false_iff.mpr other)]
  exact ⟨rfl, .refl ends⟩

theorem LevelPairs.step (h : LevelPairs isPair scan) (ends : Sealed s.rest)
    (found : isPair s.token (tokenAt s.rest 1)) : Sealed s.advanced.advanced.rest ∧
      ∀ {ts'}, Counted scan s.advanced.advanced.rest ts' → Counted scan s.rest ts' := by
  obtain ⟨notEnd, notEnd'⟩ := h.notEnd found
  obtain ⟨ts, rest, known, later, behind⟩ := ends.next notEnd
  rw [← ParserState.token_advanced] at found notEnd'
  rw [← behind] at later
  obtain ⟨ts', rest', known', later', behind'⟩ := later.next notEnd'
  rw [behind'] at *
  refine ⟨later', ?_⟩
  rintro _ ⟨rfl, crosses⟩
  obtain ⟨level, level'⟩ := h.level found known known'
  have pair : Crosses 0 2 s.rest ts' := by
    rw [rest, ← behind, rest']
    exact (crosses_token level (.cons notEnd' known' later')).trans (crosses_token level' later')
  have count : scan s.rest = 2 + scan ts' := by
    rw [rest, ← behind, rest', h.more, if_pos found, Nat.add_comm]
  unfold Counted
  rw [count]
  refine ⟨?_, pair.trans crosses⟩
  rw [← drop_drop, rest, ← behind, rest']
  rfl

theorem crosses_dottedRest (steps : Nat) (h : Sealed s.rest) :
    Ends (dottedRest steps) s (fun _ s' => Counted scanDotted s.rest s'.rest) fun _ _ => True := by
  induction steps generalizing s with
  | zero => trivial
  | succ steps ih =>
    rw [dottedRest]
    simp only [ends_bind, ends_look, ends_ite, ends_advance]
    split
    · rename_i found
      obtain ⟨later, more⟩ := levelPairs_dotted.step h found
      exact (ih later).imp fun _ _ counted => more counted
    · rename_i other
      exact levelPairs_dotted.stop h other

theorem crosses_dimensions (steps : Nat) (count : UInt8) (h : Sealed s.rest) :
    Ends (dimensions steps count) s (fun _ s' => Counted scanDimensions s.rest s'.rest) fun _ _ => True := by
  induction steps generalizing s count with
  | zero => trivial
  | succ steps ih =>
    rw [dimensions]
    simp only [ends_bind, ends_look, ends_ite, ends_advance, ends_fail]
    split
    · rename_i found
      obtain ⟨later, more⟩ := levelPairs_dimensions.step h found
      split
      · trivial
      · exact (ih _ later).imp fun _ _ counted => more counted
    · rename_i other
      exact levelPairs_dimensions.stop h other

/-- A name with dots is read as far as it is scanned. -/
theorem crosses_qualifiedName (steps : Nat) (h : Sealed s.rest) (name : s.token.kind = .identifier) :
    Ends (qualifiedName steps) s (fun _ s' => s'.rest = s.rest.drop (1 + scanDotted (s.rest.drop 1)) ∧
      Crosses 0 (1 + scanDotted (s.rest.drop 1)) s.rest s'.rest) fun _ _ => True := by
  obtain ⟨ts, rest, known, later, behind⟩ := h.next (by rw [name]; rintro ⟨⟩)
  have first := crosses_token (level_of_identifier name) later
  rw [← rest] at first
  have tail : s.rest.drop 1 = ts := by
    rw [rest]
    rfl
  unfold qualifiedName
  simp only [ends_bind, ends_identifier, name, beq_self_eq_true, if_true]
  refine (crosses_dottedRest steps (by rw [behind]; exact later)).imp ?_
  rintro _ s' ⟨stops, crosses⟩
  rw [behind] at stops crosses
  rw [tail, ← drop_drop, tail]
  exact ⟨stops, first.trans crosses⟩

/-! ## Closing brackets -/

/-- One angle bracket is closed in front of `ts'`: by a token of its own, or by the first character of
a longer one. -/
inductive ClosesAngle : Nat → List Token → List Token → Prop
  | whole {t : Token} {ts : List Token} : (∀ depth, angleDepth? t (depth + 1) = some depth) → Sealed ts →
      ClosesAngle 1 (t :: ts) ts
  | part {t t' : Token} {ts : List Token} : (∀ depth, angleDepth? t (depth + 1) = angleDepth? t' depth) →
      t'.text.length < t.text.length → t'.is "[" = false → Sealed (t' :: ts) →
      ClosesAngle 0 (t :: ts) (t' :: ts)

/-- The second part of an operator that starts with `>` is an operator too, and closes one bracket less. -/
theorem part_of_angle (known : t.Listed)
    (angle : (t.kind == .operator && 1 < t.text.length && t.text.toList.head? == some '>')) :
    (splitAngle t).2.Listed ∧ (splitAngle t).2.kind ≠ .eof ∧ (splitAngle t).2.is "[" = false ∧
      (splitAngle t).2.text.length < t.text.length ∧
      ∀ depth, angleDepth? t (depth + 1) = angleDepth? (splitAngle t).2 depth := by
  rw [Bool.and_eq_true, Bool.and_eq_true, beq_iff_eq, decide_eq_true_eq, beq_iff_eq] at angle
  obtain ⟨⟨operator, long⟩, head⟩ := angle
  have longer : ∀ op ∈ Token.operators, 1 < op.length → op.toList.head? = some '>' →
      op ∈ [">>", ">>>", ">=", ">>=", ">>>="] := by decide
  have kind : (splitAngle t).2.kind = .operator := operator
  have text : (splitAngle t).2.text = String.ofList (t.text.toList.drop 1) := rfl
  have text' := longer _ (known.operator operator) long head
  simp only [mem_cons, not_mem_nil, or_false] at text'
  refine ⟨⟨by rw [kind]; nofun, fun _ => ?_, ?_, by rw [kind]; trivial⟩, by rw [kind]; nofun, ?_, ?_, fun depth => ?_⟩
  · rw [text]
    rcases text' with is | is | is | is | is <;> rw [is] <;> decide
  · rw [text]
    rcases text' with is | is | is | is | is <;> rw [is] <;> decide
  · unfold Token.is
    rw [kind, text]
    rcases text' with is | is | is | is | is <;> rw [is] <;> decide
  · rw [text]
    rcases text' with is | is | is | is | is <;> rw [is] <;> decide
  · unfold angleDepth?
    rw [kind, text, operator]
    rcases text' with is | is | is | is | is <;> rw [is]
    · show some (depth + 1 - 2) = some (depth - 1)
      congr 1
      omega
    · show some (depth + 1 - 3) = some (depth - 2)
      congr 1
      omega
    · rfl
    · rfl
    · rfl

theorem closes_closeAngle (h : Sealed s.rest) :
    Ends closeAngle s (fun _ s' => ∃ k, ClosesAngle k s.rest s'.rest) fun _ _ => True := by
  obtain ⟨t, ts, rest⟩ := h.exists_cons
  rw [ends_closeAngle, ParserState.split_cons rest]
  split
  · rename_i angle
    rw [rest] at h
    cases h with
    | done isEnd => simp [isEnd] at angle
    | cons more known later =>
      obtain ⟨known', more', other, shorter, level⟩ := part_of_angle known angle
      rw [ends_expect]
      split
      · rw [rest]
        exact ⟨0, .part level shorter other (.cons more' known' later)⟩
      · trivial
  · rw [ends_expect]
    split
    · rename_i closing
      obtain ⟨ts', rest', known, later, behind⟩ := h.next (Token.kind_ne_eof_of_is closing)
      obtain ⟨operator, text⟩ := operator_of_is known closing (by decide)
      rw [rest', behind]
      refine ⟨1, .whole (fun depth => ?_) later⟩
      unfold angleDepth?
      rw [operator, text]
      exact congrArg some (Int.add_sub_cancel depth 1)
    · trivial

theorem Crosses.close (h : Crosses 1 k ts c) (closes : ClosesAngle m c ts') : Crosses 0 (k + m) ts ts' := by
  obtain ⟨t, t', r, left, right, shorter⟩ := h.behind
  cases closes with
  | whole level later =>
    cases right
    refine ⟨later, ?_, fun depth inside => ?_⟩
    · obtain ⟨u, more, rfl⟩ := later.exists_cons
      refine ⟨u, u, more, ?_, rfl, Nat.le_refl _⟩
      rw [← drop_drop, left]
      rfl
    · rw [h.scan depth inside, scanArguments_closing (level depth) (by omega), if_neg (by omega), Option.map_map,
        Int.natCast_zero, Int.add_zero]
      congr 1
      funext n
      exact (Nat.add_assoc k 1 n).symm
  | part level shorter' other later =>
    cases right
    refine ⟨later, ⟨t, _, _, left, rfl, by omega⟩, fun depth inside => ?_⟩
    rw [h.scan depth inside, scanArguments, scanArguments, Int.natCast_one, level, Int.natCast_zero, Int.add_zero]
    rfl

/-! ## The rules for types -/

/-- A rule that reads what may stand in type arguments. -/
def Crossing (p : Parser α) : Prop :=
  ∀ s : ParserState, Sealed s.rest → Ends p s (fun _ s' => ∃ k, Crosses 0 k s.rest s'.rest) fun _ _ => True

theorem Crossing.bind {p : Parser α} {f : α → Parser β} (hp : Crossing p) (hf : ∀ x, Crossing (f x)) :
    Crossing (p >>= f) := fun s h =>
  (hp s h).bind fun x s' ⟨_, first⟩ =>
    (hf x s' first.sealed).imp fun _ _ ⟨_, second⟩ => ⟨_, first.trans second⟩

theorem crossing_pure (x : α) : Crossing (pure x) := fun _ h => ⟨0, .refl h⟩

theorem crossing_make (start : Token) (kind : Kind NodeId) : Crossing (make start kind) := fun _ h => ⟨0, .refl h⟩

/-- Reading a word that may stand in type arguments, if it comes next. -/
theorem Crossing.eat {p q : Parser α} (inside : w ∈ [",", ".", "?", "[", "]", "extends", "super"])
    (hp : Crossing p) (hq : Crossing q) : Crossing (do if ← Parser.eat w then p else q) := by
  intro s h
  rw [ends_bind, ends_eat]
  split
  · rename_i found
    obtain ⟨ts, rest, known, later, behind⟩ := h.next (Token.kind_ne_eof_of_is found)
    have first := crosses_token (level_of_is known found inside) later
    rw [← rest, ← behind] at first
    exact (hp _ first.sealed).imp fun _ _ ⟨_, second⟩ => ⟨_, first.trans second⟩
  · exact hq s h

theorem Crossing.separated {item : Parser α} (h : Crossing item) (steps : Nat) :
    Crossing (Parser.separated "," item steps) := by
  induction steps with
  | zero => exact fun _ _ => trivial
  | succ steps ih =>
    exact h.bind fun x => .eat (by decide) (ih.bind fun _ => crossing_pure _) (crossing_pure _)

variable {r : Rules}

theorem Crossing.typeArgument (h : Crossing (type r)) : Crossing (typeArgument r) := by
  intro s ends
  unfold Parser.typeArgument
  rw [ends_bind, ends_look]
  split
  · rename_i found
    obtain ⟨ts, rest, known, later, behind⟩ := ends.next (Token.kind_ne_eof_of_is found)
    have first := crosses_token (level_of_is known found (by decide)) later
    rw [← rest, ← behind] at first
    rw [ends_bind, ends_advance]
    have bound : Crossing (do
        if ← Parser.eat "extends" then
          let bound ← type r
          make s.token (.wildcardType (some bound) true)
        else if ← Parser.eat "super" then
          let bound ← type r
          make s.token (.wildcardType (some bound) false)
        else make s.token (.wildcardType none true)) :=
      .eat (by decide) (h.bind fun _ => crossing_make _ _)
        (.eat (by decide) (h.bind fun _ => crossing_make _ _) (crossing_make _ _))
    exact (bound _ first.sealed).imp fun _ _ ⟨_, second⟩ => ⟨_, first.trans second⟩
  · exact h s ends

theorem ends_typeArguments (h : Crossing (type r)) (ends : Sealed s.rest) : Ends (typeArguments r false) s (fun _ s' =>
      s.token.is "<" = false ∧ s'.rest = s.rest ∨
      s.token.is "<" ∧ ∃ ts c k m, s.rest = s.token :: ts ∧ s.token.Listed ∧ Sealed ts ∧
        Crosses 0 k ts c ∧ ClosesAngle m c s'.rest) fun _ _ => True := by
  unfold typeArguments
  rw [ends_bind, ends_eat]
  split
  · rename_i opening
    obtain ⟨ts, rest, known, later, behind⟩ := ends.next (Token.kind_ne_eof_of_is opening)
    simp only [Bool.false_and, ends_bind, ends_look, if_true]
    refine (h.typeArgument.separated _ _ (by rw [behind]; exact later)).bind ?_
    rintro _ s' ⟨k, inner⟩
    refine (closes_closeAngle inner.sealed).bind ?_
    rintro _ s'' ⟨m, closes⟩
    rw [behind] at inner
    exact .inr ⟨opening, ts, s'.rest, k, m, rest, known, later, inner, closes⟩
  · rename_i other
    exact .inl ⟨Bool.eq_false_iff.mpr other, rfl⟩

/-- The scan ends where a list of arguments does, if that is a token. Otherwise it was the first part of
one, and no dimensions follow. -/
theorem ClosesAngle.count (closes : ClosesAngle m c ts') (h : Crosses 0 k ts c) :
    (ts' = ts.drop (k + m) → scanArguments 1 ts = some (k + m)) ∧ (ts' ≠ ts.drop (k + m) → scanDimensions ts' = 0) := by
  obtain ⟨t, t', r, left, right, shorter⟩ := h.behind
  cases closes with
  | whole level later =>
    cases right
    refine ⟨fun _ => ?_, fun other => absurd ?_ other⟩
    · rw [h.scan 1 (by omega)]
      exact congrArg (Option.map (k + ·)) ((scanArguments_closing (level 0) (Int.le_refl 0) _).trans (if_pos rfl))
    · rw [← drop_drop, left]
      rfl
  | part level shorter' other later =>
    cases right
    refine ⟨fun same => ?_, fun _ => ?_⟩
    · rw [Nat.add_zero, left] at same
      cases same
      omega
    · cases r with
      | nil => rfl
      | cons u r =>
        rw [scanDimensions, other]
        rfl

/-- A type that is read up to a token is scanned up to it. -/
def Scanned (p : Parser α) : Prop :=
  ∀ s : ParserState, Sealed s.rest → Ends p s (fun _ s' => ∃ k, Crosses 0 k s.rest s'.rest ∧
    (s'.rest = s.rest.drop k → scanType s.rest = some k)) fun _ _ => True

theorem Scanned.crossing {p : Parser α} (h : Scanned p) : Crossing p := fun s ends =>
  (h s ends).imp fun _ _ ⟨k, crosses, _⟩ => ⟨k, crosses⟩

theorem ends_typeDimensions {start : Token} {kind : UInt8 → Kind NodeId} {steps : Nat} {s' : ParserState}
    (crosses : Crosses 0 k s.rest s'.rest)
    (boundary : s'.rest = s.rest.drop k → scanNamed s.rest = some k)
    (inner : s'.rest ≠ s.rest.drop k → scanDimensions s'.rest = 0) :
    Ends (do let dims ← dimensions steps 0; make start (kind dims)) s' (fun _ s'' => ∃ k,
      Crosses 0 k s.rest s''.rest ∧ (s''.rest = s.rest.drop k → scanType s.rest = some k)) fun _ _ => True := by
  refine (crosses_dimensions steps 0 crosses.sealed).bind fun dims s'' ⟨stops, further⟩ => ?_
  refine ⟨k + scanDimensions s'.rest, crosses.trans further, fun same => ?_⟩
  by_cases here : s'.rest = s.rest.drop k
  · rw [scanType_eq, boundary here, here]
    rfl
  · rw [inner here] at same stops
    exact absurd (stops.symm.trans same) here

theorem scanned_typeReference (h : Crossing (type r)) : Scanned (typeReference r false true) := by
  intro s ends
  unfold typeReference
  rw [ends_bind, ends_look, ends_bind, ends_look, ends_ite]
  split
  · trivial
  · dsimp only
    split
    · rename_i primitive
      have more : s.token.kind ≠ .eof := by
        intro isEnd
        unfold Token.isPrimitive at primitive
        rw [isEnd] at primitive
        cases primitive
      obtain ⟨ts, rest, known, later, behind⟩ := ends.next more
      have first := crosses_token (level_of_primitive primitive) later
      have tail : s.advanced.rest = s.rest.drop 1 := by
        rw [behind, rest]
        rfl
      rw [← rest, ← behind] at first
      rw [ends_bind, ends_advance, pure_bind, pure_bind, if_pos rfl]
      exact ends_typeDimensions first (fun _ => if_pos primitive) fun other => absurd tail other
    · rename_i notPrimitive
      split
      · rename_i name
        rw [beq_iff_eq] at name
        have named : scanNamed s.rest = _ := (if_neg notPrimitive).trans (if_pos (beq_iff_eq.mpr name))
        refine (crosses_qualifiedName r.steps ends name).bind fun _ s1 ⟨stops, first⟩ => ?_
        generalize 1 + scanDotted (s.rest.drop 1) = n at *
        have next : tokenAt s.rest n = s1.token := by
          obtain ⟨t, more, rest⟩ := first.sealed.exists_cons
          rw [tokenAt_of_drop (stops.symm.trans rest), ParserState.token, rest]
          rfl
        dsimp only at named
        rw [next, ← stops] at named
        refine (ends_typeArguments h first.sealed).bind fun _ _ found => ?_
        rcases found with ⟨none, same⟩ | ⟨opening, ts, c, k, m, rest, known, later, inside, closes⟩
        · rw [← same] at stops first
          refine ends_typeDimensions first (fun _ => ?_) fun other => absurd stops other
          rw [named, none]
          rfl
        · have list := ((crosses_bracket (opening_of_is known opening) later).trans inside).close closes
          rw [← rest] at list
          have behind : s.rest.drop (n + (1 + k + m)) = ts.drop (k + m) := by
            rw [← drop_drop, ← stops, rest, Nat.add_assoc, ← drop_drop]
            rfl
          obtain ⟨count, inner⟩ := closes.count inside
          refine ends_typeDimensions (first.trans list) (fun boundary => ?_) fun other => ?_
          · have scanned : scanArguments 0 s1.rest = some (1 + k + m) := by
              rw [rest, scanArguments_cons (opening_of_is known opening 0), if_neg (by omega), if_neg (by omega),
                Int.zero_add, count (boundary.trans behind)]
              exact congrArg some (Nat.add_assoc 1 k m).symm
            rw [named, if_pos opening, scanned]
            rfl
          · exact inner fun same => other (same.trans behind.symm)
      · trivial

theorem scanned_type (steps : Nat) : Scanned (grammar steps .type) := by
  induction steps with
  | zero => exact fun _ _ => trivial
  | succ steps ih =>
    intro s ends
    have inner := @scanned_typeReference ⟨steps, grammar steps⟩ ih.crossing { s with depth := s.depth + 1 } ends
    show Ends (nested _) s _ _
    rw [ends_nested]
    split
    · trivial
    · exact inner

end Parser

end JavaEdit
