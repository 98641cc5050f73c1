import JavaEdit.Proofs.Scanning.Types

/-!
# Expressions are not taken for types

The words that a scan of a type passes can all stand in a type, and the last of them is part of a
name, a closing angle bracket or the closing one of a pair of brackets (`scanType_ends`). The words
of an expression that stands in parentheses are not such words, so the parenthesis is not taken for
that of a cast (`castAhead_expression`).
-/

namespace JavaEdit.Parser

open Layout List

variable {depth : Int} {n : Nat} {ok : Page → Prop} {t : Page} {ts ws : List Token} {w : Token}

/-- Whether a word can stand in a type. -/
def inType (w : Token) : Bool :=
  w.kind == .identifier || w.isPrimitive ||
    ["extends", "super", "<", ">", ">>", ">>>", ",", ".", "?", "[", "]", "&"].any w.is

/-- Whether a word closes angle brackets. -/
def isCloser (w : Token) : Bool := [">", ">>", ">>>"].any w.is

/-- A word that the scan of type arguments takes can stand in a type, and closes brackets if the depth decreases. -/
theorem inType_of_angleDepth? {inner : Int} (h : angleDepth? w depth = some inner) :
    inType w ∧ (inner < depth → isCloser w) := by
  unfold angleDepth? at h
  unfold inType isCloser Token.is
  cases kind : w.kind with
  | identifier =>
    rw [kind] at h
    obtain rfl := Option.some.inj h
    exact ⟨rfl, fun less => absurd less (Int.lt_irrefl _)⟩
  | keyword =>
    rw [kind] at h
    dsimp only at h
    split at h
    · rename_i known
      obtain rfl := Option.some.inj h
      refine ⟨?_, fun less => absurd less (Int.lt_irrefl _)⟩
      simp only [Bool.or_eq_true] at known
      rcases known with (primitive | extending) | super
      · simp [primitive]
      · simp [beq_iff_eq.mp extending]
      · simp [beq_iff_eq.mp super]
    · cases h
  | operator =>
    rw [kind] at h
    repeat' split at h
    all_goals simp_all
    all_goals omega
  | _ =>
    rw [kind] at h
    cases h

/-- The scan of type arguments passes words that can stand in a type, up to one that closes brackets. -/
theorem scanArguments_ends (inside : 1 ≤ depth ∨ depth = 0 ∧ (tokenAt ts 0).is "<") (h : scanArguments depth ts = some n) :
    n ≤ ts.length ∧ (∀ w ∈ ts.take n, inType w) ∧ ∃ front w, ts.take n = front ++ [w] ∧ isCloser w := by
  induction ts generalizing depth n with
  | nil => exact absurd h (by simp [scanArguments])
  | cons t ts ih =>
    cases found : angleDepth? t depth with
    | none => exact absurd h (by simp [scanArguments, found])
    | some inner =>
      obtain ⟨here, closes⟩ := inType_of_angleDepth? found
      rw [scanArguments_cons found] at h
      split at h
      · rename_i closed
        rw [← Option.some.inj h]
        refine ⟨by simp, by simpa using here, [], t, rfl, closes ?_⟩
        rcases inside with inside | ⟨rfl, opening⟩
        · omega
        · -- an opening bracket does not leave the depth as it is
          obtain ⟨operator | keyword, text⟩ := Token.is_iff.mp (show t.is "<" from opening)
          · simp [angleDepth?, operator, text] at found
            omega
          · simp [angleDepth?, keyword, text, Token.isPrimitive, Token.primitives] at found
      · split at h
        · cases h
        · obtain ⟨m, rest, rfl⟩ := Option.map_eq_some_iff.mp h
          obtain ⟨short, all, front, w, taken, closer⟩ := ih (.inl (by omega)) rest
          rw [Nat.add_comm, take_succ_cons]
          refine ⟨by simpa using short, ?_, t :: front, w, by simp [taken], closer⟩
          exact forall_mem_cons.mpr ⟨here, all⟩

/-- The words passed by a scan that counts pairs, and the last pair. -/
theorem CountsPairs.ends {isPair : Token → Token → Bool} {scan : List Token → Nat} (h : CountsPairs isPair scan) :
    ∀ ts : List Token, scan ts ≤ ts.length ∧ (∀ w ∈ ts.take (scan ts), ∃ v, isPair w v = true ∨ isPair v w) ∧
      (scan ts = 0 ∨ ∃ front v w, ts.take (scan ts) = front ++ [v, w] ∧ isPair v w)
  | [] => by simp [h.nil]
  | [a] => by simp [h.single]
  | a :: b :: ts => by
    obtain ⟨short, all, last⟩ := h.ends ts
    rw [h.more]
    split
    · rename_i found
      rw [take_succ_cons, take_succ_cons]
      refine ⟨by simp only [length_cons]; omega, ?_, .inr ?_⟩
      · exact forall_mem_cons.mpr ⟨⟨b, .inl found⟩, forall_mem_cons.mpr ⟨⟨a, .inr found⟩, all⟩⟩
      · rcases last with none | ⟨front, v, w, taken, pair⟩
        · exact ⟨[], a, b, by simp [none], found⟩
        · exact ⟨a :: b :: front, v, w, by simp [taken], pair⟩
    · simp

/-- Whether a word can stand in a name or is a primitive type. -/
def inName (w : Token) : Bool := w.kind == .identifier || w.is "." || w.isPrimitive

theorem inType_of_inName (h : inName w) : inType w := by
  simp only [inName, Bool.or_eq_true] at h
  rcases h with (identifier | point) | primitive
  · simp [inType, identifier]
  · simp [inType, point]
  · simp [inType, primitive]

/-- How the words that a scan of a type passes can end. -/
inductive TypeEnd : List Token → Prop
  | name {ws : List Token} : (∀ w ∈ ws, inName w = true) → TypeEnd ws
  | angle {front : List Token} {w : Token} : isCloser w = true → TypeEnd (front ++ [w])
  | brackets {front : List Token} {v w : Token} : v.is "[" = true → w.is "]" = true →
      TypeEnd (front ++ [v, w])

theorem scanNamed_ends (h : scanNamed ts = some n) :
    n ≤ ts.length ∧ (∀ w ∈ ts.take n, inType w) ∧ TypeEnd (ts.take n) := by
  unfold scanNamed at h
  cases ts with
  | nil => exact absurd h (by simp [tokenAt, endToken, Token.isPrimitive])
  | cons t ts =>
    obtain ⟨short, dotted, -⟩ := countsPairs_dotted.ends ts
    split at h
    · rename_i primitive
      rw [← Option.some.inj h]
      have here : inName t := by
        simp only [inName, show t.isPrimitive = true from primitive, Bool.or_true]
      refine ⟨by simp, by simpa using inType_of_inName here, .name (by simpa using here)⟩
    · split at h
      · rename_i identifier
        -- the words of the name
        have here : ∀ w ∈ (t :: ts).take (1 + scanDotted ts), inName w := by
          intro w mem
          rw [Nat.add_comm, take_succ_cons] at mem
          rcases mem_cons.mp mem with rfl | mem
          · simp only [inName, show (w.kind == .identifier) = true from identifier, Bool.true_or]
          · obtain ⟨v, pair | pair⟩ := dotted w mem
            · simp [inName, (Bool.and_eq_true_iff.mp pair).1]
            · simp [inName, (Bool.and_eq_true_iff.mp pair).2]
        dsimp only at h
        rw [drop_one, tail_cons] at h
        split at h
        · rename_i opening
          obtain ⟨m, scanned, rfl⟩ := Option.map_eq_some_iff.mp h
          have first : tokenAt ((t :: ts).drop (1 + scanDotted ts)) 0 = tokenAt (t :: ts) (1 + scanDotted ts) := by
            cases dropped : (t :: ts).drop (1 + scanDotted ts) with
            | nil => exact absurd scanned (by simp [dropped, scanArguments])
            | cons => exact (tokenAt_of_drop dropped).symm
          obtain ⟨bounded, all, front, w, taken, closer⟩ := scanArguments_ends (.inr ⟨rfl, first ▸ opening⟩) scanned
          rw [take_add]
          refine ⟨?_, fun v mem => ?_, ?_⟩
          · rw [length_drop] at bounded
            simp only [length_cons] at bounded ⊢
            omega
          · rcases mem_append.mp mem with inside | behind
            · exact inType_of_inName (here v inside)
            · exact all v behind
          · rw [taken, ← append_assoc]
            exact .angle closer
        · rw [← Option.some.inj h]
          refine ⟨by simp only [length_cons]; omega, fun w mem => ?_, .name here⟩
          exact inType_of_inName (here w mem)
      · cases h

theorem scanType_ends (h : scanType ts = some n) :
    n ≤ ts.length ∧ (∀ w ∈ ts.take n, inType w) ∧ TypeEnd (ts.take n) := by
  rw [scanType_eq] at h
  obtain ⟨m, named, rfl⟩ := Option.map_eq_some_iff.mp h
  obtain ⟨short, all, ending⟩ := scanNamed_ends named
  obtain ⟨bounded, brackets, last⟩ := countsPairs_dimensions.ends (ts.drop m)
  rw [length_drop] at bounded
  rw [take_add]
  refine ⟨by omega, fun w mem => ?_, ?_⟩
  · rcases mem_append.mp mem with inside | behind
    · exact all w inside
    · obtain ⟨v, pair | pair⟩ := brackets w behind
      · simp [inType, (Bool.and_eq_true_iff.mp pair).1]
      · simp [inType, (Bool.and_eq_true_iff.mp pair).2]
  · rcases last with none | ⟨front, v, w, taken, pair⟩
    · rwa [none, take_zero, append_nil]
    · rw [taken, ← append_assoc]
      exact .brackets (Bool.and_eq_true_iff.mp pair).1 (Bool.and_eq_true_iff.mp pair).2

/-- How the words of an expression end that could all stand in a type. -/
inductive PlainEnd : List Token → Prop
  | name (front : List Token) {w : Token} : w.kind = .identifier → PlainEnd (front ++ [w])
  | index {front : List Token} {v w : Token} : v.is "[" = false → w.is "]" = true →
      PlainEnd (front ++ [v, w])

theorem PlainEnd.append (h : PlainEnd ws) (front : List Token) : PlainEnd (front ++ ws) := by
  cases h with
  | name _ identifier =>
    rw [← append_assoc]
    exact .name _ identifier
  | index other closing =>
    rw [← append_assoc]
    exact .index other closing

theorem TypeEnd.of_plainEnd (h : TypeEnd ws) (plain : PlainEnd ws) : ∀ w ∈ ws, inName w := by
  cases h with
  | name all => exact all
  | @angle front w closer =>
    exfalso
    generalize whole : front ++ [w] = ws at plain
    have last := congrArg getLast? whole
    cases plain with
    | name _ identifier =>
      obtain rfl : w = _ := by simpa using last
      simp [isCloser, Token.is_of_identifier identifier] at closer
    | @index front' v w' _ closing =>
      obtain rfl : w = w' := by simpa using last
      simp [isCloser, Token.is_eq_false closing] at closer
  | @brackets front v w opening closing =>
    exfalso
    generalize whole : front ++ [v, w] = ws at plain
    cases plain with
    | name _ identifier =>
      obtain rfl : w = _ := by simpa using congrArg getLast? whole
      rw [Token.is_of_identifier identifier] at closing
      cases closing
    | index other _ =>
      have same := append_inj_right' whole rfl
      simp only [cons.injEq, and_true] at same
      rw [← same.1, opening] at other
      cases other

/-- Some of the words cannot stand in a type, or they end plainly. -/
def Untyped (ws : List Token) : Prop := (∃ w ∈ ws, inType w = false) ∨ PlainEnd ws

theorem untyped_of_mem (mem : w ∈ ws) (other : inType w = false) : Untyped ws := .inl ⟨w, mem, other⟩

theorem Untyped.append (h : Untyped ws) (front : List Token) : Untyped (front ++ ws) := by
  rcases h with ⟨w, mem, other⟩ | plain
  · exact .inl ⟨w, mem_append.mpr (.inr mem), other⟩
  · exact .inr (plain.append front)

theorem PlainEnd.last (h : PlainEnd ws) : ∃ front v, ws = front ++ [v] ∧ v.is "[" = false := by
  cases h with
  | @name front w identifier => exact ⟨front, w, rfl, Token.is_of_identifier identifier _⟩
  | @index front v w _ closing => exact ⟨front ++ [v], w, by simp, Token.is_eq_false closing (by decide)⟩

theorem Untyped.operand (h : Untyped (phrase t).words) (least : Nat) : Untyped ((phrase t).operand least) := by
  unfold Phrase.operand
  split
  · exact untyped_of_mem (w := sign "(") (by simp) (by decide)
  · exact h

theorem literalWord_not_inType (value : Literal) : inType (literalWord value) = false := by
  cases value with
  | boolean b => cases b <;> decide
  | null => decide
  | _ => rfl

theorem symbol_not_inType (op : UnaryOperator) : inType (sign op.symbol) = false := by
  cases op <;> decide

theorem assignmentWord_not_inType (op : Option BinaryOperator) : inType (assignmentWord op) = false := by
  cases op with
  | none => decide
  | some op => cases op <;> decide

theorem mem_unaryWords (op : UnaryOperator) (p : Phrase) : sign op.symbol ∈ unaryWords op p := by
  unfold unaryWords
  split <;> simp

section

attribute [local simp] nodePhrase inlinePhrase Kind.map castWords argumentWords

theorem untyped_expression {place : ValueSlot}
    (h : IsExpression ok place t) (operand : place = .operand) : Untyped (phrase t).before := by
  have opening : inType (sign "(") = false := by decide
  have creating : inType (nameWord "new") = false := by decide
  induction h with rw [before_node]
  | literal =>
    exact untyped_of_mem (mem_singleton_self _) (literalWord_not_inType _)
  | name isName =>
    exact .inr (.name [] (kind_nameWord_of_isIdentifier isName))
  | this =>
    exact untyped_of_mem (mem_singleton_self (nameWord "this")) (by decide)
  | super => cases operand
  | @access _ target n _ isName _ _ =>
    exact Untyped.append (.inr (.name [sign "."] (kind_nameWord_of_isIdentifier isName))) _
  | call | ownCall =>
    exact untyped_of_mem (by simp) opening
  | new | newArray =>
    exact untyped_of_mem (by simp) creating
  | @index _ target index _ isIndex _ inner =>
    show Untyped ((phrase target).operand 15 ++ sign "[" :: (phrase index).words ++ [sign "]"])
    rw [isIndex.words_eq]
    rcases inner rfl with ⟨w, member, other⟩ | plain
    · exact untyped_of_mem (by simp [member]) other
    · obtain ⟨front, v, words, notOpening⟩ := plain.last
      rw [words]
      have ending : PlainEnd (((phrase target).operand 15 ++ sign "[" :: front) ++ [v, sign "]"]) :=
        .index notOpening (by decide)
      exact .inr (by simpa using ending)
  | @binary _ op left right _ _ isRight _ _ inner =>
    show Untyped ((phrase left).operand _ ++ operatorWord op :: rightWords op (phrase right))
    rw [append_cons, isRight.rightWords_eq]
    exact (Untyped.operand (isRight.words_eq ▸ inner rfl) _).append _
  | typeTest =>
    exact untyped_of_mem (w := nameWord "instanceof")
      (by simp [operatorWord, BinaryOperator.symbol]) (by decide)
  | unary | update =>
    exact untyped_of_mem (mem_unaryWords _ _) (symbol_not_inType _)
  | @assignment _ op =>
    exact untyped_of_mem (by simp) (assignmentWord_not_inType op)
  | conditional =>
    exact untyped_of_mem (w := sign ":") (by simp) (by decide)
  | cast =>
    exact untyped_of_mem (by simp) opening

theorem exists_not_inName {place : ValueSlot} (h : IsExpression ok place t) (loose : precedence t.kind < 15) :
    ∃ w ∈ (phrase t).before, inName w = false := by
  have apart : ∀ {w : Token}, inType w = false → inName w = false := by
    intro w other
    rw [← Bool.not_eq_true] at other ⊢
    exact fun name => other (inType_of_inName name)
  have operator : ∀ op : BinaryOperator, inName (operatorWord op) = false := by
    intro op
    cases op <;> decide
  cases h with rw [before_node]
  | newArray =>
    exact ⟨nameWord "new", by simp, by decide⟩
  | @binary _ op =>
    exact ⟨operatorWord op, by simp, operator op⟩
  | typeTest =>
    exact ⟨_, by simp, operator .instanceOf⟩
  | unary | update =>
    exact ⟨_, mem_unaryWords _ _, apart (symbol_not_inType _)⟩
  | @assignment _ op =>
    exact ⟨_, by simp, apart (assignmentWord_not_inType op)⟩
  | conditional =>
    exact ⟨sign ":", by simp, by decide⟩
  | cast =>
    exact ⟨sign "(", by simp, by decide⟩
  | _ => exact absurd loose (Nat.lt_irrefl 15)

end

theorem castAhead_cons (w : Token) (ts : List Token) : castAhead (w :: ts) =
    match scanType ts with
    | none => false
    | some n =>
      (tokenAt ts n).is ")" &&
        ((tokenAt ts 0).isPrimitive && n == 1 || startsCastOperand (tokenAt ts (n + 1))) &&
        !closesBeforeArrow 0 (w :: ts) := rfl

/-- Words in parentheses are not taken for a cast, unless they could be a type. -/
theorem castAhead_eq_false {rest : List Token} (balanced : Balanced ws) (untyped : Untyped ws)
    (more : ∃ w ∈ ws, inName w = false) : castAhead (sign "(" :: (ws ++ sign ")" :: rest)) = false := by
  rw [castAhead_cons]
  cases scanned : scanType (ws ++ sign ")" :: rest) with
  | none => rfl
  | some n =>
    obtain ⟨short, all, ending⟩ := scanType_ends scanned
    suffices other : (tokenAt (ws ++ sign ")" :: rest) n).is ")" = false by
      dsimp only
      rw [other, Bool.false_and, Bool.false_and]
    have parenthesis : inType (sign ")") = false := by decide
    -- the parenthesis behind the words cannot stand in a type
    have inside : n ≤ ws.length := by
      refine Nat.le_of_not_lt fun _ => ?_
      have passed := all (sign ")") (by
        rw [take_append, take_of_length_le (by omega)]
        obtain ⟨k, more⟩ : ∃ k, n - ws.length = k + 1 := ⟨n - ws.length - 1, by omega⟩
        simp [more])
      cases passed
    rw [take_append_of_le_length inside] at all ending
    rw [← Bool.not_eq_true]
    intro closing
    by_cases whole : n = ws.length
    · rw [whole, take_length] at all ending
      obtain ⟨w, mem, other⟩ := more
      have plain : PlainEnd ws := by
        rcases untyped with ⟨v, inside, refused⟩ | plain
        · rw [all v inside] at refused
          cases refused
        · exact plain
      rw [ending.of_plainEnd plain w mem] at other
      cases other
    · -- a parenthesis among the words has been opened before
      have before : n < ws.length := by omega
      have found : ws = ws.take n ++ (tokenAt (ws ++ sign ")" :: rest) n) :: ws.drop (n + 1) := by
        have token : tokenAt (ws ++ sign ")" :: rest) n = ws[n] := by
          unfold tokenAt
          rw [getElem?_append_left before, getElem?_eq_getElem before, Option.getD_some]
        rw [token, ← drop_eq_getElem_cons before, take_append_drop]
      rw [found] at balanced
      obtain ⟨v, mem, opening⟩ := balanced.opened closing
      have refused : inType v = false := by
        obtain ⟨operator | keyword, text⟩ := Token.is_iff.mp opening
        · simp [inType, Token.isPrimitive, Token.is, operator, text]
        · simp [inType, Token.isPrimitive, Token.primitives, Token.is, keyword, text]
      rw [all v mem] at refused
      cases refused

theorem castAhead_expression (h : IsExpression ok .operand t) (loose : precedence t.kind < 15) (rest : List Token) :
    castAhead (sign "(" :: ((phrase t).words ++ sign ")" :: rest)) = false := by
  rw [h.words_eq]
  exact castAhead_eq_false (balanced_expression h) (untyped_expression h rfl) (exists_not_inName h loose)

/-- Neither is anything that starts with an operator. -/
theorem castAhead_operator (operator : w.kind = .operator) (ws : List Token) :
    castAhead (sign "(" :: w :: ws) = false := by
  have none : scanType (w :: ws) = none := by
    rw [scanType_eq]
    unfold scanNamed
    rw [show tokenAt (w :: ws) 0 = w from rfl]
    simp [Token.isPrimitive, operator]
  rw [castAhead_cons, none]

theorem words_primitiveType (h : IsType .plain t) (primitive : isPrimitiveType t.kind) :
    ∃ n, (phrase t).words = [nameWord n] ∧ (nameWord n).isPrimitive := by
  have reserved : ∀ n ∈ primitiveNames, isDotted n = false := by decide
  cases h with
  | @primitive _ name dims known _ =>
    obtain ⟨single, isPrimitive⟩ := dotted_primitive known
    simp only [Tree.kind, isPrimitiveType, Bool.and_eq_true, beq_iff_eq] at primitive
    refine ⟨name, ?_, isPrimitive⟩
    rw [words_typeReference, single, primitive.1]
    rfl
  | @named _ name _ _ isName _ _ =>
    simp only [Tree.kind, isPrimitiveType, Bool.and_eq_true, contains_iff_mem] at primitive
    rw [reserved name primitive.2] at isName
    cases isName

theorem castAhead_type (h : IsType .plain t) {rest : List Token}
    (operand : isPrimitiveType t.kind = true ∨ startsCastOperand w) (noArrow : w.is "->" = false) :
    castAhead (sign "(" :: ((phrase t).words ++ sign ")" :: w :: rest)) := by
  have ends : EndsType (sign ")" :: w :: rest) :=
    ⟨by simp, fun text _ => by
      rw [show tokenAt (sign ")" :: w :: rest) 0 = sign ")" from rfl, sign_is]
      revert text
      decide⟩
  have closing : tokenAt ((phrase t).words ++ sign ")" :: w :: rest) (phrase t).words.length =
      sign ")" := tokenAt_append (by simp) 0
  have next : tokenAt ((phrase t).words ++ sign ")" :: w :: rest) ((phrase t).words.length + 1) =
      w := tokenAt_append (by simp) 1
  rw [castAhead_cons, scanType_type h ends]
  dsimp only
  rw [closing, next, closesBeforeArrow_enclosed (balanced_words (balanced_type h)),
    show tokenAt (w :: rest) 0 = w from rfl, noArrow]
  simp only [sign_is, beq_self_eq_true, Bool.true_and, Bool.not_false, Bool.and_true, Bool.or_eq_true]
  rcases operand with primitive | starts
  · obtain ⟨n, words, isPrimitive⟩ := words_primitiveType h primitive
    rw [words]
    exact .inl (by rw [show tokenAt ([nameWord n] ++ _) 0 = nameWord n from rfl, isPrimitive]; rfl)
  · exact .inr starts

end JavaEdit.Parser
