import JavaEdit.Proofs.Reading.Types
import JavaEdit.Proofs.Scanning.Casts

/-!
# Levels of expressions

How tightly an expression binds decides which parser reads it and what may stand behind it. An
operand of a binary operator, or of a point or an index, is not the end of what the parser reads:
the words behind it are read by the same loop. Such operands are described by what the loop does
once they are read (`ReadsChain`, `ReadsSpine`); the others by what one goal of the grammar does
(`ReadsGoal`). `ReadsAs` puts these together, from the loosest level to the tightest; what is read
at one level is read at all looser ones.
-/

namespace JavaEdit.Parser

open Layout
open ParserState (firstWord)

variable {least level : Nat} {text : String} {w : Token}

theorem tokenAt_end (ws : List Token) : tokenAt (ws ++ [endToken]) 0 = firstWord ws := by
  cases ws <;> rfl

theorem tokenAt_cons_end (w : Token) (ws : List Token) : tokenAt (w :: ws ++ [endToken]) 1 = firstWord ws := by
  cases ws <;> rfl

theorem literalValue?_of_plain {w' : Token} (h : w.plain = w') : literalValue? w = literalValue? w' := by
  rw [← h]
  rfl

theorem firstWord_end (ws : List Token) : firstWord (ws ++ [endToken]) = firstWord ws := by
  cases ws <;> rfl

/-! ## Words behind an expression -/

/-- Words that may stand behind an expression, each with the loosest level it can follow. -/
def endings : List (Nat × String) :=
  [(0, ")"), (0, "]"), (0, ","), (0, ";"), (0, ":"), (2, "="), (3, "?")]
    ++ (BinaryOperator.all.filter BinaryOperator.isCompound).map (fun op => (2, op.symbol ++ "="))
    ++ BinaryOperator.all.map (fun op => (op.precedence + 1, op.symbol))
    ++ [(15, "."), (15, "["), (15, "++"), (15, "--")]

/-- Whether an expression whose parts bind at least as tightly as `level` ends in front of a word. -/
def Closes (level : Nat) (w : Token) : Prop := w.kind = .eof ∨ ∃ e ∈ endings, e.1 ≤ level ∧ w.is e.2 = true

theorem Closes.mono {level' : Nat} (h : Closes level w) (le : level ≤ level') : Closes level' w := by
  rcases h with eof | ⟨e, mem, low, same⟩
  · exact .inl eof
  · exact .inr ⟨e, mem, Nat.le_trans low le, same⟩

theorem Closes.is_eq_false (h : Closes level w)
    (other : ∀ e ∈ endings, e.1 ≤ level → e.2 ≠ text) : w.is text = false := by
  rcases h with eof | ⟨e, mem, low, same⟩
  · simp [Token.is, eof]
  · refine Bool.eq_false_iff.mpr fun is => other e mem low ?_
    exact (Token.is_iff.mp same).2.symm.trans (Token.is_iff.mp is).2

theorem binaryOperator?_plain (w : Token) : binaryOperator? w.plain = binaryOperator? w := rfl

theorem assignmentOperator?_plain (w : Token) : assignmentOperator? w.plain = assignmentOperator? w := rfl

theorem Closes.precedence_lt (h : Closes level w) {op : BinaryOperator}
    (found : binaryOperator? w = some op) : op.precedence < level := by
  have symbols : ∀ text, BinaryOperator.ofSymbol? text = some op → text = op.symbol := by
    intro text same
    have := List.find?_some same
    exact (beq_iff_eq.mp this).symm
  have text : w.text = op.symbol ∧ w.kind ≠ .eof := by
    unfold binaryOperator? at found
    split at found
    · rename_i kind
      exact ⟨symbols _ found, by rw [kind]; decide⟩
    · rename_i kind
      split at found
      · rename_i same
        obtain rfl := Option.some.inj found
        exact ⟨beq_iff_eq.mp same, by rw [kind]; decide⟩
      · cases found
    · cases found
  rcases h with eof | ⟨e, mem, low, same⟩
  · exact absurd eof text.2
  · have level : ∀ op : BinaryOperator, ∀ e ∈ endings, e.2 = op.symbol → e.1 = op.precedence + 1 := by
      intro op
      cases op <;> decide
    have := level op e mem (by rw [← (Token.is_iff.mp same).2, text.1])
    omega

theorem Closes.not_assignment (h : Closes 1 w) : assignmentOperator? w = none := by
  unfold assignmentOperator?
  rcases h with eof | ⟨e, mem, low, same⟩
  · simp [eof]
  · have texts : ∀ e ∈ endings, e.1 ≤ 1 → (e.2 == "=") = false ∧ BinaryOperator.ofCompound? e.2 = none := by decide
    obtain ⟨notPlain, notCompound⟩ := texts e mem low
    rw [(Token.is_iff.mp same).2, notPlain, notCompound]
    simp

theorem Closes.no_suffix (h : Closes 14 w) : ∀ text ∈ [".", "[", "++", "--", "::"], w.is text = false := by
  have texts : ∀ text ∈ [".", "[", "++", "--", "::"], ∀ e ∈ endings, e.1 ≤ 14 → e.2 ≠ text := by
    decide
  exact fun text mem => h.is_eq_false (texts text mem)

theorem Closes.not_angle (h : Closes level w) (le : level ≤ 9) : w.is "<" = false := by
  have texts : ∀ e ∈ endings, e.1 ≤ 9 → e.2 ≠ "<" := by decide
  exact h.is_eq_false fun e mem low => texts e mem (Nat.le_trans low le)

/-- Words that never stand behind an expression. -/
theorem Closes.other (h : Closes level w) : ∀ text ∈ ["(", "->", "::", "\x7b", "@"], w.is text = false := by
  have texts : ∀ text ∈ ["(", "->", "::", "\x7b", "@"], ∀ e ∈ endings, e.2 ≠ text := by decide
  exact fun text mem => h.is_eq_false fun e inside _ => texts text mem e inside

theorem Closes.kind_ne (h : Closes level w) : w.kind ≠ .identifier := by
  intro identifier
  rcases h with eof | ⟨e, -, -, same⟩
  · rw [eof] at identifier
    cases identifier
  · rw [Token.is_of_identifier identifier] at same
    cases same

theorem closes_sign (known : (least, text) ∈ endings) (le : least ≤ level) : Closes level (sign text) :=
  .inr ⟨(least, text), known, le, by simp⟩

/-! ## Levels -/

/-- A goal is answered as its rule says, on top of a grammar with fewer steps. -/
theorem goes_goal {goal : Goal} {deep : Nat → Prop} {n : Nat} {out : NodeId → List Token → Arena → Prop}
    {s : ParserState} (next : ∀ m, Goes (rule ⟨m, grammar m⟩ goal) s out deep) : Goes (grammar n goal) s out deep := by
  cases n with
  | zero => exact goes_outOfSteps
  | succ m => exact next m

/-- A goal of the grammar reads words as a tree, in front of a word that closes `level`. -/
def ReadsGoal (goal : Goal) (level : Nat) (ws : List Token) (t : Page) (deep : Nat → Prop := fun _ => True) : Prop :=
  ∀ ⦃n s rest⦄, s.At (ws ++ rest) → Closes level (firstWord rest) →
    Reads (grammar n goal) s rest (fun a id => a.Shows id t) deep

/-- Whether a `<` behind a tree of this level would open type arguments. -/
def Angled (p : Nat) (t : Page) : Prop := p = 9 ∧ endsWithTypeName t = true

/-- Words are read as an operand behind which operators of level `p` and looser may follow. -/
def ReadsChain (p : Nat) (ws : List Token) (t : Page) (deep : Nat → Prop := fun _ => True) : Prop :=
  ∀ ⦃m s start rest least out⦄, least ≤ p → s.At (ws ++ rest) →
    Closes (p + 1) (firstWord rest) → (Angled p t → (firstWord rest).is "<" = false) →
    (∀ s' id k, Kept s s' → s'.At rest → s'.arena.Shows id t →
      Goes (operators ⟨m, grammar m⟩ start least k id) s' out deep) →
    Goes (grammar m .unary >>= operators ⟨m, grammar m⟩ start least m) s out deep

/-- Words are read as a primary expression behind which suffixes may follow, in front of a word as
`follow` says. They start with no operator and no cast. -/
structure ReadsSpine (follow : Token → Prop) (ws : List Token) (t : Page) (deep : Nat → Prop := fun _ => True) :
    Prop where
  notLeading : ∀ rest, (firstWord (ws ++ rest)).kind = .operator →
    UnaryOperator.ofLeading? (firstWord (ws ++ rest)).text = none
  notCast : ∀ rest, (firstWord (ws ++ rest)).is "(" = true → castAhead (ws ++ rest) = false
  goes : ∀ ⦃m s start rest out⦄, s.At (ws ++ rest) → follow (firstWord rest) →
    (∀ s' id k, Kept s s' → s'.At rest → s'.arena.Shows id t →
      Goes (suffixes ⟨m, grammar m⟩ start k id) s' out deep) →
    Goes (primary ⟨m, grammar m⟩ >>= suffixes ⟨m, grammar m⟩ start m) s out deep

/-- Words are read as a tree of level `p`. A primary expression is read one level deeper than the others. -/
def ReadsAs (p : Nat) (ws : List Token) (t : Page) (deep : Nat → Prop := fun _ => True) : Prop :=
  if p ≤ 1 then ReadsGoal .expression 1 ws t deep
  else if p = 2 then ReadsGoal .conditional 2 ws t deep
  else if p ≤ 12 then ReadsChain p ws t deep
  else if p = 13 then ReadsGoal .unary 14 ws t deep
  else ReadsSpine (Closes p) ws t fun depth => deep (depth - 1)

theorem one_le_precedence {α : Type} (k : Kind α) : 1 ≤ precedence k := by
  unfold precedence
  split
  · exact Nat.le_refl 1
  · decide
  · rename_i op _ _
    cases op <;> decide
  · split <;> decide
  · decide
  · decide
  · decide

section Levels

variable {ws : List Token} {t : Page} {p : Nat} {deep : Nat → Prop}

theorem ReadsSpine.mono {follow follow' : Token → Prop} (h : ReadsSpine follow ws t deep)
    (weaker : ∀ w, follow' w → follow w) : ReadsSpine follow' ws t deep where
  notLeading := h.notLeading
  notCast := h.notCast
  goes _ _ _ _ _ ahead next goesOn := h.goes ahead (weaker _ next) goesOn

/-- The loop over suffixes ends in front of a word that is none. -/
theorem reads_suffixes {r : Rules} {start : Token} {k : Nat} {id : NodeId} {s : ParserState}
    {rest : List Token} (ahead : s.At rest) (closes : Closes 14 (firstWord rest)) (shown : s.arena.Shows id t) :
    Reads (suffixes r start k id) s rest (fun a id => a.Shows id t) deep := by
  have none := closes.no_suffix
  obtain _ | k := k
  · exact goes_outOfSteps
  rw [suffixes]
  refine goes_eat_not ahead (none "." (by simp)) ?_
  rw [if_neg (by simp)]
  refine goes_eat_not ahead (none "[" (by simp)) ?_
  rw [if_neg (by simp), goes_look, if_neg, goes_look, ahead.is, none "::" (by simp), if_neg (by simp)]
  · exact reads_pure ahead shown
  · simp [ahead.is, none]

/-- The loop over operators ends in front of a word that is none of its level. -/
theorem reads_operators {r : Rules} {start : Token} {k : Nat} {id : NodeId}
    {s : ParserState} {rest : List Token} (ahead : s.At rest)
    (closes : Closes least (firstWord rest)) (shown : s.arena.Shows id t) :
    Reads (operators r start least k id) s rest (fun a id => a.Shows id t) deep := by
  obtain _ | k := k
  · exact goes_outOfSteps
  rw [operators, Reads, goes_look, ← binaryOperator?_plain, ahead.token]
  cases found : binaryOperator? (firstWord rest) with
  | none => exact reads_pure ahead shown
  | some op =>
    dsimp only
    rw [if_pos (closes.precedence_lt found)]
    exact reads_pure ahead shown

/-- A primary expression with its suffixes is a unary expression. -/
theorem ReadsSpine.unary [Limited deep] (h : ReadsSpine (Closes 14) ws t fun depth => deep (depth - 1)) :
    ReadsGoal .unary 14 ws t deep := by
  intro n s rest ahead closes
  refine goes_goal fun m => goes_deeper ahead fun s1 ahead1 => ?_
  have notLeading : (if s1.token.kind == .operator then UnaryOperator.ofLeading? s1.token.text
      else none) = none := by
    rw [ahead1.kind, ahead1.text]
    split
    · rename_i operator
      exact h.notLeading rest (beq_iff_eq.mp operator)
    · rfl
  have notCast : (s1.token.is "(" && castAhead s1.rest) = false := by
    rw [ahead1.is, ← castAhead_plain]
    refine Bool.and_eq_false_imp.mpr fun _ => ?_
    rw [ahead1.plain_rest, List.append_assoc]
    refine h.notCast _ ?_
    rwa [← List.append_assoc, firstWord_end]
  unfold Parser.unary
  rw [goes_look, notLeading]
  dsimp only
  rw [goes_look, goes_look, notCast, if_neg (by simp)]
  exact h.goes ahead1 closes fun s' id k _ ahead' shown => reads_suffixes ahead' closes shown

/-- A unary expression is an operand of every binary operator. -/
theorem ReadsGoal.chain (h : ReadsGoal .unary 14 ws t deep) : ReadsChain 13 ws t deep := by
  intro m s start rest least out _ ahead closes _ goesOn
  exact Reads.bind (h ahead closes) fun id s' kept ahead' shown => goesOn s' id m kept ahead' shown

theorem ReadsChain.mono {q : Nat} (h : ReadsChain p ws t deep) (le : q ≤ p) : ReadsChain q ws t deep := by
  intro m s start rest least out low ahead closes angle goesOn
  refine h (Nat.le_trans low le) ahead (closes.mono (Nat.succ_le_succ le)) ?_ goesOn
  rintro ⟨rfl, typeName⟩
  rcases Nat.lt_or_eq_of_le le with lower | rfl
  · exact closes.not_angle (by omega)
  · exact angle ⟨rfl, typeName⟩

/-- Operands of looser operators are read as such. -/
theorem ReadsChain.operation (h : ReadsChain p ws t deep) (le : least ≤ p) :
    ReadsGoal (.operation least) least ws t deep := by
  intro n s rest ahead closes
  refine goes_goal fun m => goes_look.mpr ?_
  refine h le ahead (closes.mono (by omega)) ?_ fun s' id k _ ahead' shown => reads_operators ahead' closes shown
  rintro ⟨rfl, -⟩
  exact closes.not_angle le

theorem ReadsGoal.conditional (h : ReadsGoal (.operation 3) 3 ws t deep) : ReadsGoal .conditional 2 ws t deep := by
  intro n s rest ahead closes
  refine goes_goal fun m => goes_look.mpr ?_
  refine Reads.bind (h ahead (closes.mono (by omega))) fun id _ _ ahead1 shown => ?_
  refine goes_eat_not ahead1 (closes.is_eq_false (by decide)) ?_
  exact reads_pure ahead1 shown

theorem ReadsGoal.expression (h : ReadsGoal .conditional 2 ws t deep) : ReadsGoal .expression 1 ws t deep := by
  intro n s rest ahead closes
  refine goes_goal fun m => goes_look.mpr ?_
  refine Reads.bind (h ahead (closes.mono (by omega))) fun id _ _ ahead1 shown => ?_
  rw [goes_look, ← assignmentOperator?_plain, ahead1.token, closes.not_assignment]
  exact reads_pure ahead1 shown

theorem readsAs_one : ReadsAs 1 ws t deep ↔ ReadsGoal .expression 1 ws t deep := Iff.rfl

theorem readsAs_two : ReadsAs 2 ws t deep ↔ ReadsGoal .conditional 2 ws t deep := Iff.rfl

theorem readsAs_chain (low : 3 ≤ p) (high : p ≤ 12) : ReadsAs p ws t deep ↔ ReadsChain p ws t deep := by
  unfold ReadsAs
  rw [if_neg (by omega), if_neg (by omega), if_pos high]

theorem readsAs_unary : ReadsAs 13 ws t deep ↔ ReadsGoal .unary 14 ws t deep := Iff.rfl

theorem readsAs_spine (tight : 14 ≤ p) :
    ReadsAs p ws t deep ↔ ReadsSpine (Closes p) ws t fun depth => deep (depth - 1) := by
  unfold ReadsAs
  rw [if_neg (by omega), if_neg (by omega), if_neg (by omega), if_neg (by omega)]

theorem ReadsAs.looser [Limited deep] (h : ReadsAs (p + 1) ws t deep) : ReadsAs p ws t deep := by
  rcases Nat.lt_or_ge p 3 with loose | notLoose
  · have cases : p = 0 ∨ p = 1 ∨ p = 2 := by omega
    rcases cases with rfl | rfl | rfl
    · exact h
    · exact (readsAs_two.mp h).expression
    · exact (((readsAs_chain (by omega) (by omega)).mp h).operation (Nat.le_refl 3)).conditional
  · rcases Nat.lt_or_ge p 14 with binary | tight
    · have cases : p ≤ 11 ∨ p = 12 ∨ p = 13 := by omega
      rcases cases with middle | rfl | rfl
      · have chain := (readsAs_chain (by omega) (by omega)).mp h
        exact (readsAs_chain notLoose (by omega)).mpr (chain.mono (Nat.le_succ p))
      · exact (readsAs_unary.mp h).chain.mono (by omega)
      · exact ((readsAs_spine (by omega)).mp h).unary
    · have spine := (readsAs_spine (by omega)).mp h
      exact (readsAs_spine tight).mpr (spine.mono fun w closes => closes.mono (Nat.le_succ p))

theorem ReadsAs.mono [Limited deep] {q : Nat} (h : ReadsAs p ws t deep) (le : q ≤ p) : ReadsAs q ws t deep := by
  induction le with
  | refl => exact h
  | step _ ih => exact ih h.looser

/-- An operand of a binary operator of a level, or of the conditional operator. -/
theorem ReadsAs.operation (h : ReadsAs p ws t deep) (low : 3 ≤ p) (high : p ≤ 13) :
    ReadsGoal (.operation p) p ws t deep := by
  rcases Nat.lt_or_ge p 13 with below | top
  · exact ((readsAs_chain low (by omega)).mp h).operation (Nat.le_refl p)
  · obtain rfl : p = 13 := by omega
    exact (readsAs_unary.mp h).chain.operation (Nat.le_refl 13)

/-! ## Parentheses -/

/-- An expression in parentheses is a primary expression. -/
theorem ReadsAs.enclosed (h : ReadsAs 1 ws t) (balanced : Balanced ws)
    (notCast : ∀ rest, castAhead (sign "(" :: (ws ++ sign ")" :: rest)) = false) :
    ReadsAs 15 (sign "(" :: ws ++ [sign ")"]) t := by
  rw [readsAs_spine (by omega)]
  refine ⟨?_, ?_, ?_⟩
  · intro rest _
    show UnaryOperator.ofLeading? "(" = none
    decide
  · intro rest _
    simpa using notCast rest
  · intro m s start rest out ahead closes goesOn
    have ahead : s.At (sign "(" :: (ws ++ sign ")" :: rest)) := by simpa using ahead
    have notLambda : closesBeforeArrow 0 s.rest = false := by
      have words : s.rest.map Token.plain =
          sign "(" :: (ws ++ sign ")" :: (rest ++ [endToken])) := by simpa using ahead.plain_rest
      rw [← closesBeforeArrow_plain, words, closesBeforeArrow_enclosed balanced, tokenAt_end]
      exact closes.other "->" (by simp)
    have noLiteral : literalValue? s.token = none := by
      rw [literalValue?_of_plain ahead.token]
      rfl
    have operator : s.token.kind = .operator := ahead.kind
    have opening : s.token.text = "(" := ahead.text
    rw [primary, bind_assoc, goes_look, noLiteral]
    simp only [operator, opening, beq_self_eq_true, if_true, bind_assoc]
    rw [goes_look, notLambda, if_neg (by simp), parenthesized, bind_assoc]
    refine goes_expect ahead rfl fun s1 kept1 ahead1 => ?_
    rw [bind_assoc]
    rw [readsAs_one] at h
    refine Reads.bind (h ahead1 (closes_sign (by decide) (Nat.zero_le 1))) fun id _ kept2 ahead2 shown => ?_
    rw [bind_assoc]
    refine goes_expect ahead2 (by decide) fun s3 kept3 ahead3 => ?_
    rw [pure_bind]
    exact goesOn s3 id m (kept1.trans (kept2.trans kept3)) ahead3 (shown.extends kept3.grown)

theorem readsAs_operand {ok : Page → Prop} (e : IsExpression ok .operand t)
    (h : ReadsAs (precedence t.kind) (phrase t).words t) (le : least ≤ 15) :
    ReadsAs least ((phrase t).operand least) t := by
  unfold Phrase.operand
  rw [tree_phrase]
  split
  · rename_i loose
    have whole : ReadsAs 1 (phrase t).words t := h.mono (one_le_precedence t.kind)
    refine (whole.enclosed (balanced_words (balanced_expression e)) ?_).mono le
    exact castAhead_expression e (by omega)
  · rename_i tight
    exact h.mono (Nat.le_of_not_lt tight)

end Levels

end JavaEdit.Parser
