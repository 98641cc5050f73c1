import JavaEdit.Proofs.Layout.Programs
import JavaEdit.Proofs.Reading.Operations

/-!
# Declarations ahead

A local declaration is told from an expression by looking for a type and a name. Words that start with
no type, or with a dotted name that is used as an expression, are `Undeclared`, and those of every
expression with an effect are (`undeclared_effect`). Behind the modifiers and the type of a variable its
name is found, and a colon behind that makes it the variable of a loop (`forEachAhead_local`).
-/

namespace JavaEdit.Parser

open Layout List
open ParserState (firstWord)

variable {t : Page} {w : Token} {ws : List Token}

theorem declarationAhead_plain (ts : List Token) : declarationAhead (ts.map Token.plain) = declarationAhead ts :=
  apply_plain ts declarationAhead_bare

theorem forEachAhead_plain (ts : List Token) : forEachAhead (ts.map Token.plain) = forEachAhead ts :=
  apply_plain ts forEachAhead_bare

/-! ## Words that start no declaration -/

/-- Words that are not taken for the start of a declaration: no type starts with the first one, or the
operator behind the dotted name at the front does not go on with a type. -/
inductive Undeclared : List Token → Prop
  | other {w : Token} {ws : List Token} : w.kind ≠ .identifier → w.isPrimitive = false →
      (∀ text ∈ ["final", "@"], w.is text = false) → Undeclared (w :: ws)
  | chain {p : String} {ps : List String} {w : Token} {ws : List Token} : isIdentifier p = true →
      (∀ q ∈ ps, isIdentifier q = true) → w.kind = .operator → (∀ text ∈ [".", "<", ":"], w.is text = false) →
      (w.is "[" = true → ∃ v more, ws = v :: more ∧ v.is "]" = false) → Undeclared (chainWords p ps ++ w :: ws)

theorem Undeclared.append (h : Undeclared ws) (rest : List Token) : Undeclared (ws ++ rest) := by
  cases h with
  | other notName notPrimitive others => exact .other notName notPrimitive others
  | chain isName names operator others bracket =>
    rw [append_assoc]
    refine .chain isName names operator others fun opening => ?_
    obtain ⟨v, more, rfl, other⟩ := bracket opening
    exact ⟨v, more ++ rest, rfl, other⟩

/-- Where a type could end in such words there is no name behind it. -/
theorem Undeclared.scanType (h : Undeclared ws) :
    scanType ws = none ∨ ∃ n, scanType ws = some n ∧ (tokenAt ws n).kind = .operator := by
  cases h with
  | @other w ws notName notPrimitive _ =>
    left
    rw [scanType_eq]
    unfold scanNamed
    rw [show tokenAt (w :: ws) 0 = w from rfl, notPrimitive]
    simp [notName]
  | @chain p ps w ws isName names operator others bracket =>
    right
    refine ⟨(chainWords p ps).length, ?_, ?_⟩
    · have none : scanDimensions (w :: ws) = 0 := by
        cases opening : w.is "[" with
        | false => exact scanDimensions_eq_zero opening
        | true =>
          obtain ⟨v, more, rfl, other⟩ := bracket opening
          exact countsPairs_dimensions.eq_zero (Bool.and_eq_false_iff.mpr (.inr other))
      have ended : scanDotted (w :: ws) = 0 := scanDotted_eq_zero (others "." (by simp))
      have named : scanNamed (chainWords p ps ++ w :: ws) = some (chainWords p ps).length :=
        (scanNamed_chain isName names ended (cons_ne_nil w ws)).trans
          (if_neg (ne_true_of_eq_false (others "<" (by simp))))
      rw [scanType_eq, named, Option.map_some, drop_left, none]
      rfl
    · have next : tokenAt (chainWords p ps ++ w :: ws) (chainWords p ps).length = w :=
        tokenAt_append (cons_ne_nil w ws) 0
      rw [next, operator]

theorem Undeclared.first (h : Undeclared ws) : ∀ text ∈ ["final", "@"], (tokenAt ws 0).is text = false := by
  cases h with
  | other _ _ others => exact others
  | chain isName =>
    intro text _
    show (nameWord _).is text = false
    exact is_nameWord isName text

/-- No label starts them, either. -/
theorem Undeclared.second (h : Undeclared ws) :
    ((tokenAt ws 0).kind == .identifier && (tokenAt ws 1).is ":") = false := by
  cases h with
  | @other w ws notName _ _ =>
    rw [show tokenAt (w :: ws) 0 = w from rfl]
    simp [notName]
  | @chain p ps w ws _ _ _ others _ =>
    have next : (tokenAt (chainWords p ps ++ w :: ws) 1).is ":" = false := by
      cases ps with
      | nil => exact others ":" (by simp)
      | cons => rfl
    rw [next, Bool.and_false]

theorem Undeclared.declarationAhead (h : Undeclared ws) : declarationAhead ws = false := by
  have first : ["final", "@"].any (tokenAt ws 0).is = false := by simpa using h.first
  unfold Parser.declarationAhead
  rw [first, Bool.false_or]
  rcases h.scanType with none | ⟨n, found, operator⟩
  · rw [none]
  · rw [found]
    simp [operator]

theorem Undeclared.forEachAhead (h : Undeclared ws) : forEachAhead ws = false := by
  have kept : ws.dropWhile (fun t => t.is "final") = ws := by
    have first := h.first "final" (by simp)
    cases ws with
    | nil => rfl
    | cons w ws => exact dropWhile_cons_of_neg (ne_true_of_eq_false first)
  unfold Parser.forEachAhead
  dsimp only
  rw [kept]
  rcases h.scanType with none | ⟨n, found, operator⟩
  · rw [none]
  · rw [found]
    simp [operator]

/-! ## Expressions with an effect -/

/-- The words of dotted names. -/
def IsChain (ws : List Token) : Prop :=
  ∃ p ps, ws = chainWords p ps ∧ isIdentifier p = true ∧ ∀ q ∈ ps, isIdentifier q = true

theorem IsChain.point (h : IsChain ws) {n : String} (isName : isIdentifier n) :
    IsChain (ws ++ [sign ".", nameWord n]) := by
  obtain ⟨p, ps, rfl, first, others⟩ := h
  refine ⟨p, ps ++ [n], by simp [chainWords], first, fun q mem => ?_⟩
  rcases mem_append.mp mem with old | new
  · exact others q old
  · rw [mem_singleton.mp new]
    exact isName

/-- An operator behind a dotted name ends it. -/
theorem IsChain.undeclared (h : IsChain ws) {more : List Token}
    (operator : w.kind = .operator) (others : ∀ text ∈ [".", "<", ":", "["], w.is text = false) :
    Undeclared (ws ++ w :: more) := by
  obtain ⟨p, ps, rfl, first, names⟩ := h
  have bracket := others "[" (by simp)
  refine .chain first names operator (fun text mem => others text ?_) fun opening => ?_
  · exact mem_append_left ["["] mem
  · exact absurd (bracket.symm.trans opening) nofun

theorem undeclared_operator (operator : w.kind = .operator)
    (others : ∀ text ∈ ["final", "@"], w.is text = false) (ws : List Token) : Undeclared (w :: ws) :=
  .other (by simp [operator]) (by simp [Token.isPrimitive, operator]) others

/-- Keywords that expressions and statements start with. -/
def openingKeywords : List String :=
  ["this", "super", "new", "if", "while", "do", "for", "return", "throw", "break", "continue", "try"]

theorem undeclared_keyword {n : String} (known : n ∈ openingKeywords) (ws : List Token) :
    Undeclared (nameWord n :: ws) := by
  have words : ∀ n ∈ openingKeywords, (nameWord n).kind ≠ .identifier ∧ (nameWord n).isPrimitive = false ∧
      ∀ text ∈ ["final", "@"], (nameWord n).is text = false := by decide
  obtain ⟨notName, notPrimitive, others⟩ := words n known
  exact .other notName notPrimitive others

/-- What is asked of a tight operand: it starts no declaration, unless it is a dotted name. -/
def IsPlainOperand (t : Page) : Prop := IsChain ((phrase t).operand 15) ∨ Undeclared ((phrase t).operand 15)

theorem operand_tight (tight : precedence t.kind = 15) : (phrase t).operand 15 = (phrase t).words := by
  rw [Phrase.operand, tree_phrase, if_neg (by omega)]

theorem isPlainOperand_of_loose (loose : precedence t.kind < 15) : IsPlainOperand t := by
  right
  rw [Phrase.operand, tree_phrase, if_pos loose]
  exact undeclared_operator rfl (by decide) _

attribute [local simp] words_node nodePhrase inlinePhrase Kind.map angles

theorem isPlainOperand_of_isExpression {place : ValueSlot} (h : IsExpression Clear place t) : IsPlainOperand t := by
  unfold IsPlainOperand
  induction h with try rw [operand_tight rfl]
  | @literal _ value _ =>
    have word : (literalWord value).kind ≠ .identifier ∧ (literalWord value).isPrimitive = false ∧
        ∀ text ∈ ["final", "@"], (literalWord value).is text = false := by
      cases value with
      | boolean b => cases b <;> decide
      | null => decide
      | _ => exact ⟨by rintro ⟨⟩, rfl, by simp [literalWord, word, Token.is]⟩
    exact .inr (by simpa using Undeclared.other word.1 word.2.1 word.2.2)
  | @name _ n isName => exact .inl ⟨n, [], by simp [chainWords], isName, forall_mem_nil _⟩
  | this => exact .inr (by simpa using undeclared_keyword (n := "this") (by decide) [])
  | super => exact .inr (by simpa using undeclared_keyword (n := "super") (by decide) [])
  | access _ isName _ ih =>
    rcases ih with chain | undeclared
    · exact .inl (by simpa using chain.point isName)
    · exact .inr (by simpa using undeclared.append _)
  | call _ isName _ _ ih =>
    refine .inr ?_
    rcases ih with chain | undeclared
    · simpa [argumentWords] using (chain.point isName).undeclared (w := sign "(") rfl (by decide)
    · simpa using undeclared.append _
  | @ownCall _ n _ known _ =>
    refine .inr ?_
    rcases known with isName | self
    · have chain : IsChain [nameWord n] := ⟨n, [], by simp [chainWords], isName, forall_mem_nil _⟩
      simpa [argumentWords] using chain.undeclared (w := sign "(") rfl (by decide)
    · simpa using undeclared_keyword (n := n) (by rcases self with rfl | rfl <;> decide) _
  | new => exact .inr (by simpa using undeclared_keyword (n := "new") (by decide) _)
  | index _ e ih =>
    refine .inr ?_
    rcases ih with ⟨p, ps, chain, isName, names⟩ | undeclared
    · obtain ⟨v, more, inside, starts⟩ := first_expression e
      have whole : Undeclared (chainWords p ps ++ sign "[" :: (v :: more ++ [sign "]"])) :=
        .chain isName names rfl (by decide) fun _ => ⟨v, _, rfl, starts.other "]" (by decide)⟩
      simpa [chain, inside] using whole
    · simpa using undeclared.append _
  | newArray => exact isPlainOperand_of_loose (show 14 < 15 by decide)
  | @binary _ op => exact isPlainOperand_of_loose (precedence_binary_lt op)
  | typeTest => exact isPlainOperand_of_loose (precedence_binary_lt .instanceOf)
  | @unary _ op | @update _ op =>
    exact isPlainOperand_of_loose (show (if op.isPostfix then 14 else 13) < 15 by split <;> decide)
  | assignment => exact isPlainOperand_of_loose (show 1 < 15 by decide)
  | conditional => exact isPlainOperand_of_loose (show 2 < 15 by decide)
  | cast => exact isPlainOperand_of_loose (show 13 < 15 by decide)

theorem IsPlainOperand.undeclared (h : IsPlainOperand t) (operator : w.kind = .operator)
    (others : ∀ text ∈ [".", "<", ":", "["], w.is text = false) (more : List Token) :
    Undeclared ((phrase t).operand 15 ++ w :: more) := by
  rcases h with chain | undeclared
  · exact chain.undeclared operator others
  · exact undeclared.append _

theorem undeclared_effect (h : IsExpression Clear .operand t) (isEffect : t.kind.isEffect)
    {op : String} (known : op ∈ [";", ","]) (rest : List Token) : Undeclared ((phrase t).words ++ sign op :: rest) := by
  have ended : ∀ op ∈ [";", ","], ∀ text ∈ [".", "<", ":", "["], (sign op).is text = false := by decide
  have whole := isPlainOperand_of_isExpression h
  cases h with
  | call | ownCall | new =>
    have tight := whole.undeclared (w := sign op) rfl (ended op known) rest
    rwa [operand_tight rfl] at tight
  | @update _ unary target _ isTarget e =>
    cases behind : unary.isPostfix with
    | true =>
      have symbols : ∀ text ∈ [".", "<", ":", "["], (sign unary.symbol).is text = false := by cases unary <;> decide
      have tight := (isPlainOperand_of_isExpression e).undeclared rfl symbols (sign op :: rest)
      rw [operand_tight (precedence_of_isTarget isTarget)] at tight
      simpa [unaryWords, behind, operand_target isTarget (show 14 ≤ 15 by decide)] using tight
    | false =>
      have symbols : ∀ text ∈ ["final", "@"], (sign unary.symbol).is text = false := by cases unary <;> decide
      simpa [unaryWords, behind] using undeclared_operator (w := sign unary.symbol) rfl symbols _
  | @assignment _ o target value _ isTarget e _ =>
    have signs : (assignmentWord o).kind = .operator ∧
        ∀ text ∈ [".", "<", ":", "["], (assignmentWord o).is text = false := by
      cases o with
      | none => decide
      | some o => cases o <;> decide
    have tight := (isPlainOperand_of_isExpression e).undeclared signs.1 signs.2 ((phrase value).operand 1 ++ sign op :: rest)
    rw [operand_tight (precedence_of_isTarget isTarget)] at tight
    simpa [operand_target isTarget (show 14 ≤ 15 by decide)] using tight
  | @unary _ op _ notUpdate => exact absurd (notUpdate.symm.trans isEffect) Bool.false_ne_true
  | _ => cases isEffect

/-! ## Variables -/

def variableWords (ms : Modifiers) (type : Page) (name : String) (w : Token) (rest : List Token) : List Token :=
  modifierWords ms ++ ((phrase type).words ++ nameWord name :: w :: rest)

section Variables

variable {ms : Modifiers} {type : Page} {name : String} (isType : IsType .plain type)
    (isName : isIdentifier name = true)
include isType isName

theorem scanType_variable (w : Token) (rest : List Token) :
    let ws := (phrase type).words ++ nameWord name :: w :: rest
    ∃ n, scanType ws = some n ∧ tokenAt ws n = nameWord name ∧ tokenAt ws (n + 1) = w := by
  have identifier := kind_nameWord_of_isIdentifier isName
  have ends : EndsType (nameWord name :: w :: rest) := ⟨cons_ne_nil _ _, fun text _ => is_nameWord isName text⟩
  refine ⟨_, scanType_type isType ends, ?_, ?_⟩
  · exact tokenAt_append (cons_ne_nil _ _) 0
  · exact tokenAt_append (cons_ne_nil _ _) 1

theorem forEachAhead_local (isLocal : ms.IsLocal) (w : Token) (rest : List Token) :
    forEachAhead (variableWords ms type name w rest) = w.is ":" := by
  have skipped : (variableWords ms type name w rest).dropWhile (fun t => t.is "final") =
      (phrase type).words ++ nameWord name :: w :: rest := by
    have stop : ((phrase type).words ++ nameWord name :: w :: rest).dropWhile (fun t => t.is "final") =
        (phrase type).words ++ nameWord name :: w :: rest := by
      have first := first_type_other isType (nameWord name :: w :: rest) (by decide : "final" ∉ Token.primitives)
      cases words : (phrase type).words ++ nameWord name :: w :: rest with
      | nil => rfl
      | cons v vs =>
        rw [words] at first
        exact dropWhile_cons_of_neg (ne_true_of_eq_false first)
    rcases isLocal with rfl | rfl
    · exact stop
    · exact (dropWhile_cons_of_pos (by decide)).trans stop
  obtain ⟨n, found, here, behind⟩ := scanType_variable isType isName w rest
  unfold forEachAhead
  dsimp only
  rw [skipped, found]
  simp [here, behind, kind_nameWord_of_isIdentifier isName]

end Variables

end JavaEdit.Parser
