import JavaEdit.Proofs.Layout.Forms
import JavaEdit.Proofs.Parser.Wording
import JavaEdit.Proofs.Reading.Basic

/-!
# Looking ahead and parentheses

Looking ahead sees the kinds and texts of tokens and nothing else, so it can be done on words.
Parentheses are balanced in the words of a type or an expression, and what stands between a
parenthesis and the one that closes it does not matter to the search for the arrow of a lambda
expression (`closesBeforeArrow_append`).
-/

namespace JavaEdit.Parser

open Layout List

variable {p : Phrase} {w : Token} {ws : List Token}

/-! ## Places do not matter -/

theorem closesBeforeArrow_plain (depth : Nat) (ts : List Token) :
    closesBeforeArrow depth (ts.map Token.plain) = closesBeforeArrow depth ts :=
  apply_plain ts fun ts => closesBeforeArrow_bare ts depth

theorem castAhead_plain (ts : List Token) : castAhead (ts.map Token.plain) = castAhead ts :=
  apply_plain ts castAhead_bare

/-! ## Words one by one -/

@[simp] theorem sign_is (op text : String) : (sign op).is text = (op == text) := by
  simp [sign, word, Token.is]

@[simp] theorem kind_sign (op : String) : (sign op).kind = .operator := rfl

@[simp] theorem text_sign (op : String) : (sign op).text = op := rfl

@[simp] theorem text_nameWord (n : String) : (nameWord n).text = n := rfl

theorem kind_nameWord (n : String) :
    (nameWord n).kind = if Token.keywords.contains n then .keyword else .identifier := rfl

theorem kind_nameWord_ne_eof (n : String) : (nameWord n).kind ≠ .eof := by
  rw [kind_nameWord]
  split <;> simp

theorem nameWord_is (n text : String) : (nameWord n).is text = (Token.keywords.contains n && n == text) := by
  unfold Token.is
  rw [kind_nameWord, text_nameWord]
  split
  · rename_i keyword
    rw [keyword]
    rfl
  · rename_i identifier
    rw [Bool.eq_false_iff.mpr identifier]
    rfl

/-! ## Parentheses -/

/-- How deep in parentheses some words end that start at a depth. Nothing if they close one that is
not open, or go on behind the end of a text. -/
def nesting : Nat → List Token → Option Nat
  | depth, [] => some depth
  | depth, w :: ws =>
    if w.kind == .eof then none
    else if w.is "(" then nesting (depth + 1) ws
    else if w.is ")" then if depth = 0 then none else nesting (depth - 1) ws
    else nesting depth ws

/-- Words that end as deep in parentheses as they start, and never close one they did not open. -/
def Balanced (ws : List Token) : Prop := ∀ depth, nesting depth ws = some depth

theorem nesting_append (ws vs : List Token) (depth : Nat) :
    nesting depth (ws ++ vs) = (nesting depth ws).bind fun inner => nesting inner vs := by
  induction ws generalizing depth with
  | nil => rfl
  | cons w ws ih =>
    rw [cons_append, nesting, nesting]
    split
    · rfl
    · split
      · exact ih _
      · split
        · split
          · rfl
          · exact ih _
        · exact ih _

theorem balanced_nil : Balanced [] := fun _ => rfl

theorem Balanced.append {vs : List Token} (h : Balanced ws) (h' : Balanced vs) : Balanced (ws ++ vs) := fun depth => by
  rw [nesting_append, h depth, Option.bind_some, h' depth]

theorem balanced_single (notEnd : w.kind ≠ .eof) (notOpening : w.is "(" = false)
    (notClosing : w.is ")" = false) : Balanced [w] := fun _ => by
  simp [nesting, notEnd, notOpening, notClosing]

theorem Balanced.cons (first : Balanced [w]) (h : Balanced ws) : Balanced (w :: ws) := first.append h

theorem balanced_sign (op : String) (other : op ≠ "(" ∧ op ≠ ")") : Balanced [sign op] :=
  balanced_single (by simp) (by simpa using other.1) (by simpa using other.2)

theorem balanced_name (n : String) : Balanced [nameWord n] := by
  have reserved : ∀ text ∈ ["(", ")"], (nameWord n).is text = false := by
    intro text mem
    rw [nameWord_is]
    by_cases same : n = text
    · subst same
      revert n
      decide
    · simp [same]
  exact balanced_single (kind_nameWord_ne_eof n) (reserved "(" (by simp)) (reserved ")" (by simp))

theorem Balanced.enclosed (h : Balanced ws) : Balanced (sign "(" :: ws ++ [sign ")"]) := fun _ => by
  rw [cons_append, nesting]
  simp only [kind_sign, sign_is]
  rw [if_neg (by decide), if_pos (by decide), nesting_append, h, Option.bind_some]
  rfl

theorem balanced_flatten {lists : List (List Token)} (h : ∀ ws ∈ lists, Balanced ws) : Balanced lists.flatten := by
  induction lists with
  | nil => exact balanced_nil
  | cons ws lists ih =>
    exact (h ws (by simp)).append (ih fun vs mem => h vs (.tail _ mem))

/-- Inside a parenthesis, balanced words have no say in whether an arrow follows it. -/
theorem closesBeforeArrow_append {inner outer : Nat}
    (h : nesting inner ws = some outer) (depth : Nat) (rest : List Token) :
    closesBeforeArrow (depth + 1 + inner) (ws ++ rest) = closesBeforeArrow (depth + 1 + outer) rest := by
  induction ws generalizing inner with
  | nil => rw [← Option.some.inj h, nil_append]
  | cons w ws ih =>
    rw [nesting] at h
    rw [cons_append, closesBeforeArrow]
    split at h
    · cases h
    · rename_i notEnd
      rw [if_neg notEnd]
      split at h
      · rename_i opening
        rw [if_pos opening]
        exact ih h
      · rename_i notOpening
        rw [if_neg notOpening]
        split at h
        · rename_i closing
          rw [if_pos closing]
          split at h
          · cases h
          · rename_i inside
            rw [if_neg (by omega), ← ih h]
            congr 1
            omega
        · rename_i notClosing
          rw [if_neg notClosing]
          exact ih h

/-- Whether a lambda expression starts is seen behind the parenthesis that closes. -/
theorem closesBeforeArrow_enclosed (h : Balanced ws) (rest : List Token) :
    closesBeforeArrow 0 (sign "(" :: (ws ++ sign ")" :: rest)) = (tokenAt rest 0).is "->" := by
  have closed := closesBeforeArrow_append (h 0) 0 (sign ")" :: rest)
  rw [closesBeforeArrow, if_neg (by decide), if_pos (by decide)]
  refine closed.trans ?_
  rw [closesBeforeArrow, if_neg (by decide), if_neg (by decide), if_pos (by decide), if_pos (by decide)]

/-- Without an opening parenthesis there is no way up. -/
theorem nesting_le {depth inner : Nat} (h : nesting depth ws = some inner)
    (none : ∀ w ∈ ws, w.is "(" = false) : inner ≤ depth := by
  induction ws generalizing depth with
  | nil => exact Nat.le_of_eq (Option.some.inj h).symm
  | cons w ws ih =>
    have others := fun w' mem => none w' (mem_cons_of_mem w mem)
    rw [nesting, none w (by simp)] at h
    split at h
    · cases h
    · rw [if_neg (by simp)] at h
      split at h
      · split at h
        · cases h
        · exact Nat.le_trans (ih h others) (Nat.sub_le ..)
      · exact ih h others

theorem Balanced.opened {front back : List Token} (h : Balanced (front ++ w :: back))
    (closing : w.is ")") : ∃ v ∈ front, v.is "(" := by
  refine Classical.byContradiction fun unopened => ?_
  have none : ∀ v ∈ front, v.is "(" = false := by
    intro v mem
    rw [← Bool.not_eq_true]
    exact fun opening => unopened ⟨v, mem, opening⟩
  have all := h 0
  rw [nesting_append] at all
  cases inner : nesting 0 front with
  | none =>
    rw [inner] at all
    cases all
  | some depth =>
    have zero : depth = 0 := Nat.le_zero.mp (nesting_le inner none)
    have notOpening : w.is "(" = false := Token.is_eq_false closing (by decide)
    rw [inner, Option.bind_some, nesting, zero, notOpening, closing] at all
    simp at all

/-! ## Words of types and expressions are balanced -/

theorem balanced_angles (n : Nat) : Balanced (angles n) := by
  induction n using angles.induct with
  | case1 => exact balanced_nil
  | case2 => exact balanced_sign ">" (by decide)
  | case3 => exact balanced_sign ">>" (by decide)
  | case4 n ih => exact .cons (balanced_sign ">>>" (by decide)) ih

theorem balanced_dotted (n : String) : Balanced (dotted n) := by
  unfold dotted
  induction Text.split '.' n with
  | nil => exact balanced_nil
  | cons part parts ih =>
    cases parts with
    | nil => exact balanced_name part
    | cons next parts =>
      exact .cons (balanced_name part) (.cons (balanced_sign "." (by decide)) ih)

theorem balanced_brackets (n : UInt8) : Balanced (bracketWords n) := by
  refine balanced_flatten fun ws mem => ?_
  rw [(mem_replicate.mp mem).2]
  exact .cons (balanced_sign "[" (by decide)) (balanced_sign "]" (by decide))

theorem balanced_words (h : Balanced p.before) : Balanced p.words := h.append (balanced_angles _)

theorem balanced_joined {separator : String} (separates : Balanced [sign separator])
    {ps : List Phrase} (h : ∀ p ∈ ps, Balanced p.before) : Balanced (Phrase.joined (sign separator) ps).1 := by
  induction ps with
  | nil => exact balanced_nil
  | cons p ps ih =>
    cases ps with
    | nil => exact h p (by simp)
    | cons q ps =>
      exact (balanced_words (h p (by simp))).append
        (.cons separates (ih fun p mem => h p (.tail _ mem)))

theorem balanced_type {slot : TypeSlot} {t : Page} (h : IsType slot t) : Balanced (phrase t).before := by
  have reference : ∀ {name : String} (list : List Token × Nat) {dims : UInt8}, Balanced list.1 →
      Balanced (if dims == 0 then (dotted name ++ list.1, list.2)
        else (dotted name ++ list.1 ++ angles list.2 ++ bracketWords dims, 0)).1 := by
    intro name list dims inner
    have front := (balanced_dotted name).append inner
    split
    · exact front
    · exact (front.append (balanced_angles _)).append (balanced_brackets _)
  induction h with rw [phrase_node]
  | primitive _ _ =>
    exact reference ([], 0) balanced_nil
  | @named _ name arguments dims _ _ _ ih =>
    refine reference (if (arguments.map phrase).isEmpty then ([], 0)
      else Phrase.angled (arguments.map phrase)) ?_
    split
    · exact balanced_nil
    · exact .cons (balanced_sign "<" (by decide)) (balanced_joined (balanced_sign "," (by decide)) (forall_mem_map.mpr ih))
  | diamond _ =>
    exact reference ([sign "<"], 1) (balanced_sign "<" (by decide))
  | unbounded =>
    exact balanced_sign "?" (by decide)
  | bounded _ ih =>
    exact .cons (balanced_sign "?" (by decide)) (.cons (balanced_name _) ih)

theorem balanced_operand (h : Balanced p.words) (least : Nat) : Balanced (p.operand least) := by
  unfold Phrase.operand
  split
  · exact h.enclosed
  · exact h

theorem balanced_enclosedIf (h : Balanced ws) (condition : Bool) : Balanced (enclosedIf condition ws) := by
  unfold enclosedIf
  split
  · exact h.enclosed
  · exact h

theorem balanced_arguments {ts : List Page} (h : ∀ t ∈ ts, Balanced (phrase t).before) :
    Balanced (argumentWords (ts.map phrase)) := by
  have joined := balanced_joined (balanced_sign "," (by decide)) (forall_mem_map.mpr h)
  exact Balanced.enclosed (joined.append (balanced_angles _))

theorem balanced_literal (value : Literal) : Balanced [literalWord value] := by
  cases value with
  | boolean b => cases b <;> exact balanced_single (by decide) (by decide) (by decide)
  | null => exact balanced_single (by decide) (by decide) (by decide)
  | _ => exact balanced_single nofun rfl rfl

theorem balanced_unary (op : UnaryOperator) (h : Balanced p.words) : Balanced (unaryWords op p) := by
  have symbol : Balanced [sign op.symbol] := by
    cases op <;> exact balanced_sign _ (by decide)
  unfold unaryWords
  split
  · exact (balanced_operand h 14).append symbol
  · exact .cons symbol (balanced_enclosedIf (balanced_operand h 13) _)

theorem balanced_operator (op : BinaryOperator) : Balanced [operatorWord op] := by
  cases op <;> exact balanced_sign _ (by decide)

theorem balanced_assignment (op : Option BinaryOperator) : Balanced [assignmentWord op] := by
  cases op with
  | none => exact balanced_sign "=" (by decide)
  | some op => cases op <;> exact balanced_sign _ (by decide)

theorem balanced_right (op : BinaryOperator) (h : Balanced p.words) : Balanced (rightWords op p) := by
  unfold rightWords
  split
  · exact h
  · exact balanced_operand h _

theorem balanced_expression {ok : Page → Prop} {place : ValueSlot} {t : Page}
    (h : IsExpression ok place t) : Balanced (phrase t).before := by
  induction h with rw [before_node]
  | @literal _ value _ =>
    exact balanced_literal value
  | name _ | this | super =>
    exact balanced_name _
  | access _ _ _ ih =>
    exact (balanced_operand (balanced_words ih) 15).append (.cons (balanced_sign "." (by decide)) (balanced_name _))
  | call _ _ _ _ ih others =>
    exact (balanced_operand (balanced_words ih) 15).append
      (.cons (balanced_sign "." (by decide)) (.cons (balanced_name _) (balanced_arguments others)))
  | ownCall _ _ others =>
    exact .cons (balanced_name _) (balanced_arguments others)
  | new type _ others =>
    exact .cons (balanced_name _) ((balanced_words (balanced_type type)).append (balanced_arguments others))
  | @newArray _ _ sizes extra type _ _ others =>
    refine .cons (balanced_name _) (((balanced_words (balanced_type type)).append ?_).append (balanced_brackets extra))
    rw [flatMap_def]
    refine balanced_flatten (forall_mem_map.mpr (forall_mem_map.mpr fun t sized => ?_))
    exact .cons (balanced_sign "[" (by decide))
      ((balanced_words (others t sized)).append (balanced_sign "]" (by decide)))
  | index _ _ ih inner =>
    exact ((balanced_operand (balanced_words ih) 15).append
      (.cons (balanced_sign "[" (by decide)) (balanced_words inner))).append (balanced_sign "]" (by decide))
  | binary _ _ _ _ left right =>
    exact (balanced_operand (balanced_words left) _).append
      (.cons (balanced_operator _) (balanced_right _ (balanced_words right)))
  | typeTest _ type _ ih =>
    exact (balanced_operand (balanced_words ih) _).append
      (.cons (balanced_operator _) (balanced_right _ (balanced_words (balanced_type type))))
  | unary _ _ ih | update _ _ _ ih =>
    exact balanced_unary _ (balanced_words ih)
  | assignment _ _ _ _ target value =>
    exact (balanced_operand (balanced_words target) _).append
      (.cons (balanced_assignment _) (balanced_operand (balanced_words value) _))
  | conditional _ _ _ condition thenValue elseValue =>
    exact ((balanced_operand (balanced_words condition) _).append (.cons (balanced_sign "?" (by decide))
      (balanced_operand (balanced_words thenValue) _))).append (.cons (balanced_sign ":" (by decide))
        (balanced_operand (balanced_words elseValue) _))
  | @cast _ type value isType _ ih =>
    show Balanced (sign "(" :: (phrase type).words ++ sign ")" :: enclosedIf _ _)
    rw [append_cons]
    exact (balanced_words (balanced_type isType)).enclosed.append
      (balanced_enclosedIf (balanced_operand (balanced_words ih) 13) _)

end JavaEdit.Parser
