import JavaEdit.Proofs.Layout.Nodes

/-!
# What the text of a statement tells

A branch that would take the `else` behind it is put in braces, so the text of a statement does not
tell all branches as they are. `Tree.asWritten` is the tree that it does tell. Made from branches, loops
and jumps (`IsBranching`) it is made from them again, and no branch in it is left open in front of an
`else` (`IsBranching.asWritten`).
-/

namespace JavaEdit

open Layout Tree

/-! ## Trees as they are written -/

namespace Layout

/-- A statement in front of an `else`. -/
def thenAsWritten (t : Page) : Page := if endsWithOpenIf t then .node [] (.block [t]) else t

/-- A payload over statements that are known as they are written. -/
def kindAsWritten : Kind Page → Kind Page
  | .ifElse condition thenBranch (some elseBranch) =>
    .ifElse condition (thenAsWritten thenBranch) (some elseBranch)
  | k => k

end Layout

/-- The tree that the text of a tree tells. -/
def Tree.asWritten (t : Page) : Page := t.fold fun label kind => .node label (kindAsWritten kind)

theorem Tree.asWritten_node (label : List Comment) (kind : Kind Page) :
    (Tree.node label kind).asWritten = .node label (kindAsWritten (kind.map Tree.asWritten)) :=
  fold_node ..

@[simp] theorem Tree.label_asWritten (t : Page) : t.asWritten.label = t.label := by
  obtain ⟨label, kind⟩ := t
  rw [asWritten_node]
  rfl

/-- No branch takes the `else` behind it. -/
theorem endsWithOpenIf_thenAsWritten (t : Page) : endsWithOpenIf (thenAsWritten t) = false := by
  unfold thenAsWritten
  split
  · exact endsWithOpenIf_node ..
  · rename_i closed
    exact Bool.eq_false_iff.mpr closed

@[simp] theorem endsWithOpenIf_asWritten (t : Page) : endsWithOpenIf t.asWritten = endsWithOpenIf t := by
  induction t using Tree.induct with
  | step label kind ih =>
    rw [asWritten_node, endsWithOpenIf_node, endsWithOpenIf_node]
    cases kind with
    | ifElse condition thenBranch elseBranch =>
      cases elseBranch with
      | none => rfl
      | some elseBranch => exact ih elseBranch (by simp [Kind.children])
    | whileLoop _ body | forLoop _ _ _ body | forEach _ _ body => exact ih body (by simp [Kind.children])
    | _ => rfl

/-! ## Trees without branches -/

theorem Tree.asWritten_eq_self {cs : List Comment} {k : Kind Page} (other : k.variant ≠ .ifElse)
    (children : ∀ t ∈ k.children, t.asWritten = t) : (Tree.node cs k).asWritten = .node cs k := by
  rw [asWritten_node, Kind.map_congr children, Kind.map_id]
  cases k with
  | ifElse => exact absurd rfl other
  | _ => rfl

theorem Inline.asWritten_eq {ok : Page → Prop} {t : Page} (h : t.Every (Inline ok)) : t.asWritten = t := by
  induction h with
  | @node label k inline _ ih =>
    refine asWritten_eq_self ?_ ih
    obtain ⟨inline, -⟩ := inline
    cases k with
    | ifElse => cases inline
    | _ => exact nofun

theorem IsType.asWritten_eq {slot : TypeSlot} {t : Page} (h : IsType slot t) : t.asWritten = t :=
  @Inline.asWritten_eq (fun _ => True) t h.every_inline

theorem IsExpression.asWritten_eq {ok : Page → Prop} {place : ValueSlot} {t : Page} (h : IsExpression ok place t) :
    t.asWritten = t :=
  Inline.asWritten_eq h.every_inline

theorem option_asWritten_eq {t : Option Page} (e : ∀ u ∈ t, IsExpression Clear .operand u) :
    t.map Tree.asWritten = t := by
  cases t with
  | none => rfl
  | some t => exact congrArg some (e t rfl).asWritten_eq

/-! ## Branches -/

/-- Branches, loops and jumps around expressions, without comments. A branch in front of an `else`
satisfies `ok`. -/
inductive IsBranching (ok : Page → Prop) : Page → Prop
  | block {ts : List Page} : (∀ t ∈ ts, IsBranching ok t) → IsBranching ok (.node [] (.block ts))
  | ifThen {condition body : Page} : IsExpression Clear .operand condition → IsBranching ok body →
      IsBranching ok (.node [] (.ifElse condition body none))
  | ifElse {condition body other : Page} : IsExpression Clear .operand condition → IsBranching ok body →
      IsBranching ok other → ok body → IsBranching ok (.node [] (.ifElse condition body (some other)))
  | whileLoop {condition body : Page} : IsExpression Clear .operand condition → IsBranching ok body →
      IsBranching ok (.node [] (.whileLoop condition body))
  | doWhile {condition body : Page} : IsBranching ok body → IsExpression Clear .operand condition →
      IsBranching ok (.node [] (.doWhile body condition))
  | forLoop {condition : Option Page} {body : Page} : (∀ t ∈ condition, IsExpression Clear .operand t) →
      IsBranching ok body → IsBranching ok (.node [] (.forLoop [] condition [] body))
  | forEach {name : String} {ms : Modifiers} {type iterable body : Page} : isIdentifier name = true → ms.IsLocal →
      IsType .plain type → IsExpression Clear .operand iterable → IsBranching ok body →
      IsBranching ok (.node [] (.forEach (.node [] (.localVariable name ms type none)) iterable body))
  | expression {value : Page} : IsExpression Clear .operand value → value.kind.isEffect = true →
      IsBranching ok (.node [] (.expressionStatement value))
  | returnStmt {value : Option Page} : (∀ t ∈ value, IsExpression Clear .operand t) →
      IsBranching ok (.node [] (.returnStmt value))
  | breakStmt : IsBranching ok (.node [] (.breakStmt none))
  | continueStmt : IsBranching ok (.node [] (.continueStmt none))
  | empty : IsBranching ok (.node [] .empty)

/-- A branch that does not take the `else` behind it. -/
def IsShut (t : Page) : Prop := endsWithOpenIf t = false

section Branching

variable {ok : Page → Prop} {t : Page} (h : IsBranching ok t)
include h

theorem IsBranching.silent : t.label = [] := by
  cases h <;> rfl

theorem IsBranching.isStatement : IsStatement Clear .branch t := by
  induction h with
  | block _ ih => exact .block nofun nofun (fun t mem => (ih t mem).inBlock) trivial
  | ifThen e _ ih => exact .ifThen rfl e ih trivial
  | ifElse e _ _ _ ih ih' => exact .ifElse rfl e ih ih' trivial
  | whileLoop e _ ih => exact .whileLoop rfl e ih trivial
  | doWhile _ e ih => exact .doWhile rfl ih e trivial
  | forLoop e _ ih => exact .forLoop rfl .nothing e nofun ih trivial
  | forEach isName isLocal isType e _ ih => exact .forEach rfl isName isLocal isType e ih trivial
  | expression e isEffect => exact .expression rfl e isEffect trivial
  | returnStmt e => exact .returnStmt rfl e trivial
  | breakStmt => exact .breakStmt rfl nofun trivial
  | continueStmt => exact .continueStmt rfl nofun trivial
  | empty => exact .empty rfl trivial

theorem IsBranching.asWritten : IsBranching IsShut t.asWritten := by
  induction h with rw [asWritten_node, Kind.map]
  | block _ ih =>
    exact .block (by simpa using ih)
  | ifThen e _ ih =>
    rw [e.asWritten_eq]
    exact .ifThen e ih
  | ifElse e _ _ _ ih ih' =>
    rw [e.asWritten_eq]
    refine .ifElse e ?_ ih' (endsWithOpenIf_thenAsWritten _)
    unfold thenAsWritten
    split
    · exact .block (by simpa using ih)
    · exact ih
  | whileLoop e _ ih =>
    rw [e.asWritten_eq]
    exact .whileLoop e ih
  | doWhile _ e ih =>
    rw [e.asWritten_eq]
    exact .doWhile ih e
  | forLoop e _ ih =>
    rw [option_asWritten_eq e]
    exact .forLoop e ih
  | forEach isName isLocal isType e _ ih =>
    rw [e.asWritten_eq, asWritten_eq_self (k := .localVariable _ _ _ none) nofun
        (by simpa [Kind.children] using isType.asWritten_eq)]
    exact .forEach isName isLocal isType e ih
  | expression e isEffect =>
    rw [e.asWritten_eq]
    exact .expression e isEffect
  | returnStmt e =>
    rw [option_asWritten_eq e]
    exact .returnStmt e
  | breakStmt => exact .breakStmt
  | continueStmt => exact .continueStmt
  | empty => exact .empty

end Branching

end JavaEdit
