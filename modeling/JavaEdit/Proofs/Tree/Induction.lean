import JavaEdit.Tree.Basic

/-!
# Induction over trees

A property of trees holds of all of them when it passes from the children of a node to the node,
whatever the payload (`Tree.induct`). The children of a payload are smaller than the tree it makes.
-/

namespace JavaEdit

open List

variable {ι : Type}

theorem Kind.sizeOf_child_lt {α : Type} [SizeOf α] {k : Kind α} {c : α} (h : c ∈ k.children) : sizeOf c < sizeOf k := by
  have inList : ∀ {l : List α}, c ∈ l → sizeOf c < sizeOf l := sizeOf_lt_of_mem
  have inOption : ∀ {o : Option α}, c ∈ o.toList → sizeOf c < sizeOf o := by
    intro o mem
    cases o with
    | none => exact absurd mem not_mem_nil
    | some x =>
      rw [mem_singleton.mp mem]
      simp
  cases k <;> simp only [Kind.children, mem_append, mem_cons, not_mem_nil, or_false] at h
  all_goals
    simp only [Kind.compilationUnit.sizeOf_spec, Kind.classDecl.sizeOf_spec,
      Kind.interfaceDecl.sizeOf_spec, Kind.method.sizeOf_spec, Kind.constructor.sizeOf_spec,
      Kind.field.sizeOf_spec, Kind.parameter.sizeOf_spec, Kind.annotationUse.sizeOf_spec,
      Kind.typeParameter.sizeOf_spec, Kind.typeReference.sizeOf_spec,
      Kind.wildcardType.sizeOf_spec, Kind.block.sizeOf_spec, Kind.localVariable.sizeOf_spec,
      Kind.expressionStatement.sizeOf_spec, Kind.ifElse.sizeOf_spec, Kind.whileLoop.sizeOf_spec,
      Kind.doWhile.sizeOf_spec, Kind.forLoop.sizeOf_spec, Kind.forEach.sizeOf_spec,
      Kind.returnStmt.sizeOf_spec, Kind.throwStmt.sizeOf_spec, Kind.tryStmt.sizeOf_spec,
      Kind.catchClause.sizeOf_spec, Kind.fieldAccess.sizeOf_spec, Kind.invocation.sizeOf_spec,
      Kind.new.sizeOf_spec, Kind.newArray.sizeOf_spec, Kind.arrayAccess.sizeOf_spec,
      Kind.binary.sizeOf_spec, Kind.unary.sizeOf_spec, Kind.assignment.sizeOf_spec,
      Kind.conditional.sizeOf_spec, Kind.cast.sizeOf_spec]
    grind

namespace Tree

theorem induct {P : Tree ι → Prop} (step : ∀ label kind, (∀ t ∈ kind.children, P t) → P (node label kind)) : ∀ t, P t
  | node label kind => step label kind fun t _ => induct step t
termination_by t => sizeOf t
decreasing_by
  simp only [node.sizeOf_spec]
  have := Kind.sizeOf_child_lt (by assumption : t ∈ kind.children)
  omega

/-- A property of the payloads of all nodes. -/
inductive Every (P : Kind (Tree ι) → Prop) : Tree ι → Prop
  | node {label : ι} {kind : Kind (Tree ι)} : P kind → (∀ t ∈ kind.children, Every P t) →
      Every P (node label kind)

theorem Every.mono {P Q : Kind (Tree ι) → Prop} {t : Tree ι} (h : Every P t) (weaker : ∀ k, P k → Q k) : Every Q t := by
  induction h with
  | node here _ ih => exact .node (weaker _ here) ih

end Tree

end JavaEdit
