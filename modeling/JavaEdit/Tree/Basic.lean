import JavaEdit.Node.Slots

/-!
# Trees

A tree is a payload whose children are trees, with a label at every node: comments, an index in an
arena, or nothing. `Tree.fold` is recursion over trees; the equation that defines it for all
payloads at once is `fold_node`.
-/

namespace JavaEdit

/-- A tree with labels of type `ι`. -/
inductive Tree (ι : Type) where
  | node (label : ι) (kind : Kind (Tree ι))

namespace Tree

variable {ι κ β : Type}

def label : Tree ι → ι
  | node label _ => label

def kind : Tree ι → Kind (Tree ι)
  | node _ kind => kind

def variant (t : Tree ι) : Variant := t.kind.variant

mutual

/-- Combine a tree from its leaves up: `f` gets the label and the payload over the results of the
children. -/
def fold (f : ι → Kind β → β) : Tree ι → β
  | node label kind => f label (foldKind f kind)

def foldKind (f : ι → Kind β → β) : Kind (Tree ι) → Kind β
  | .compilationUnit package imports types => .compilationUnit package imports (foldList f types)
  | .classDecl n ms annotations typeParameters superclass interfaces members =>
    .classDecl n ms (foldList f annotations) (foldList f typeParameters) (foldOption f superclass)
      (foldList f interfaces) (foldList f members)
  | .interfaceDecl n ms annotations typeParameters supertypes members =>
    .interfaceDecl n ms (foldList f annotations) (foldList f typeParameters)
      (foldList f supertypes) (foldList f members)
  | .method n ms annotations typeParameters returnType parameters thrown body =>
    .method n ms (foldList f annotations) (foldList f typeParameters) (fold f returnType)
      (foldList f parameters) (foldList f thrown) (foldOption f body)
  | .constructor n ms annotations parameters thrown body =>
    .constructor n ms (foldList f annotations) (foldList f parameters) (foldList f thrown)
      (fold f body)
  | .field n ms annotations type initializer =>
    .field n ms (foldList f annotations) (fold f type) (foldOption f initializer)
  | .parameter n ms annotations type varargs =>
    .parameter n ms (foldList f annotations) (fold f type) varargs
  | .annotationUse n arguments => .annotationUse n (foldList f arguments)
  | .typeParameter n bounds => .typeParameter n (foldList f bounds)
  | .typeReference n arguments diamond dimensions =>
    .typeReference n (foldList f arguments) diamond dimensions
  | .wildcardType bound upper => .wildcardType (foldOption f bound) upper
  | .block statements => .block (foldList f statements)
  | .localVariable n ms type initializer =>
    .localVariable n ms (fold f type) (foldOption f initializer)
  | .expressionStatement expression => .expressionStatement (fold f expression)
  | .ifElse condition thenBranch elseBranch =>
    .ifElse (fold f condition) (fold f thenBranch) (foldOption f elseBranch)
  | .whileLoop condition body => .whileLoop (fold f condition) (fold f body)
  | .doWhile body condition => .doWhile (fold f body) (fold f condition)
  | .forLoop init condition update body =>
    .forLoop (foldList f init) (foldOption f condition) (foldList f update) (fold f body)
  | .forEach element iterable body => .forEach (fold f element) (fold f iterable) (fold f body)
  | .returnStmt value => .returnStmt (foldOption f value)
  | .throwStmt value => .throwStmt (fold f value)
  | .breakStmt label => .breakStmt label
  | .continueStmt label => .continueStmt label
  | .tryStmt body catchers finalizer =>
    .tryStmt (fold f body) (foldList f catchers) (foldOption f finalizer)
  | .catchClause n ms types body => .catchClause n ms (foldList f types) (fold f body)
  | .empty => .empty
  | .literal value => .literal value
  | .name n => .name n
  | .fieldAccess target n => .fieldAccess (fold f target) n
  | .invocation target n arguments => .invocation (foldOption f target) n (foldList f arguments)
  | .new type arguments => .new (fold f type) (foldList f arguments)
  | .newArray element dimensions extraDimensions =>
    .newArray (fold f element) (foldList f dimensions) extraDimensions
  | .arrayAccess target index => .arrayAccess (fold f target) (fold f index)
  | .binary op left right => .binary op (fold f left) (fold f right)
  | .unary op operand => .unary op (fold f operand)
  | .assignment op target value => .assignment op (fold f target) (fold f value)
  | .conditional condition thenValue elseValue =>
    .conditional (fold f condition) (fold f thenValue) (fold f elseValue)
  | .cast type expression => .cast (fold f type) (fold f expression)
  | .this => .this
  | .super => .super

def foldList (f : ι → Kind β → β) : List (Tree ι) → List β
  | [] => []
  | t :: ts => fold f t :: foldList f ts

def foldOption (f : ι → Kind β → β) : Option (Tree ι) → Option β
  | none => none
  | some t => some (fold f t)

end

theorem foldList_eq_map (f : ι → Kind β → β) (ts : List (Tree ι)) :
    foldList f ts = ts.map (fold f) := by
  induction ts with
  | nil => rfl
  | cons t ts ih => rw [foldList, ih, List.map_cons]

theorem foldOption_eq_map (f : ι → Kind β → β) (t : Option (Tree ι)) :
    foldOption f t = t.map (fold f) := by
  cases t <;> rfl

theorem foldKind_eq_map (f : ι → Kind β → β) (k : Kind (Tree ι)) :
    foldKind f k = k.map (fold f) := by
  cases k <;> simp only [foldKind, Kind.map, foldList_eq_map, foldOption_eq_map]

/-- Folding a node combines its label with its folded children. -/
theorem fold_node (f : ι → Kind β → β) (label : ι) (kind : Kind (Tree ι)) :
    fold f (node label kind) = f label (kind.map (fold f)) := by
  rw [fold, foldKind_eq_map]

/-- Combine a tree from its leaves up, where `f` also sees the children themselves. -/
def combine (f : ι → Kind (Tree ι × β) → β) (t : Tree ι) : β :=
  (t.fold fun label kind => (node label (kind.map Prod.fst), f label kind)).2

def mapLabels (f : ι → κ) (t : Tree ι) : Tree κ :=
  t.fold fun label kind => node (f label) kind

def bare (t : Tree ι) : Tree Unit := t.mapLabels fun _ => ()

/-- Labels in pre-order: a node before its children, children in source order. -/
def preorder (t : Tree ι) : List ι :=
  t.fold fun label kind => label :: kind.children.flatten

def size (t : Tree ι) : Nat :=
  t.fold fun _ kind => kind.children.foldl (· + ·) 1

end Tree

end JavaEdit
