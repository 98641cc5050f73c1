import JavaEdit.Proofs.Layout.Forms

/-!
# Programs with a written form

`IsStatement`, `IsDeclaration` and `IsUnit` describe the statements, declarations and units of the
grammar, down to the types and expressions of `Proofs/Layout/Forms`. As there, what does not follow
from the place of a node in the grammar is left to a predicate `ok`, which is asked of every
statement and every declaration.
-/

namespace JavaEdit

/-- Modifiers in canonical order, each of them once. -/
def Modifiers.Canonical (ms : Modifiers) : Prop := ofPredicate ms.contains = ms

theorem Modifiers.canonical_ofPredicate (p : Modifier → Bool) : (ofPredicate p).Canonical := by
  unfold Canonical ofPredicate
  refine List.filter_congr fun m mem => ?_
  simp only [List.contains_eq_mem, List.mem_filter, mem, true_and, Bool.decide_eq_true]

/-- The modifiers of a local variable. -/
def Modifiers.IsLocal (ms : Modifiers) : Prop := ms = [] ∨ ms = [.final]

/-! ## Annotations and parameters -/

/-- Where an annotation or the value of one of its arguments stands. -/
inductive NoteSlot where
  /-- In front of a declaration. -/
  | use
  | argument
  /-- Behind the key of an argument. -/
  | value
  deriving DecidableEq

/-- Annotations, their arguments, and the values of those. -/
inductive IsNote (ok : Page → Prop) : NoteSlot → Page → Prop
  | noted {place : NoteSlot} {name : String} {arguments : List Page} : isDotted name = true →
      (∀ t ∈ arguments, IsNote ok .argument t) →
      IsNote ok place (.node [] (.annotationUse name arguments))
  | expression {place : NoteSlot} {t : Page} : place ≠ .use → IsExpression ok .operand t →
      IsNote ok place t
  | keyed {key : String} {value : Page} : isIdentifier key = true → IsNote ok .value value →
      IsNote ok .argument (.node [] (.assignment none (.node [] (.name key)) value))

/-- Parameters of methods and constructors. -/
inductive IsParameter (ok : Page → Prop) : Page → Prop
  | node {name : String} {ms : Modifiers} {annotations : List Page} {type : Page} {varargs : Bool} :
      isIdentifier name = true → ms.Canonical → (∀ t ∈ annotations, IsNote ok .use t) →
      IsType .plain type → IsParameter ok (.node [] (.parameter name ms annotations type varargs))

/-- Whether a payload is a parameter with dots. -/
def Kind.isVarargs {α : Type} : Kind α → Bool
  | .parameter _ _ _ _ varargs => varargs
  | _ => false

/-- Lists of parameters, of which only the last may have dots. -/
structure AreParameters (ok : Page → Prop) (ts : List Page) : Prop where
  each : ∀ t ∈ ts, IsParameter ok t
  dots : ∀ t ∈ ts.dropLast, t.kind.isVarargs = false

/-- Parameters of generic types and methods. -/
inductive IsTypeParameter : Page → Prop
  | node {name : String} {bounds : List Page} : isIdentifier name = true →
      (∀ t ∈ bounds, IsType .plain t) → IsTypeParameter (.node [] (.typeParameter name bounds))

/-! ## Statements -/

/-- Whether an expression may stand as a statement. -/
def Kind.isEffect {α : Type} : Kind α → Bool
  | .unary op _ => op.isUpdate
  | .assignment _ _ _ | .invocation _ _ _ | .new _ _ => true
  | _ => false

/-- Local variables with given modifiers and type. -/
inductive IsVariable (ok : Page → Prop) (ms : Modifiers) (type : Page) : Page → Prop
  | node {cs : List Comment} {name : String} {value : Option Page} : isIdentifier name = true →
      (∀ t ∈ value, IsExpression ok .operand t) →
      IsVariable ok ms type (.node cs (.localVariable name ms type value))

/-- Expressions in the head of a `for`. -/
inductive IsItem (ok : Page → Prop) : Page → Prop
  | node {value : Page} : IsExpression ok .operand value →
      IsItem ok (.node [] (.expressionStatement value))

/-- What the head of a `for` may start with: nothing, variables of one type, or expressions. -/
inductive AreInitial (ok : Page → Prop) : List Page → Prop
  | nothing : AreInitial ok []
  | locals {ms : Modifiers} {type : Page} {ts : List Page} : ts ≠ [] → ms.IsLocal →
      IsType .plain type → (∀ t ∈ ts, IsVariable ok ms type t ∧ t.label = []) → AreInitial ok ts
  | expressions {ts : List Page} : ts ≠ [] → (∀ t ∈ ts, IsItem ok t) → AreInitial ok ts

/-- Where a statement stands. -/
inductive StatementSlot where
  | inBlock
  /-- Below a head or a keyword. -/
  | branch
  /-- The block of a method or a `try`, which has no comments. -/
  | body
  /-- Behind a `try`. -/
  | handler
  deriving DecidableEq

/-- What an `else` behind a node would belong to is decided by the payload. -/
def Kind.endsWithOpenIf : Kind Page → Bool
  | ifElse _ _ none => true
  | ifElse _ _ (some last) => Layout.endsWithOpenIf last
  | whileLoop _ body | forLoop _ _ _ body | forEach _ _ body => Layout.endsWithOpenIf body
  | _ => false

theorem endsWithOpenIf_node (cs : List Comment) (k : Kind Page) :
    Layout.endsWithOpenIf (.node cs k) = k.endsWithOpenIf := by
  unfold Layout.endsWithOpenIf
  rw [Tree.fold_node]
  cases k with
  | ifElse _ _ last => cases last <;> rfl
  | _ => rfl

/-- Whether every kind of statement may stand here. -/
def StatementSlot.isOpen : StatementSlot → Bool
  | .inBlock | .branch => true
  | _ => false

/-- The statements of the grammar. -/
inductive IsStatement (ok : Page → Prop) : StatementSlot → Page → Prop
  | block {place : StatementSlot} {cs : List Comment} {statements : List Page} :
      place ≠ .handler → (place = .body → cs = []) → (∀ t ∈ statements, IsStatement ok .inBlock t) →
      ok (.node cs (.block statements)) → IsStatement ok place (.node cs (.block statements))
  | localVariable {ms : Modifiers} {type t : Page} : ms.IsLocal → IsType .plain type →
      IsVariable ok ms type t → ok t → IsStatement ok .inBlock t
  | expression {place : StatementSlot} {cs : List Comment} {value : Page} : place.isOpen = true →
      IsExpression ok .operand value → value.kind.isEffect = true →
      ok (.node cs (.expressionStatement value)) →
      IsStatement ok place (.node cs (.expressionStatement value))
  | ifThen {place : StatementSlot} {cs : List Comment} {condition thenBranch : Page} :
      place.isOpen = true → IsExpression ok .operand condition → IsStatement ok .branch thenBranch →
      ok (.node cs (.ifElse condition thenBranch none)) →
      IsStatement ok place (.node cs (.ifElse condition thenBranch none))
  | ifElse {place : StatementSlot} {cs : List Comment} {condition thenBranch elseBranch : Page} :
      place.isOpen = true → IsExpression ok .operand condition → IsStatement ok .branch thenBranch →
      IsStatement ok .branch elseBranch →
      ok (.node cs (.ifElse condition thenBranch (some elseBranch))) →
      IsStatement ok place (.node cs (.ifElse condition thenBranch (some elseBranch)))
  | whileLoop {place : StatementSlot} {cs : List Comment} {condition body : Page} :
      place.isOpen = true → IsExpression ok .operand condition → IsStatement ok .branch body →
      ok (.node cs (.whileLoop condition body)) →
      IsStatement ok place (.node cs (.whileLoop condition body))
  | doWhile {place : StatementSlot} {cs : List Comment} {body condition : Page} :
      place.isOpen = true → IsStatement ok .branch body → IsExpression ok .operand condition →
      ok (.node cs (.doWhile body condition)) →
      IsStatement ok place (.node cs (.doWhile body condition))
  | forLoop {place : StatementSlot} {cs : List Comment} {init : List Page} {condition : Option Page}
      {update : List Page} {body : Page} : place.isOpen = true → AreInitial ok init →
      (∀ t ∈ condition, IsExpression ok .operand t) → (∀ t ∈ update, IsExpression ok .operand t) →
      IsStatement ok .branch body → ok (.node cs (.forLoop init condition update body)) →
      IsStatement ok place (.node cs (.forLoop init condition update body))
  | forEach {place : StatementSlot} {cs : List Comment} {name : String} {ms : Modifiers}
      {type iterable body : Page} : place.isOpen = true → isIdentifier name = true → ms.IsLocal →
      IsType .plain type → IsExpression ok .operand iterable → IsStatement ok .branch body →
      ok (.node cs (.forEach (.node [] (.localVariable name ms type none)) iterable body)) →
      IsStatement ok place
        (.node cs (.forEach (.node [] (.localVariable name ms type none)) iterable body))
  | returnStmt {place : StatementSlot} {cs : List Comment} {value : Option Page} :
      place.isOpen = true → (∀ t ∈ value, IsExpression ok .operand t) →
      ok (.node cs (.returnStmt value)) → IsStatement ok place (.node cs (.returnStmt value))
  | throwStmt {place : StatementSlot} {cs : List Comment} {value : Page} : place.isOpen = true →
      IsExpression ok .operand value → ok (.node cs (.throwStmt value)) →
      IsStatement ok place (.node cs (.throwStmt value))
  | breakStmt {place : StatementSlot} {cs : List Comment} {label : Option String} :
      place.isOpen = true → (∀ n ∈ label, isIdentifier n = true) →
      ok (.node cs (.breakStmt label)) → IsStatement ok place (.node cs (.breakStmt label))
  | continueStmt {place : StatementSlot} {cs : List Comment} {label : Option String} :
      place.isOpen = true → (∀ n ∈ label, isIdentifier n = true) →
      ok (.node cs (.continueStmt label)) → IsStatement ok place (.node cs (.continueStmt label))
  | tryStmt {place : StatementSlot} {cs : List Comment} {body : Page} {handlers : List Page}
      {finalizer : Option Page} : place.isOpen = true → IsStatement ok .body body →
      (∀ t ∈ handlers, IsStatement ok .handler t) → (∀ t ∈ finalizer, IsStatement ok .body t) →
      (handlers = [] → finalizer ≠ none) → ok (.node cs (.tryStmt body handlers finalizer)) →
      IsStatement ok place (.node cs (.tryStmt body handlers finalizer))
  | catchClause {name : String} {ms : Modifiers} {types : List Page} {body : Page} :
      isIdentifier name = true → ms.Canonical → types ≠ [] → (∀ t ∈ types, IsType .plain t) →
      IsStatement ok .body body → ok (.node [] (.catchClause name ms types body)) →
      IsStatement ok .handler (.node [] (.catchClause name ms types body))
  | empty {place : StatementSlot} {cs : List Comment} : place.isOpen = true →
      ok (.node cs .empty) → IsStatement ok place (.node cs .empty)

/-- What may stand below a head may stand in a block. -/
theorem IsStatement.inBlock {ok : Page → Prop} {t : Page} (h : IsStatement ok .branch t) :
    IsStatement ok .inBlock t := by
  cases h with
  | block _ _ a b => exact .block nofun nofun a b
  | expression _ a b c => exact .expression rfl a b c
  | ifThen _ a b c => exact .ifThen rfl a b c
  | ifElse _ a b c d => exact .ifElse rfl a b c d
  | whileLoop _ a b c => exact .whileLoop rfl a b c
  | doWhile _ a b c => exact .doWhile rfl a b c
  | forLoop _ a b c d e => exact .forLoop rfl a b c d e
  | forEach _ a b c d e f => exact .forEach rfl a b c d e f
  | returnStmt _ a b => exact .returnStmt rfl a b
  | throwStmt _ a b => exact .throwStmt rfl a b
  | breakStmt _ a b => exact .breakStmt rfl a b
  | continueStmt _ a b => exact .continueStmt rfl a b
  | tryStmt _ a b c d e => exact .tryStmt rfl a b c d e
  | empty _ a => exact .empty rfl a

/-! ## Declarations -/

/-- What stands in front of a declaration. -/
structure IsPreface (ok : Page → Prop) (annotations : List Page) (ms : Modifiers) : Prop where
  notes : ∀ t ∈ annotations, IsNote ok .use t
  modifiers : ms.Canonical

/-- The declarations of the grammar, in a type with the name `owner` or at the top. -/
inductive IsDeclaration (ok : Page → Prop) : Option String → Page → Prop
  | classDecl {owner : Option String} {cs : List Comment} {name : String} {ms : Modifiers}
      {annotations typeParameters : List Page} {superclass : Option Page}
      {interfaces members : List Page} : isIdentifier name = true → IsPreface ok annotations ms →
      (∀ t ∈ typeParameters, IsTypeParameter t) → (∀ t ∈ superclass, IsType .plain t) →
      (∀ t ∈ interfaces, IsType .plain t) → (∀ t ∈ members, IsDeclaration ok (some name) t) →
      ok (.node cs (.classDecl name ms annotations typeParameters superclass interfaces members)) →
      IsDeclaration ok owner
        (.node cs (.classDecl name ms annotations typeParameters superclass interfaces members))
  | interfaceDecl {owner : Option String} {cs : List Comment} {name : String} {ms : Modifiers}
      {annotations typeParameters supertypes members : List Page} : isIdentifier name = true →
      IsPreface ok annotations ms → (∀ t ∈ typeParameters, IsTypeParameter t) →
      (∀ t ∈ supertypes, IsType .plain t) → (∀ t ∈ members, IsDeclaration ok (some name) t) →
      ok (.node cs (.interfaceDecl name ms annotations typeParameters supertypes members)) →
      IsDeclaration ok owner
        (.node cs (.interfaceDecl name ms annotations typeParameters supertypes members))
  | method {owner : String} {cs : List Comment} {name : String} {ms : Modifiers}
      {annotations typeParameters : List Page} {returned : Page} {parameters thrown : List Page}
      {body : Option Page} : isIdentifier name = true → IsPreface ok annotations ms →
      (∀ t ∈ typeParameters, IsTypeParameter t) → IsType .plain returned →
      AreParameters ok parameters → (∀ t ∈ thrown, IsType .plain t) →
      (∀ t ∈ body, IsStatement ok .body t) →
      ok (.node cs (.method name ms annotations typeParameters returned parameters thrown body)) →
      IsDeclaration ok (some owner)
        (.node cs (.method name ms annotations typeParameters returned parameters thrown body))
  | constructor {cs : List Comment} {name : String} {ms : Modifiers} {annotations parameters thrown : List Page}
      {body : Page} : isIdentifier name = true → IsPreface ok annotations ms →
      AreParameters ok parameters → (∀ t ∈ thrown, IsType .plain t) → IsStatement ok .body body →
      ok (.node cs (.constructor name ms annotations parameters thrown body)) →
      IsDeclaration ok (some name) (.node cs (.constructor name ms annotations parameters thrown body))
  | field {owner : String} {cs : List Comment} {name : String} {ms : Modifiers}
      {annotations : List Page} {type : Page} {value : Option Page} : isIdentifier name = true →
      IsPreface ok annotations ms → IsType .plain type → (∀ t ∈ value, IsExpression ok .operand t) →
      ok (.node cs (.field name ms annotations type value)) →
      IsDeclaration ok (some owner) (.node cs (.field name ms annotations type value))

/-- The units of the grammar. Comments in front of a unit belong to its package line. -/
inductive IsUnit (ok : Page → Prop) : Page → Prop
  | node {cs : List Comment} {package : Option String} {imports : List Import} {types : List Page} :
      (∀ n ∈ package, isDotted n = true) → (package = none → cs = []) →
      (∀ i ∈ imports, isDotted i.path = true) → (∀ t ∈ types, IsDeclaration ok none t) →
      ok (.node cs (.compilationUnit package imports types)) →
      IsUnit ok (.node cs (.compilationUnit package imports types))

end JavaEdit
