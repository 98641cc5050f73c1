import JavaEdit.Proofs.Layout.Programs

/-!
# The nodes of written trees

What the forms of the grammar say about every single node of a tree. All nodes of types and
expressions are laid out in a line (`Inline`). In a whole program the literals are as asked and the
bodies of methods and constructors are blocks, and lists that must not be empty are not (`Regular`); no unit stands below another one (`Inner`),
types are declared in types and units only, and variables with types (`Detail`).
-/

namespace JavaEdit

open List Kind Tree

variable {k : Kind Page} {ok : Page → Prop} {place : ValueSlot} {slot : TypeSlot} {t : Page}

/-! ## Types and expressions -/

/-- Types, expressions and other nodes that are laid out without their comments. -/
def Kind.isInline {α : Type} : Kind α → Bool
  | .typeReference .. | .wildcardType .. | .literal .. | .name .. | .fieldAccess ..
  | .invocation .. | .new .. | .newArray .. | .arrayAccess .. | .binary .. | .unary ..
  | .assignment .. | .conditional .. | .cast .. | .this | .super => true
  | _ => false

@[simp] theorem Kind.isInline_map {α β : Type} (f : α → β) (k : Kind α) : (k.map f).isInline = k.isInline := by
  cases k <;> rfl

/-- The lists of a payload that the grammar asks for have something in them. -/
def Kind.Filled {α : Type} : Kind α → Prop
  | .newArray _ sizes _ => sizes ≠ []
  | .tryStmt _ handlers finalizer => handlers = [] → finalizer ≠ none
  | .catchClause _ _ types _ => types ≠ []
  | _ => True

@[simp] theorem Kind.filled_map {α β : Type} (f : α → β) (k : Kind α) : (k.map f).Filled ↔ k.Filled := by
  cases k <;> simp [map, Filled]

/-- What all nodes of an expression have in common: they are laid out without their comments, literals are as `ok` says,
and lists are filled. -/
def Inline (ok : Page → Prop) (k : Kind Page) : Prop :=
  k.isInline = true ∧ (∀ value, k = .literal value → ok (.node [] k)) ∧ k.Filled

theorem Inline.other (inline : k.isInline = true) (literal : (k.variant == .literal) = false) (filled : k.Filled) :
    Inline ok k := by
  refine ⟨inline, ?_, filled⟩
  rintro value rfl
  cases literal

theorem IsType.every (h : IsType slot t) :
    t.Every fun k => k.shape.variant = .typeReference ∨ k.shape.variant = .wildcardType := by
  induction h with
  | named _ _ _ ih => exact .node (.inl rfl) ih
  | bounded _ ih => exact .node (.inr rfl) (by simpa [children] using ih)
  | unbounded => exact .node (.inr rfl) (forall_mem_nil _)
  | _ => exact .node (.inl rfl) (forall_mem_nil _)

theorem IsType.every_inline (h : IsType slot t) : t.Every (Inline ok) := by
  refine h.every.mono fun k isType => ?_
  cases k with
  | typeReference | wildcardType => exact .other rfl rfl trivial
  | _ => exact isType.elim nofun nofun

theorem IsExpression.every_inline (h : IsExpression ok place t) : t.Every (Inline ok) := by
  induction h with
  | literal h => exact .node ⟨rfl, fun _ _ => h, trivial⟩ (forall_mem_nil _)
  | access _ _ _ ih | unary _ _ ih | update _ _ _ ih =>
    exact .node (.other rfl rfl trivial) (by simpa [children] using ih)
  | call _ _ _ _ ih ihs => exact .node (.other rfl rfl trivial) (by simpa [children] using ⟨ih, ihs⟩)
  | ownCall _ _ ihs => exact .node (.other rfl rfl trivial) (by simpa [children] using ihs)
  | newArray isType some_ _ ihs =>
    exact .node (.other rfl rfl some_) (by simpa [children] using ⟨isType.every_inline, ihs⟩)
  | new isType _ ihs =>
    exact .node (.other rfl rfl trivial) (by simpa [children] using ⟨isType.every_inline, ihs⟩)
  | index _ _ ih ih' | binary _ _ _ _ ih ih' | assignment _ _ _ _ ih ih' =>
    exact .node (.other rfl rfl trivial) (by simpa [children] using ⟨ih, ih'⟩)
  | typeTest _ isType _ ih =>
    exact .node (.other rfl rfl trivial) (by simpa [children] using ⟨ih, isType.every_inline⟩)
  | conditional _ _ _ ih ih' ih'' =>
    exact .node (.other rfl rfl trivial) (by simpa [children] using ⟨ih, ih', ih''⟩)
  | cast isType _ ih =>
    exact .node (.other rfl rfl trivial) (by simpa [children] using ⟨isType.every_inline, ih⟩)
  | _ => exact .node (.other rfl rfl trivial) (forall_mem_nil _)

/-! ## Programs -/

/-- Whether a payload is a method or a constructor. -/
def Kind.isCallable {α : Type} : Kind α → Bool
  | .method .. | .constructor .. => true
  | _ => false

/-- What all nodes of a program have in common: literals are as `ok` says, a method or constructor
has a block as its body, if any, and lists are filled. -/
structure Regular (ok : Page → Prop) (k : Kind Page) : Prop where
  literal : ∀ value, k = .literal value → ok (.node [] k)
  body : k.isCallable = true → ∀ t ∈ k.body?, t.variant = .block
  filled : k.Filled

/-- What all nodes below the root of a unit have in common: they are regular, and there are no
units among them. -/
structure Inner (ok : Page → Prop) (k : Kind Page) : Prop extends Regular ok k where
  notUnit : k.variant ≠ .compilationUnit

/-- The type that a field or a local variable is declared with. -/
def Kind.declaredType? {α : Type} : Kind α → Option α
  | .field _ _ _ type _ | .localVariable _ _ type _ => some type
  | _ => none

@[simp] theorem Kind.declaredType?_map {α β : Type} (f : α → β) (k : Kind α) :
    (k.map f).declaredType? = k.declaredType?.map f := by
  cases k <;> rfl

/-- What all nodes of types, expressions, annotations and statements have in common: they are inner
nodes, declare no types, and variables have types. -/
structure Detail (ok : Page → Prop) (k : Kind Page) : Prop extends Inner ok k where
  notType : k.variant.isType = false
  declared : ∀ type ∈ k.declaredType?, IsType .plain type

theorem Regular.other (literal : k.variant ≠ .literal)
    (callable : k.isCallable = false) (filled : k.Filled) : Regular ok k where
  literal _ same := absurd (congrArg Kind.variant same) literal
  body isCallable := absurd (callable.symm.trans isCallable) nofun
  filled := filled

theorem Inline.detail (h : Inline ok k) : Detail ok k where
  literal := h.2.1
  filled := h.2.2
  body isCallable := by
    obtain ⟨inline, -⟩ := h
    cases k with
    | method | constructor => cases inline
    | _ => cases isCallable
  notUnit := by
    obtain ⟨inline, -⟩ := h
    cases k with
    | compilationUnit => cases inline
    | _ => nofun
  notType := by
    obtain ⟨inline, -⟩ := h
    cases k with
    | classDecl | interfaceDecl => cases inline
    | _ => rfl
  declared := by
    obtain ⟨inline, -⟩ := h
    cases k with
    | field | localVariable => cases inline
    | _ => nofun

section Every

variable {owner : Option String}

theorem IsType.every_detail (h : IsType slot t) : t.Every (Detail ok) := h.every_inline.mono fun _ => Inline.detail

theorem IsExpression.every_detail (h : IsExpression ok place t) : t.Every (Detail ok) :=
  h.every_inline.mono fun _ => Inline.detail

/-- Payloads of nodes that are neither literals, units, declarations nor variables. -/
def Kind.isPart {α : Type} : Kind α → Bool
  | .literal .. | .compilationUnit .. | .classDecl .. | .interfaceDecl .. | .method .. | .constructor .. | .field ..
  | .localVariable .. => false
  | _ => true

theorem every_detail_of_children {cs : List Comment} (part : k.isPart = true) (filled : k.Filled)
    (children : ∀ t ∈ k.children, t.Every (Detail ok)) : (Tree.node cs k).Every (Detail ok) := by
  refine .node ?_ children
  cases k with
  | literal | compilationUnit | classDecl | interfaceDecl | method | constructor | field | localVariable => cases part
  | _ =>
    refine ⟨⟨⟨?_, ?_, filled⟩, ?_⟩, rfl, ?_⟩
    · rintro _ ⟨⟩
    · rintro ⟨⟩
    · rintro ⟨⟩
    · rintro _ ⟨⟩

theorem IsNote.every_detail {place : NoteSlot} (h : IsNote ok place t) : t.Every (Detail ok) := by
  induction h with
  | noted _ _ ih => exact every_detail_of_children rfl trivial ih
  | expression _ e => exact e.every_detail
  | keyed _ _ ih =>
    refine every_detail_of_children rfl trivial ?_
    have key : ∀ n, (node [] (.name n) : Page).Every (Detail ok) := fun n =>
      every_detail_of_children rfl trivial (forall_mem_nil _)
    simpa [children] using ⟨key _, ih⟩

theorem IsParameter.every_detail (h : IsParameter ok t) : t.Every (Detail ok) := by
  obtain ⟨_, _, notes, isType⟩ := h
  refine every_detail_of_children rfl trivial ?_
  simp only [children, forall_mem_append, forall_mem_singleton]
  exact ⟨fun t mem => (notes t mem).every_detail, isType.every_detail⟩

theorem IsTypeParameter.every_detail (h : IsTypeParameter t) : t.Every (Detail ok) := by
  obtain ⟨_, bounds⟩ := h
  exact every_detail_of_children rfl trivial fun t mem => (bounds t mem).every_detail

theorem every_part_variable {cs : List Comment} {name : String} {ms : Modifiers} {type : Page}
    {value : Option Page} (isType : IsType .plain type) (isValue : ∀ t ∈ value, IsExpression ok .operand t) :
    (Tree.node cs (.localVariable name ms type value)).Every (Detail ok) := by
  refine .node ⟨⟨.other (by rintro ⟨⟩) rfl trivial, by rintro ⟨⟩⟩, rfl, by simpa [declaredType?] using isType⟩ ?_
  simp only [children, forall_mem_cons, Option.mem_toList]
  exact ⟨isType.every_detail, fun t mem => (isValue t mem).every_detail⟩

theorem AreInitial.every_detail {ts : List Page} (h : AreInitial ok ts) : ∀ t ∈ ts, t.Every (Detail ok) := by
  intro t mem
  cases h with
  | nothing => exact absurd mem not_mem_nil
  | locals _ _ isType each =>
    obtain ⟨⟨_, isValue⟩, _⟩ := each t mem
    exact every_part_variable isType isValue
  | expressions _ each =>
    obtain ⟨e⟩ := each t mem
    exact every_detail_of_children rfl trivial (by simpa [children] using e.every_detail)

theorem IsStatement.every_detail {place : StatementSlot} (h : IsStatement ok place t) : t.Every (Detail ok) := by
  induction h with
  | block _ _ _ _ ih => exact every_detail_of_children rfl trivial ih
  | localVariable _ isType isVariable _ =>
    obtain ⟨_, isValue⟩ := isVariable
    exact every_part_variable isType isValue
  | expression _ e _ _ | throwStmt _ e _ =>
    exact every_detail_of_children rfl trivial (by simpa [children] using e.every_detail)
  | ifThen _ e _ _ ih | whileLoop _ e _ _ ih =>
    exact every_detail_of_children rfl trivial (by simpa [children] using ⟨e.every_detail, ih⟩)
  | ifElse _ e _ _ _ ih ih' =>
    exact every_detail_of_children rfl trivial (by simpa [children] using ⟨e.every_detail, ih, ih'⟩)
  | doWhile _ _ e _ ih =>
    exact every_detail_of_children rfl trivial (by simpa [children] using ⟨ih, e.every_detail⟩)
  | forLoop _ initial condition update _ _ ih =>
    refine every_detail_of_children rfl trivial ?_
    simp only [children, forall_mem_append, forall_mem_singleton, Option.mem_toList]
    exact ⟨⟨⟨initial.every_detail, fun t mem => (condition t mem).every_detail⟩,
      fun t mem => (update t mem).every_detail⟩, ih⟩
  | forEach _ _ _ isType e _ _ ih =>
    refine every_detail_of_children rfl trivial ?_
    simp only [children, forall_mem_cons]
    exact ⟨every_part_variable isType (by simp), e.every_detail, ih, forall_mem_nil _⟩
  | returnStmt _ value _ =>
    refine every_detail_of_children rfl trivial ?_
    simp only [children, Option.mem_toList]
    exact fun t mem => (value t mem).every_detail
  | tryStmt _ _ _ _ filled _ ih ihs ih' =>
    refine every_detail_of_children rfl filled ?_
    simp only [children, forall_mem_append, forall_mem_cons, Option.mem_toList]
    exact ⟨⟨ih, ihs⟩, ih'⟩
  | catchClause _ _ filled types _ _ ih =>
    refine every_detail_of_children rfl filled ?_
    simp only [children, forall_mem_append, forall_mem_singleton]
    exact ⟨fun t mem => (types t mem).every_detail, ih⟩
  | breakStmt | continueStmt | empty => exact every_detail_of_children rfl trivial (forall_mem_nil _)

theorem IsStatement.variant_body (h : IsStatement ok .body t) : t.variant = .block := by
  cases h with
  | block => rfl
  | _ => contradiction

theorem IsDeclaration.child_field (h : IsDeclaration ok owner t) (isField : t.variant = .field) :
    (∀ type ∈ t.kind.declaredType?, IsType .plain type) ∧ ∀ s ∈ t.kind.children, s.Every (Detail ok) := by
  cases h with
  | field _ preface isType value =>
    simp only [kind, children, declaredType?, forall_mem_append, forall_mem_singleton,
      Option.mem_toList, Option.mem_some_iff]
    exact ⟨fun _ same => same ▸ isType, ⟨fun s mem => (preface.notes s mem).every_detail, isType.every_detail⟩,
      fun s mem => (value s mem).every_detail⟩
  | _ => cases isField

theorem IsDeclaration.child (h : IsDeclaration ok owner t) :
    ∀ s ∈ t.kind.children, (∃ owner, IsDeclaration ok owner s) ∨ s.Every (Detail ok) := by
  have field := h.child_field
  cases h with
  | classDecl _ preface parameters superclass interfaces members =>
    simp only [kind, children, forall_mem_append, Option.mem_toList]
    exact ⟨⟨⟨⟨fun s mem => .inr (preface.notes s mem).every_detail, fun s mem => .inr (parameters s mem).every_detail⟩,
      fun s mem => .inr (superclass s mem).every_detail⟩,
      fun s mem => .inr (interfaces s mem).every_detail⟩, fun s mem => .inl ⟨_, members s mem⟩⟩
  | interfaceDecl _ preface parameters supertypes members =>
    simp only [kind, children, forall_mem_append]
    exact ⟨⟨⟨fun s mem => .inr (preface.notes s mem).every_detail, fun s mem => .inr (parameters s mem).every_detail⟩,
      fun s mem => .inr (supertypes s mem).every_detail⟩, fun s mem => .inl ⟨_, members s mem⟩⟩
  | method _ preface typeParameters returned parameters thrown body =>
    simp only [kind, children, forall_mem_append, forall_mem_singleton, Option.mem_toList]
    exact ⟨⟨⟨⟨⟨fun s mem => .inr (preface.notes s mem).every_detail,
      fun s mem => .inr (typeParameters s mem).every_detail⟩, .inr returned.every_detail⟩,
      fun s mem => .inr (parameters.each s mem).every_detail⟩,
      fun s mem => .inr (thrown s mem).every_detail⟩, fun s mem => .inr (body s mem).every_detail⟩
  | constructor _ preface parameters thrown body =>
    simp only [kind, children, forall_mem_append, forall_mem_singleton]
    exact ⟨⟨⟨fun s mem => .inr (preface.notes s mem).every_detail,
      fun s mem => .inr (parameters.each s mem).every_detail⟩,
      fun s mem => .inr (thrown s mem).every_detail⟩, .inr body.every_detail⟩
  | field => exact fun s child => .inr ((field rfl).2 s child)

theorem variable_parts (h : (∃ owner, IsDeclaration ok owner t) ∨ t.Every (Detail ok))
    (isVariable : t.variant = .field ∨ t.variant = .localVariable) :
    (∀ type ∈ t.kind.declaredType?, IsType .plain type) ∧ ∀ s ∈ t.kind.children, s.Every (Detail ok) := by
  rcases h with ⟨owner, isMember⟩ | every
  · rcases isVariable with isField | isLocal
    · exact isMember.child_field isField
    · cases isMember <;> cases isLocal
  · obtain ⟨detail, children⟩ := every
    exact ⟨detail.declared, children⟩

theorem IsDeclaration.inner (h : IsDeclaration ok owner t) : Inner ok t.kind := by
  cases h with
  | method _ _ _ _ _ _ body => exact ⟨⟨nofun, fun _ t mem => (body t mem).variant_body, trivial⟩, nofun⟩
  | constructor _ _ _ _ body =>
    refine ⟨⟨nofun, fun _ t mem => ?_, trivial⟩, nofun⟩
    obtain rfl : _ = t := Option.some_inj.mp mem
    exact body.variant_body
  | _ => exact ⟨.other nofun rfl trivial, nofun⟩

theorem IsDeclaration.every_inner (h : IsDeclaration ok owner t) : t.Every (Inner ok) := by
  induction t using induct generalizing owner with
  | step cs k ih =>
    refine .node h.inner fun s child => ?_
    rcases h.child s child with ⟨owner, isMember⟩ | parts
    · exact ih s child isMember
    · exact parts.mono fun _ => Detail.toInner

theorem IsExpression.every_regular (h : IsExpression ok place t) : t.Every (Regular ok) :=
  h.every_detail.mono fun _ part => part.toRegular

theorem IsStatement.every_regular {place : StatementSlot} (h : IsStatement ok place t) : t.Every (Regular ok) :=
  h.every_detail.mono fun _ part => part.toRegular

theorem IsUnit.every_regular (h : IsUnit ok t) : t.Every (Regular ok) := by
  obtain ⟨_, _, _, types, _⟩ := h
  exact .node (.other nofun rfl trivial) fun t mem =>
    (types t mem).every_inner.mono fun _ => Inner.toRegular

theorem IsUnit.child (h : IsUnit ok t) :
    t.variant = .compilationUnit ∧ ∀ s ∈ t.kind.children, IsDeclaration ok none s := by
  obtain ⟨_, _, _, types, _⟩ := h
  exact ⟨rfl, types⟩

end Every

end JavaEdit
