import JavaEdit.Proofs.Source.Literals

/-!
# Trees with a written form

Arenas can hold any tree; only some of them have a text that reads as the tree again. `IsType` and
`IsExpression` describe the types and expressions of the grammar. Their labels are empty, because
comments are not kept inside types and expressions. What depends on the characters around a node
and not on its place in the grammar is left to a predicate on nodes: `Clear` is the one under which
texts can be read back.
-/

namespace JavaEdit

open Lexer List

/-- Names that are not reserved. -/
def isIdentifier (n : String) : Bool := isName n && !Token.keywords.contains n

/-- One or more identifiers with points between them. -/
def isDotted (n : String) : Bool := (Text.split '.' n).all isIdentifier

theorem isName_of_isIdentifier {n : String} (h : isIdentifier n) : isName n := by
  simp only [isIdentifier, Bool.and_eq_true] at h
  exact h.1


theorem Text.splitChars_ne_nil (separator : Char) (cs : List Char) : splitChars separator cs ≠ [] := by
  cases cs with
  | nil => simp [Text.splitChars]
  | cons c cs =>
    rw [Text.splitChars]
    split
    · simp
    · split <;> simp

theorem Text.intercalate_splitChars (separator : Char) (cs : List Char) :
    [separator].intercalate (Text.splitChars separator cs) = cs := by
  induction cs with
  | nil => rfl
  | cons c cs ih =>
    obtain ⟨part, more, parts⟩ := exists_cons_of_ne_nil (splitChars_ne_nil separator cs)
    rw [parts] at ih
    rw [Text.splitChars, parts]
    split
    · rename_i same
      rw [intercalate_cons_cons, ih, beq_iff_eq.mp same]
      rfl
    · cases more with
      | nil =>
        rw [intercalate_singleton] at ih ⊢
        rw [ih]
      | cons next more =>
        rw [intercalate_cons_cons] at ih ⊢
        rw [← ih]
        rfl

theorem dotted_parts {n : String} (h : isDotted n) : ∃ p ps, n = ".".intercalate (p :: ps) ∧ Layout.dotted n =
      Layout.nameWord p :: ps.flatMap (fun q => [Layout.sign ".", Layout.nameWord q]) ∧
    isIdentifier p ∧ ∀ q ∈ ps, isIdentifier q := by
  have whole : ".".intercalate (Text.split '.' n) = n := by
    rw [← String.toList_inj, String.toList_intercalate, Text.split, List.map_map]
    simpa [Function.comp_def] using Text.intercalate_splitChars '.' n.toList
  have some : Text.split '.' n ≠ [] := by
    simpa [Text.split] using Text.splitChars_ne_nil '.' n.toList
  have interspersed : ∀ p ps, ((p :: ps).map Layout.nameWord).intersperse (Layout.sign ".") =
      Layout.nameWord p :: ps.flatMap (fun q => [Layout.sign ".", Layout.nameWord q]) := by
    intro p ps
    induction ps generalizing p with
    | nil => rfl
    | cons q ps ih => rw [map_cons, map_cons, intersperse_cons_cons,
        ← map_cons, ih, flatMap_cons, cons_append, singleton_append]
  unfold isDotted at h
  rw [all_eq_true] at h
  unfold Layout.dotted
  obtain ⟨p, ps, parts⟩ := exists_cons_of_ne_nil some
  rw [parts] at whole h ⊢
  exact ⟨p, ps, whole.symm, interspersed p ps, h p (by simp), fun q mem => h q (.tail _ mem)⟩

abbrev Page := Tree (List Comment)

/-! ## Types -/

/-- Where a type stands. -/
inductive TypeSlot where
  | plain
  /-- Behind `new`, where dimensions do not belong to the type. -/
  | created
  /-- Between angle brackets, where wildcards may stand. -/
  | argument
  deriving DecidableEq

/-- The types of the grammar. -/
inductive IsType : TypeSlot → Page → Prop
  | primitive {slot : TypeSlot} {name : String} {dims : UInt8} : name ∈ Token.primitives →
      (slot = .created → dims = 0) → IsType slot (.node [] (.typeReference name [] false dims))
  | named {slot : TypeSlot} {name : String} {arguments : List Page} {dims : UInt8} :
      isDotted name = true → (∀ t ∈ arguments, IsType .argument t) →
      (slot = .created → dims = 0) →
      IsType slot (.node [] (.typeReference name arguments false dims))
  | diamond {name : String} : isDotted name = true →
      IsType .created (.node [] (.typeReference name [] true 0))
  | unbounded : IsType .argument (.node [] (.wildcardType none true))
  | bounded {bound : Page} {upper : Bool} : IsType .plain bound →
      IsType .argument (.node [] (.wildcardType (some bound) upper))

/-! ## Expressions -/

/-- Whether a payload can be assigned to. -/
def Kind.isTarget {α : Type} : Kind α → Bool
  | .name _ | .fieldAccess _ _ | .arrayAccess _ _ => true
  | _ => false

/-- Where an expression stands. -/
inductive ValueSlot where
  | operand
  /-- In front of a point, where `super` may stand. -/
  | target
  deriving DecidableEq

/-- The expressions of the grammar whose nodes satisfy `ok`, where the text around a node has a say
in how it is read. -/
inductive IsExpression (ok : Page → Prop) : ValueSlot → Page → Prop
  | literal {place : ValueSlot} {value : Literal} : ok (.node [] (.literal value)) →
      IsExpression ok place (.node [] (.literal value))
  | name {place : ValueSlot} {n : String} : isIdentifier n = true →
      IsExpression ok place (.node [] (.name n))
  | this {place : ValueSlot} : IsExpression ok place (.node [] .this)
  | super : IsExpression ok .target (.node [] .super)
  | access {place : ValueSlot} {target : Page} {n : String} : IsExpression ok .target target →
      isIdentifier n = true → ok (.node [] (.fieldAccess target n)) →
      IsExpression ok place (.node [] (.fieldAccess target n))
  | call {place : ValueSlot} {target : Page} {n : String} {arguments : List Page} :
      IsExpression ok .target target → isIdentifier n = true →
      (∀ t ∈ arguments, IsExpression ok .operand t) →
      ok (.node [] (.invocation (some target) n arguments)) →
      IsExpression ok place (.node [] (.invocation (some target) n arguments))
  | ownCall {place : ValueSlot} {n : String} {arguments : List Page} :
      isIdentifier n = true ∨ n = "this" ∨ n = "super" →
      (∀ t ∈ arguments, IsExpression ok .operand t) →
      IsExpression ok place (.node [] (.invocation none n arguments))
  | new {place : ValueSlot} {type : Page} {arguments : List Page} : IsType .created type →
      (∀ t ∈ arguments, IsExpression ok .operand t) →
      IsExpression ok place (.node [] (.new type arguments))
  | newArray {place : ValueSlot} {element : Page} {sizes : List Page} {extra : UInt8} :
      IsType .created element → sizes ≠ [] → (∀ t ∈ sizes, IsExpression ok .operand t) →
      IsExpression ok place (.node [] (.newArray element sizes extra))
  | index {place : ValueSlot} {target index : Page} : IsExpression ok .operand target →
      IsExpression ok .operand index → IsExpression ok place (.node [] (.arrayAccess target index))
  | binary {place : ValueSlot} {op : BinaryOperator} {left right : Page} : op ≠ .instanceOf →
      IsExpression ok .operand left → IsExpression ok .operand right →
      ok (.node [] (.binary op left right)) →
      IsExpression ok place (.node [] (.binary op left right))
  | typeTest {place : ValueSlot} {value type : Page} : IsExpression ok .operand value →
      IsType .plain type → ok (.node [] (.binary .instanceOf value type)) →
      IsExpression ok place (.node [] (.binary .instanceOf value type))
  | unary {place : ValueSlot} {op : UnaryOperator} {value : Page} : op.isUpdate = false →
      IsExpression ok .operand value → IsExpression ok place (.node [] (.unary op value))
  | update {place : ValueSlot} {op : UnaryOperator} {target : Page} : op.isUpdate = true →
      target.kind.isTarget = true → IsExpression ok .operand target →
      IsExpression ok place (.node [] (.unary op target))
  | assignment {place : ValueSlot} {op : Option BinaryOperator} {target value : Page} :
      (∀ o ∈ op, o.isCompound = true) → target.kind.isTarget = true →
      IsExpression ok .operand target → IsExpression ok .operand value →
      IsExpression ok place (.node [] (.assignment op target value))
  | conditional {place : ValueSlot} {condition thenValue elseValue : Page} :
      IsExpression ok .operand condition → IsExpression ok .operand thenValue →
      IsExpression ok .operand elseValue →
      IsExpression ok place (.node [] (.conditional condition thenValue elseValue))
  | cast {place : ValueSlot} {type value : Page} : IsType .plain type →
      IsExpression ok .operand value → IsExpression ok place (.node [] (.cast type value))

variable {ok : Page → Prop} {place : ValueSlot} {t : Page}

theorem IsExpression.variant_ne
    (h : IsExpression ok place t) : t.variant ≠ .typeReference ∧ t.variant ≠ .wildcardType := by
  cases h <;> exact ⟨nofun, nofun⟩

/-- Expressions end without angle brackets that others could run into. -/
theorem IsExpression.words_eq (h : IsExpression ok place t) : (Layout.phrase t).words = (Layout.phrase t).before := by
  have none : (Layout.phrase t).closing = 0 := by
    cases h <;> (rw [Layout.closing_node]; rfl)
  rw [Layout.Phrase.words, none]
  exact append_nil _

/-- Only `super` needs a point behind it. -/
theorem IsExpression.operand_or_super
    (h : IsExpression ok place t) : IsExpression ok .operand t ∨ t = .node [] .super := by
  cases h with
  | super => exact .inr rfl
  | literal h => exact .inl (.literal h)
  | name h => exact .inl (.name h)
  | this => exact .inl .this
  | access a b c => exact .inl (.access a b c)
  | call a b c d => exact .inl (.call a b c d)
  | ownCall a b => exact .inl (.ownCall a b)
  | new a b => exact .inl (.new a b)
  | newArray a b c => exact .inl (.newArray a b c)
  | index a b => exact .inl (.index a b)
  | binary a b c d => exact .inl (.binary a b c d)
  | typeTest a b c => exact .inl (.typeTest a b c)
  | unary a b => exact .inl (.unary a b)
  | update a b c => exact .inl (.update a b c)
  | assignment a b c d => exact .inl (.assignment a b c d)
  | conditional a b c => exact .inl (.conditional a b c)
  | cast a b => exact .inl (.cast a b)

theorem IsExpression.rightWords_eq (h : IsExpression ok place t) (op : BinaryOperator) :
    Layout.rightWords op (Layout.phrase t) = (Layout.phrase t).operand (op.precedence + 1) := by
  unfold Layout.rightWords
  rw [Layout.tree_phrase, if_neg]
  simpa using h.variant_ne

theorem IsType.variant_eq (h : IsType .plain t) : t.variant = .typeReference := by
  cases h <;> rfl

theorem IsType.argument (h : IsType .plain t) : IsType .argument t := by
  cases h with
  | primitive known _ => exact .primitive known nofun
  | named dotted arguments _ => exact .named dotted arguments nofun

/-! ## Nodes that can be read back -/

/-- Whether a point and these characters behind a node leave the node as it is: an integer would
take a fraction with it, and a point may not follow hexadecimal digits. -/
def Pointed (t : Page) (cs : List Char) : Prop :=
  match t.kind with
  | .literal (.int v) => ¬ v < 0 ∧ startsFraction cs = false
  | _ => True

/-- Whether a type is the name of a class, behind which `<` would open type arguments. -/
def isTypeName (t : Page) : Bool :=
  match t.kind with
  | .typeReference name [] false dims => dims == 0 && !Token.primitives.contains name
  | _ => false

/-- Whether an expression ends with the name of a class. -/
def endsWithTypeName (t : Page) : Bool :=
  match t.kind with
  | .binary .instanceOf _ type => isTypeName type
  | _ => false

/-- Nodes that are read back from their text: floating point literals have the value of their text,
no integer runs into the point behind it, and no type name into a `<`. -/
def Clear (t : Page) : Prop :=
  match t.kind with
  | .literal value => value.IsWritten
  | .fieldAccess target n | .invocation (some target) n _ => Pointed target n.toList
  | .binary .lt left _ => endsWithTypeName left = false
  | _ => True

end JavaEdit
