import JavaEdit.Proofs.Ownership.Basic

/-!
# Ownership in the grammar

Every rule keeps ownership, given that the goals it calls do. The loops for operators and suffixes
take over the left side they are called with. A declaration of several variables has one type in the
text: the first variable gets what was read and the others get copies, so that no node is in two
places. By induction on the steps every goal keeps ownership, so reading a text only lets the arena
grow, whether or not the text can be read.
-/

namespace JavaEdit.Parser

open Arena

/-! ## Children -/

variable {operator : BinaryOperator}

section Parts

variable {name : String} {ms : Modifiers} {x y z : NodeId} {o o' : Option NodeId} {xs ys zs us : List NodeId}

instance : Parts (.classDecl name ms xs ys o zs us) (xs ++ ys ++ o.toList ++ zs ++ us) := ⟨rfl⟩
instance : Parts (.interfaceDecl name ms xs ys zs us) (xs ++ ys ++ zs ++ us) := ⟨rfl⟩
instance : Parts (.method name ms xs ys x zs us o) (xs ++ ys ++ [x] ++ zs ++ us ++ o.toList) := ⟨rfl⟩
instance : Parts (.constructor name ms xs ys zs x) (xs ++ ys ++ zs ++ [x]) := ⟨rfl⟩
instance : Parts (.field name ms xs x o) (xs ++ [x] ++ o.toList) := ⟨rfl⟩
instance {varargs : Bool} : Parts (.parameter name ms xs x varargs) (xs ++ [x]) := ⟨rfl⟩
instance : Parts (.annotationUse name xs) xs := ⟨rfl⟩
instance : Parts (.typeParameter name xs) xs := ⟨rfl⟩
instance {diamond : Bool} {dims : UInt8} : Parts (.typeReference name xs diamond dims) xs := ⟨rfl⟩
instance {upper : Bool} : Parts (.wildcardType o upper) o.toList := ⟨rfl⟩
instance : Parts (.block xs) xs := ⟨rfl⟩
instance : Parts (.localVariable name ms x o) (x :: o.toList) := ⟨rfl⟩
instance : Parts (.expressionStatement x) [x] := ⟨rfl⟩
instance : Parts (.ifElse x y o) (x :: y :: o.toList) := ⟨rfl⟩
instance : Parts (.whileLoop x y) [x, y] := ⟨rfl⟩
instance : Parts (.doWhile x y) [x, y] := ⟨rfl⟩
instance : Parts (.forLoop xs o ys x) (xs ++ o.toList ++ ys ++ [x]) := ⟨rfl⟩
instance : Parts (.forEach x y z) [x, y, z] := ⟨rfl⟩
instance : Parts (.returnStmt o) o.toList := ⟨rfl⟩
instance : Parts (.throwStmt x) [x] := ⟨rfl⟩
instance {label : Option String} : Parts (.breakStmt label) [] := ⟨rfl⟩
instance {label : Option String} : Parts (.continueStmt label) [] := ⟨rfl⟩
instance : Parts (.tryStmt x xs o) (x :: xs ++ o.toList) := ⟨rfl⟩
instance : Parts (.catchClause name ms xs x) (xs ++ [x]) := ⟨rfl⟩
instance : Parts .empty [] := ⟨rfl⟩
instance {value : Literal} : Parts (.literal value) [] := ⟨rfl⟩
instance : Parts (.name name) [] := ⟨rfl⟩
instance : Parts (.fieldAccess x name) [x] := ⟨rfl⟩
instance : Parts (.invocation o name xs) (o.toList ++ xs) := ⟨rfl⟩
instance : Parts (.new x xs) (x :: xs) := ⟨rfl⟩
instance {extra : UInt8} : Parts (.newArray x xs extra) (x :: xs) := ⟨rfl⟩
instance : Parts (.arrayAccess x y) [x, y] := ⟨rfl⟩
instance : Parts (.binary operator x y) [x, y] := ⟨rfl⟩
instance {operator : UnaryOperator} : Parts (.unary operator x) [x] := ⟨rfl⟩
instance {operator : Option BinaryOperator} : Parts (.assignment operator x y) [x, y] := ⟨rfl⟩
instance : Parts (.conditional x y z) [x, y, z] := ⟨rfl⟩
instance : Parts (.cast x y) [x, y] := ⟨rfl⟩
instance : Parts .this [] := ⟨rfl⟩
instance : Parts .super [] := ⟨rfl⟩

end Parts

/-! ## Goals -/

/-- The nodes that a goal takes over. -/
@[reducible] def Goal.ids : Goal → List NodeId
  | .typeDeclaration _ _ _ annotations => annotations
  | _ => []

variable {L : Ledger}

/-- Rules whose goals use up what they take over. -/
class Serves (L : Ledger) (r : Rules) : Prop where
  parse : ∀ goal, Uses L (r.parse goal) goal.ids

/-- Local variables behind the first one, each with a copy of the declared type, use up their initializers. -/
class CopiesLocals (L : Ledger) : Prop where
  later : ∀ start ms declared cs names, Uses L (makeLocals start ms declared cs false names) (initializers names)

/-- Copies are as good as nodes that were read. -/
class Copies (L : Ledger) : Prop where
  copy {base a : Arena} {held : List NodeId} (id : NodeId) : L.good base held a →
    L.good base ((a.copy id).1 :: held) (a.copy id).2

/-- Declarations of types use up their annotations. -/
class DeclaresTypes (L : Ledger) (r : Rules) : Prop where
  asClass : ∀ start cs ms annotations, Uses L (classDeclaration r start cs ms annotations) annotations
  asInterface : ∀ start cs ms annotations, Uses L (interfaceDeclaration r start cs ms annotations) annotations

set_option synthInstance.maxSize 3000

variable {r : Rules} [h : Serves L r] {steps : Nat} {start : Token} {cs : List Comment} {ms : Modifiers}
  {name : String} {target declared : NodeId} {annotations typeParams : List NodeId} {names : List (String × Option NodeId)}

instance {goal : Goal} : Uses L (r.parse goal) goal.ids := h.parse goal
instance : Uses L (type r) [] := h.parse .type
instance : Uses L (expression r) [] := h.parse .expression

/-! ## Types -/

instance : Uses L (typeList r) [] := inferInstanceAs (Uses L (separated "," (type r) r.steps) [])

instance : Uses L (typeArgument r) [] := ⟨by unfold typeArgument; infer_instance⟩

instance {allowDiamond : Bool} : Uses L (typeArguments r allowDiamond) [] := ⟨by unfold typeArguments; infer_instance⟩

instance {allowDiamond withDimensions : Bool} : Uses L (typeReference r allowDiamond withDimensions) [] :=
  ⟨by unfold typeReference; infer_instance⟩

instance : Uses L (typeParameter r) [] := ⟨by unfold typeParameter; infer_instance⟩
instance : Uses L (typeParameters r) [] := ⟨by unfold typeParameters; infer_instance⟩

/-! ## Expressions -/

instance : Uses L (assignment r) [] := by
  unfold assignment
  refine ⟨.seq fun _ => .step fun _ => .seq fun _ => ?_⟩
  split <;> infer_instance

instance : Uses L (conditional r) [] := ⟨by unfold conditional; infer_instance⟩

instance : Uses L (rightOperand r operator) [] := ⟨by unfold rightOperand; infer_instance⟩

instance {least : Nat} : Uses L (operators r start least steps target) [target] := by
  induction steps generalizing target with
  | zero => exact .outOfSteps
  | succ steps ih =>
    rw [operators]
    refine ⟨.seq fun _ => ?_⟩
    split <;> infer_instance

instance {least : Nat} : Uses L (operation r least) [] := ⟨by unfold operation; infer_instance⟩
instance : Uses L (arguments r) [] := ⟨by unfold arguments; infer_instance⟩
instance : Uses L (parenthesized r) [] := ⟨by unfold parenthesized; infer_instance⟩

instance {extra : UInt8} : Uses L (sizes r steps extra) [] := by
  induction steps generalizing extra with
  | zero => exact .outOfSteps
  | succ steps ih => rw [sizes]; exact ⟨inferInstance⟩

instance : Uses L (creation r) [] := ⟨by unfold creation; infer_instance⟩
instance : Uses L (nameOrCall r) [] := ⟨by unfold nameOrCall; infer_instance⟩
instance : Uses L (selfReference r) [] := ⟨by unfold selfReference; infer_instance⟩

instance {token : Token} : Uses L (keywordExpression r token) [] := ⟨by unfold keywordExpression; infer_instance⟩

instance : Uses L (primary r) [] := by
  unfold primary
  refine ⟨.seq fun _ => ?_⟩
  split
  · infer_instance
  · infer_instance
  · split <;> infer_instance

instance : Uses L (memberAccess r start target) [target] := ⟨by unfold memberAccess; infer_instance⟩

instance : Uses L (suffixes r start steps target) [target] := by
  induction steps generalizing target with
  | zero => exact .outOfSteps
  | succ steps ih => rw [suffixes]; exact ⟨inferInstance⟩

instance : Uses L (cast r) [] := ⟨by unfold cast; infer_instance⟩

instance {operator : UnaryOperator} : Uses L (leadingOperator r operator) [] := by
  unfold leadingOperator
  refine ⟨.seq fun _ => .seq fun _ => ?_⟩
  split <;> infer_instance

instance : Uses L (unary r) [] := by
  unfold unary
  refine ⟨.seq fun _ => ?_⟩
  split <;> infer_instance

/-! ## Statements -/

/-- Annotations found so far come back with those that follow. -/
instance : Uses L (modifiersFrom r steps ms annotations) annotations := by
  induction steps generalizing ms annotations with
  | zero => exact .outOfSteps
  | succ steps ih =>
    rw [modifiersFrom]
    refine ⟨.seq fun _ => ?_⟩
    split
    · infer_instance
    · split <;> infer_instance

instance : Uses L (modifiers r) [] := inferInstanceAs (Uses L (modifiersFrom r r.steps [] []) [])

instance : Uses L (elementValue r) [] := ⟨by unfold elementValue; infer_instance⟩
instance : Uses L (annotationArgument r) [] := ⟨by unfold annotationArgument; infer_instance⟩
instance : Uses L (annotationUse r) [] := ⟨by unfold annotationUse; infer_instance⟩

instance : Uses L (declarators r steps name) [] := by
  induction steps generalizing name with
  | zero => exact .outOfSteps
  | succ steps ih => rw [declarators]; exact ⟨inferInstance⟩

section Locals

variable [h' : CopiesLocals L]

instance : Uses L (makeLocals start ms declared cs false names) (initializers names) := h'.later ..

instance : Uses L (makeLocals start ms declared cs true names) ([declared] ++ initializers names) := by
  cases names with
  | nil => exact .done
  | cons declarator names =>
    obtain ⟨name, i⟩ := declarator
    rw [makeLocals, initializers_cons]
    simp only [if_true, pure_bind]
    exact ⟨inferInstance⟩

instance : Uses L (localVariables r start cs) [] := ⟨by unfold localVariables; infer_instance⟩
instance : Uses L (blockStatement r) [] := ⟨by unfold blockStatement; infer_instance⟩

instance : Uses L (blockStatements r steps) [] := by
  induction steps with
  | zero => exact .outOfSteps
  | succ steps ih => rw [blockStatements]; exact ⟨inferInstance⟩

instance : Uses L (block r) [] := ⟨by unfold block; infer_instance⟩
instance : Uses L (forEach r) [] := ⟨by unfold forEach; infer_instance⟩
instance : Uses L (expressionItem r) [] := ⟨by unfold expressionItem; infer_instance⟩
instance : Uses L (forInit r) [] := ⟨by unfold forInit; infer_instance⟩

instance : Uses L (forStatement r) [] := by
  unfold forStatement
  refine ⟨.seq fun _ => .seq fun _ => ?_⟩
  split
  · infer_instance
  · exact .step fun _ => .seq fun _ => .seq fun _ => inferInstance

instance : Uses L (catchClause r) [] := ⟨by unfold catchClause; infer_instance⟩

instance : Uses L (catchClauses r steps) [] := by
  induction steps with
  | zero => exact .outOfSteps
  | succ steps ih => rw [catchClauses]; exact ⟨inferInstance⟩

instance : Uses L (tryStatement r) [] := ⟨by unfold tryStatement; infer_instance⟩
instance : Uses L (expressionStatement r start) [] := ⟨by unfold expressionStatement; infer_instance⟩

instance : Uses L (statementKind r start) [] := by
  unfold statementKind
  refine ⟨.eaten inferInstance (.eaten inferInstance (.eaten inferInstance (.eaten inferInstance ?_)))⟩
  refine .eaten inferInstance (.eaten inferInstance (.eaten inferInstance (.eaten inferInstance ?_)))
  infer_instance

instance : Uses L (statement r) [] := ⟨by unfold statement; infer_instance⟩

end Locals

/-! ## Declarations -/

instance : Uses L (parameter r) [] := ⟨by unfold parameter; infer_instance⟩
instance : Uses L (parameters r) [] := ⟨by unfold parameters; infer_instance⟩
instance : Uses L (throwsClause r) [] := ⟨by unfold throwsClause; infer_instance⟩

instance : Uses L (constructor r start cs ms annotations typeParams) (annotations ++ typeParams) := by
  unfold constructor
  have : Quiet (get : Parser ParserState) := ⟨fun s => by simp⟩
  exact ⟨inferInstance⟩

instance : Uses L (method r start cs ms annotations typeParams declared name) (annotations ++ (typeParams ++ [declared])) :=
  ⟨by unfold method; infer_instance⟩

section Copies

variable [copies : Copies L]

instance (id : NodeId) : Uses L (copy id) [] := ⟨⟨fun _ _ _ good => ends_copy.mpr (copies.copy id good)⟩⟩

instance : CopiesLocals L where
  later start ms declared cs names := by
    induction names generalizing cs with
    | nil => exact .done
    | cons declarator names ih =>
      obtain ⟨name, i⟩ := declarator
      rw [makeLocals, initializers_cons]
      simp only [Bool.false_eq_true, if_false]
      exact ⟨inferInstance⟩

instance {ids : List NodeId} : Uses L (ids.mapM copy) [] := by
  induction ids with
  | nil => exact .done
  | cons id ids ih =>
    rw [List.mapM_cons]
    exact ⟨inferInstance⟩

/-- Behind the first field, each has a type and annotations of its own. -/
instance : Uses L (makeFields start ms declared annotations cs false names) (initializers names) := by
  induction names generalizing cs with
  | nil => exact .done
  | cons declarator names ih =>
    obtain ⟨name, i⟩ := declarator
    rw [makeFields, initializers_cons]
    simp only [Bool.false_eq_true, if_false]
    exact ⟨inferInstance⟩

instance : Uses L (makeFields start ms declared annotations cs true names)
    (annotations ++ ([declared] ++ initializers names)) := by
  cases names with
  | nil => exact .done
  | cons declarator names =>
    obtain ⟨name, i⟩ := declarator
    rw [makeFields, initializers_cons]
    simp only [if_true, pure_bind]
    exact ⟨inferInstance⟩

instance : Uses L (member r) [] := ⟨by unfold member; infer_instance⟩

instance : Uses L (members r steps) [] := by
  induction steps with
  | zero => exact .outOfSteps
  | succ steps ih => rw [members]; exact ⟨inferInstance⟩

instance : Uses L (typeBody r name) [] := by
  unfold typeBody
  have : ∀ f : List String → List String, Quiet (modify fun s => { s with typeNames := f s.typeNames }) :=
    fun f => ⟨fun s => by simp⟩
  exact ⟨inferInstance⟩

instance : DeclaresTypes L r where
  asClass start cs ms annotations := ⟨by unfold classDeclaration; infer_instance⟩
  asInterface start cs ms annotations := ⟨by unfold interfaceDeclaration; infer_instance⟩

end Copies

section Grammar

variable [CopiesLocals L] [types : DeclaresTypes L r]

instance : Uses L (typeDeclaration r start cs ms annotations) annotations := by
  have asClass := types.asClass start cs ms annotations
  have asInterface := types.asInterface start cs ms annotations
  unfold typeDeclaration
  exact ⟨inferInstance⟩

instance : Uses L (topLevelTypes r steps) [] := by
  induction steps with
  | zero => exact .outOfSteps
  | succ steps ih => rw [topLevelTypes]; exact ⟨inferInstance⟩

instance : Uses L (compilationUnit r) [] := by
  -- the node of the unit is made in place
  have made : ∀ package imports types stop cs, Uses L (do
      let s ← get
      let (id, arena) := s.arena.alloc (.compilationUnit package imports types) (.real s.file .start stop) cs
      set { s with arena }
      return id : Parser NodeId) types := fun package imports types stop cs =>
    ⟨⟨fun base held s good => L.alloc (k := .compilationUnit package imports types) good ..⟩⟩
  unfold compilationUnit
  exact ⟨inferInstance⟩

instance {goal : Goal} : Uses L (rule r goal) goal.ids := by
  cases goal <;> (rw [rule]; exact ⟨inferInstance⟩)

end Grammar

omit h in
theorem serves_grammar [CopiesLocals L] (types : ∀ r, Serves L r → DeclaresTypes L r) (steps : Nat) :
    Serves L ⟨steps, grammar steps⟩ := by
  induction steps with
  | zero => exact ⟨fun goal => .outOfSteps⟩
  | succ steps ih =>
    have := types _ ih
    exact ⟨fun goal => inferInstanceAs (Uses L (rule _ goal) _)⟩

/-! ## Ownership -/

/-- The nodes at hand are detached and different, and everything else that was made hangs below them. -/
def ownership : Ledger where
  good := Owns
  bad := Grown
  failed owns := owns.grown
  sub owns := owns.sub
  alloc owns _ _ _ cs := owns.alloc _ cs
  addComment c owns := owns.addComment c

instance : Copies ownership := ⟨fun id owns => owns_copy owns id⟩

instance owning_grammar (steps : Nat) : Serves ownership ⟨steps, grammar steps⟩ :=
  serves_grammar (fun _ _ => inferInstance) steps

section Texts

variable {entry : Rules → Parser NodeId} (owns : ∀ r, Serves ownership r → Uses ownership (entry r) []) {a b : Arena}
  {file text : String}
include owns

omit h in
theorem owns_readWith {id : NodeId} (read : readWith entry a file text = (.ok id, b)) : Owns a [id] b := by
  obtain ⟨ts, s, -, rfl, run⟩ := run_of_readWith read
  exact ((owns _ (owning_grammar (stepsFor ts))).uses.keeps a [] ⟨file, ts, 0, 0, [], a⟩ (.start a)).of_ok run

omit h in
/-- Whatever is read, and whether or not it can be read, the arena only grows. -/
theorem grown_readWith : Grown a (readWith entry a file text).2 := by
  unfold readWith
  split
  · exact .refl
  · rename_i tokens _
    have run := (owns _ (owning_grammar (stepsFor tokens))).uses.keeps a [] ⟨file, tokens, 0, 0, [], a⟩ (.start a)
    exact (run.mono (fun _ _ owns => owns.grown) fun _ _ grown => grown).state

end Texts

end JavaEdit.Parser

namespace JavaEdit.Arena

theorem grown_readUnit (a : Arena) (file text : String) : Grown a (a.readUnit file text).2 :=
  Parser.grown_readWith fun _ _ => inferInstance

theorem owns_readUnit {a b : Arena} {file text : String} {id : NodeId}
    (read : a.readUnit file text = (.ok id, b)) : Owns a [id] b :=
  Parser.owns_readWith (fun _ _ => inferInstance) read

theorem grown_readExpression (a : Arena) (text : String) : Grown a (a.readExpression text).2 :=
  Parser.grown_readWith fun _ _ => ⟨inferInstance⟩

theorem grown_readBlock (a : Arena) (text : String) : Grown a (a.readBlock text).2 :=
  Parser.grown_readWith fun _ _ => ⟨inferInstance⟩

end JavaEdit.Arena
