import JavaEdit.Proofs.Accepted.Declarations
import JavaEdit.Proofs.Scanning.Agreement

/-!
# Declarations are told from expressions

A statement of a block is a declaration if a type, a name and one of the signs that may follow a name
are ahead. The type is only scanned for that, but the scan agrees with the rule for types, so no
declaration is taken for an expression (`type_scanned_as_read`).
-/

namespace JavaEdit.Parser

variable {t : Token} {ts : List Token} {s s' : ParserState} {r : Rules} {n : Nat}
variable {bad : ParseError → ParserState → Prop} {init : Option NodeId}

/-! ## Where a type starts -/

theorem startsType.noModifier (h : startsType t) :
    (if t.kind == .keyword then Modifier.ofKeyword? t.text else none) = none := by
  split
  · rename_i keyword
    exact ofKeyword?_of_startsType h (beq_iff_eq.mp keyword)
  · rfl

theorem ends_modifiers (h : startsType s.token) (steps : r.steps = n + 1)
    {good : Modifiers × List NodeId → ParserState → Prop} : Ends (modifiers r) s good bad ↔ good ([], []) s := by
  unfold modifiers
  rw [steps, modifiersFrom, ends_bind, ends_look, h.is_eq_false (by decide), if_neg (by decide), h.noModifier]
  exact Iff.rfl

/-! ## Reading a declaration -/

/-- The rule for a declaration in a block. -/
def localDeclaration (r : Rules) : Parser (List NodeId) := do
  let comments ← takeComments
  let start ← peek
  let locals ← localVariables r start comments
  expect ";"
  return locals

theorem ends_blockStatement (h : startsType s.token) (ahead : declarationAhead s.rest)
    {good : List NodeId → ParserState → Prop} :
    Ends (blockStatement r) s good bad ↔ Ends (localDeclaration r) s good bad := by
  have reserved : ∀ w ∈ ["class", "interface", "enum", "abstract", "static"], w ∉ Token.primitives := by decide
  have none : ["class", "interface", "enum", "abstract", "static"].any s.token.is = false := by
    rw [List.any_eq_false]
    intro w mem
    rw [h.is_eq_false (reserved w mem)]
    decide
  unfold blockStatement
  rw [ends_bind, ends_look, ends_bind, ends_look, ends_bind, ends_look, none, h.is_eq_false (by decide),
    Bool.false_and, Bool.false_or, if_neg (by decide), ends_bind, ends_look, if_pos ahead]
  exact Iff.rfl

/-- Behind a name there is an initializer or none, and then the end of the declaration. -/
inductive Initialized (r : Rules) (s : ParserState) : Option NodeId → ParserState → Prop
  | none : s.token.is ";" = true → Initialized r s none s
  | some {value : NodeId} {s' : ParserState} : s.token.is "=" = true → s.advanced.token.is "\x7b" = false →
      (expression r).run.run s.advanced = (.ok value, s') → s'.token.is ";" = true →
      Initialized r s (some value) s'

theorem Initialized.ended (h : Initialized r s init s') : s'.token.is ";" := by
  cases h <;> assumption

theorem ends_of_run {α : Type} {p : Parser α} {x : α} (run : p.run.run s = (.ok x, s'))
    {good : α → ParserState → Prop} : Ends p s good bad ↔ good x s' := by
  unfold Ends
  rw [run]

theorem ends_declarators (h : Initialized r s init s') (steps : Nat) (name : String)
    {good : List (String × Option NodeId) → ParserState → Prop} :
    Ends (declarators r (steps + 1) name) s good bad ↔ good [(name, init)] s' := by
  rw [declarators, ends_bind, ends_look]
  cases h with
  | none ended =>
    have other : ∀ w, ";" ≠ w → s.token.is w = false := fun _ => Token.is_eq_false ended
    simp only [other "[" (by decide), other "=" (by decide), other "," (by decide), ends_bind, ends_eat, ends_pure,
      Bool.false_eq_true, if_false]
  | some equals opening read ended =>
    have next : ∀ w, ";" ≠ w → s'.token.is w = false := fun _ => Token.is_eq_false ended
    simp only [Token.is_eq_false equals (by decide : "=" ≠ "["), equals, opening, next "," (by decide), ends_bind, ends_eat,
      ends_look, ends_map, ends_of_run read, ends_pure, Bool.false_eq_true, if_false, if_true]

theorem ends_localVariables {declared : NodeId} {s1 : ParserState} (h : startsType s.token)
    (steps : r.steps = n + 1) (read : (type r).run.run s = (.ok declared, s1)) (name : s1.token.kind = .identifier)
    (initialized : Initialized r s1.advanced init s') (start : Token) (cs : List Comment) : Ends (do
      let locals ← localVariables r start cs
      expect ";"
      return locals) s (fun ids t => ∃ id, ids = [id] ∧
        t.arena.kind id = .localVariable s1.token.text [] declared init) fun _ _ => False := by
  unfold localVariables
  rw [ends_bind, ends_bind, ends_modifiers h steps]
  dsimp only
  rw [if_neg (by decide), if_neg (by decide), ends_bind, ends_of_run read, ends_bind, ends_identifier, name,
    if_pos (by rfl), ends_bind, steps, ends_declarators initialized]
  simp only [makeLocals, if_true, pure_bind, ends_bind, ends_makeCommented, ends_expect, ends_pure]
  split
  · refine ⟨_, rfl, ?_⟩
    rw [ParserState.arena_advanced, Arena.kind_alloc, if_pos rfl]
  · rename_i other
    exact other initialized.ended

/-! ## No expression starts with a brace -/

section Brace

variable (kind : s.token.kind = .operator) (text : s.token.text = "\x7b")
include kind text

theorem ends_unary_brace (r : Rules) : Ends (unary r) s (fun _ _ => False) fun _ _ => True := by
  have noLeading : (if s.token.kind == .operator then UnaryOperator.ofLeading? s.token.text else none) = none := by
    rw [kind, text]
    rfl
  have noLiteral : literalValue? s.token = none := by
    unfold literalValue?
    rw [kind]
  have other : s.token.is "(" = false := by
    unfold Token.is
    rw [kind, text]
    rfl
  unfold unary
  rw [ends_bind, ends_look, noLeading]
  rw [ends_bind, ends_look, other, ends_bind, ends_look, Bool.false_and, if_neg (by decide), ends_bind]
  unfold primary
  rw [ends_bind, ends_look, noLiteral]
  dsimp only
  rw [kind, text]
  trivial

theorem ends_operand_brace (steps : Nat) (goal : Goal)
    (isValue : goal = .unary ∨ (∃ least, goal = .operation least) ∨ goal = .conditional ∨ goal = .expression) :
    Ends (grammar steps goal) s (fun _ _ => False) fun _ _ => True := by
  induction steps generalizing goal with
  | zero => trivial
  | succ steps ih =>
    rcases isValue with rfl | ⟨least, rfl⟩ | rfl | rfl
    · show Ends (nested (unary _)) s _ _
      rw [ends_nested]
      split
      · trivial
      · exact @ends_unary_brace { s with depth := s.depth + 1 } kind text _
    · show Ends (operation _ least) s _ _
      unfold operation
      rw [ends_bind, ends_look]
      exact (ih .unary (.inl rfl)).bind nofun
    · show Ends (conditional _) s _ _
      unfold conditional
      rw [ends_bind, ends_look]
      exact (ih (.operation _) (.inr (.inl ⟨_, rfl⟩))).bind nofun
    · show Ends (assignment _) s _ _
      unfold assignment
      rw [ends_bind, ends_look]
      exact (ih .conditional (.inr (.inr (.inl rfl)))).bind nofun

end Brace

/-! ## Declarations -/

theorem alike_uncommented (s : ParserState) : s.Alike s.uncommented := by
  unfold ParserState.uncommented
  split
  · rename_i t ts rest
    refine ⟨?_, rfl, rfl, .refl _⟩
    rw [rest]
    rfl
  · exact ⟨rfl, rfl, rfl, .refl _⟩

theorem run_blockStatement {declared : NodeId} {s1 : ParserState} (h : startsType s.token)
    (ahead : declarationAhead s.rest) (read : (type ⟨n + 1, grammar (n + 1)⟩).run.run s = (.ok declared, s1))
    (name : s1.token.kind = .identifier) (initialized : Initialized ⟨n + 1, grammar (n + 1)⟩ s1.advanced init s') :
    ∃ id t, (blockStatement ⟨n + 1, grammar (n + 1)⟩).run.run s = (.ok [id], t) ∧
      t.arena.kind id = .localVariable s1.token.text [] declared init := by
  have sees := seesWords_grammar (n + 1)
  have agrees : ∀ start start' cs cs', Agrees
      (do let locals ← localVariables ⟨n + 1, grammar (n + 1)⟩ start cs; expect ";"; return locals)
      (do let locals ← localVariables ⟨n + 1, grammar (n + 1)⟩ start' cs'; expect ";"; return locals) :=
    fun _ _ _ _ => inferInstance
  have direct := ends_localVariables h rfl read name initialized s.token []
  obtain ⟨ids, t, run, id, rfl, kind⟩ := direct.exists_ok fun _ _ => False.elim
  have alike := ((agrees s.token s.uncommented.token [] ((s.rest.head?.map Token.comments).getD [])).agrees _ _
    (alike_uncommented s)).of_ok run
  have whole : Ends (blockStatement ⟨n + 1, grammar (n + 1)⟩) s (fun ids t => ids = [id] ∧
      t.arena.kind id = .localVariable s1.token.text [] declared init) fun _ _ => False := by
    rw [ends_blockStatement h ahead]
    unfold localDeclaration
    rw [ends_bind, ends_takeComments, ends_bind, ends_look]
    refine alike.imp fun x t' ⟨same, alike⟩ => ⟨same, ?_⟩
    rw [alike.arena.kind, kind]
  obtain ⟨ids, t', run', rfl, kind'⟩ := whole.exists_ok fun _ _ => False.elim
  exact ⟨id, t', run', kind'⟩

theorem variants_of_declaration (h : startsType s.token) (ahead : declarationAhead s.rest)
    (genuine : s.Genuine) {ids : List NodeId} {t : ParserState}
    (run : (blockStatement ⟨n, grammar n⟩).run.run s = (.ok ids, t)) :
    ids ≠ [] ∧ ∀ id ∈ ids, (t.arena.kind id).variant = .localVariable := by
  have accepts : Accepts (localDeclaration ⟨n, grammar n⟩) s fun ids s' =>
      ids ≠ [] ∧ s'.arena.TreesAt (fun t => ∃ ms type, IsVariable Made ms type t) ids := by
    refine accepts_takeComments fun cs written => ?_
    rw [accepts_look]
    refine (accepts_localVariables (sound_grammar n n) _ written).bind
      fun ids s1 _ ⟨several, ms, type, _, _, locals⟩ => accepts_expect (accepts_pure ⟨several, ?_⟩)
    exact (locals.extends (kept_advanced s1).grown).mono fun t fits => ⟨ms, type, fits.1⟩
  obtain ⟨-, -, several, trees⟩ := ((ends_blockStatement h ahead).mpr (accepts genuine)).of_ok run
  refine ⟨several, fun id mem => ?_⟩
  obtain ⟨rooted, ms, type, isVariable⟩ := trees id mem
  rw [rooted.commented_eq] at isVariable
  cases kind : t.arena.kind id <;> rw [kind] at isVariable <;> cases isVariable
  rfl

/-- Where a type that was scanned is followed by a name and one of two signs, a declaration is ahead. -/
theorem declarationAhead_of_scanType {k : Nat} (scanned : scanType s.rest = some k) (stops : s'.rest = s.rest.drop k)
    (ends : Sealed s'.rest) (name : s'.token.kind = .identifier)
    (sign : s'.advanced.token.is ";" = true ∨ s'.advanced.token.is "=") : declarationAhead s.rest := by
  obtain ⟨ts, rest, -, later, behind⟩ := ends.next (by rw [name]; nofun)
  obtain ⟨u, more, rfl⟩ := later.exists_cons
  have first : tokenAt s.rest k = s'.token := tokenAt_of_drop (stops.symm.trans rest)
  have tail : s.rest.drop (k + 1) = u :: more := by
    rw [← List.drop_drop, ← stops, rest]
    rfl
  have second : tokenAt s.rest (k + 1) = s'.advanced.token := by
    rw [ParserState.token, behind, tokenAt_of_drop tail]
    rfl
  unfold declarationAhead
  rw [scanned]
  dsimp only
  rw [first, second, name]
  rcases sign with is | is <;> simp [is]

/-- If a type is read and ends in front of a token, the scan for types counts the tokens up to that one. So
with a type, a name and a semicolon a statement of a block is the declaration of a variable; with a type,
a name and an equality sign it declares variables or it fails, and it declares one if an expression and a
semicolon follow. -/
theorem type_scanned_as_read {file text : String} {tokens : List Token} (lexed : tokenize file text = .ok tokens)
    {i j : Nat} (inside : i < tokens.length) (here : s.rest = tokens.drop i) {declared : NodeId}
    (read : (type ⟨n, grammar n⟩).run.run s = (.ok declared, s')) (stops : s'.rest = tokens.drop j) :
    (∃ k, j = i + k ∧ scanType (tokens.drop i) = some k) ∧
    (s'.token.kind = .identifier →
      (s'.advanced.token.is ";" = true ∨ s'.advanced.token.is "=" = true → ∀ ids t,
        (blockStatement ⟨n, grammar n⟩).run.run s = (.ok ids, t) →
          ids ≠ [] ∧ ∀ id ∈ ids, (t.arena.kind id).variant = .localVariable) ∧
      (s'.advanced.token.is ";" = true → ∃ id t, (blockStatement ⟨n, grammar n⟩).run.run s = (.ok [id], t) ∧
        t.arena.kind id = .localVariable s'.token.text [] declared none) ∧
      (s'.advanced.token.is "=" = true → ∀ value s'',
        (expression ⟨n, grammar n⟩).run.run s'.advanced.advanced = (.ok value, s'') → s''.token.is ";" = true →
        ∃ id t, (blockStatement ⟨n, grammar n⟩).run.run s = (.ok [id], t) ∧
          t.arena.kind id = .localVariable s'.token.text [] declared (some value))) := by
  have ends : Sealed s.rest := by
    rw [here]
    exact (sealed_of_tokenize lexed).drop inside
  obtain ⟨k, crosses, scan⟩ := (scanned_type n s ends).of_ok read
  obtain ⟨t, t', r, left, right, -⟩ := crosses.behind
  have count : j = i + k := by
    have lengths := congrArg List.length left
    have lengths' := congrArg List.length (stops.symm.trans right)
    rw [here, List.drop_drop, List.length_drop, List.length_cons] at lengths
    rw [List.length_drop, List.length_cons] at lengths'
    omega
  have stops' : s'.rest = s.rest.drop k := by rw [stops, here, List.drop_drop, count]
  have scanned := scan stops'
  have start : startsType s.token := startsType_of_scanType scanned
  have genuine : s.Genuine := fun t member => by
    rw [here] at member
    exact genuine_of_tokenize lexed t (List.mem_of_mem_drop member)
  obtain ⟨m, rfl⟩ : ∃ m, n = m + 1 := by
    cases n with
    | zero => cases read
    | succ m => exact ⟨m, rfl⟩
  refine ⟨⟨k, count, by rw [← here]; exact scanned⟩, fun name => ?_⟩
  have ahead := declarationAhead_of_scanType scanned stops' crosses.sealed name
  refine ⟨fun sign ids t run => variants_of_declaration start (ahead sign) genuine run, fun semicolon => ?_,
    fun equals value s'' value' semicolon => ?_⟩
  · exact run_blockStatement start (ahead (.inl semicolon)) read name (.none semicolon)
  · refine run_blockStatement start (ahead (.inr equals)) read name (.some equals ?_ value' semicolon)
    rw [Bool.eq_false_iff]
    intro brace
    obtain ⟨ts, rest, -, later, behind⟩ := crosses.sealed.next (by rw [name]; nofun)
    rw [← behind] at later
    obtain ⟨ts', rest', -, later', behind'⟩ := later.next (Token.kind_ne_eof_of_is equals)
    rw [← behind'] at later'
    obtain ⟨-, -, known, -, -⟩ := later'.next (Token.kind_ne_eof_of_is brace)
    obtain ⟨kind, text⟩ := operator_of_is known brace (by decide)
    exact (ends_operand_brace kind text (m + 1) .expression (.inr (.inr (.inr rfl)))).of_ok value'

/-- A declaration whose type ends two lists of arguments at once. -/
def mapDeclaration : String := "Map<A.B, ? super List<int[]>>[] m = a < b;"

def beforeMap : ParserState := ⟨"", (tokenize "" mapDeclaration).toOption.getD [], 0, 0, [], .empty⟩

def behindType : ParserState := ((type ⟨12, grammar 12⟩).run.run beforeMap).2

theorem type_scanned_as_read_map :
    scanType beforeMap.rest = some 16 ∧ ∃ id t, (blockStatement ⟨12, grammar 12⟩).run.run beforeMap = (.ok [id], t) ∧
      t.arena.kind id = .localVariable "m" [] 4 (some 7) := by
  have lexed : tokenize "" mapDeclaration = .ok beforeMap.rest := by
    have known : (tokenize "" mapDeclaration).toOption.isSome = true := by decide +kernel
    unfold beforeMap
    dsimp only
    cases tokens : tokenize "" mapDeclaration with
    | ok ts => rfl
    | error e =>
      rw [tokens] at known
      cases known
  have read : (type ⟨12, grammar 12⟩).run.run beforeMap = (.ok 4, behindType) :=
    run_eq_of_toOption (by decide +kernel)
  have stops : behindType.rest = beforeMap.rest.drop 16 := by decide +kernel
  have equals : behindType.advanced.token.is "=" = true := by decide +kernel
  have value : (expression ⟨12, grammar 12⟩).run.run behindType.advanced.advanced =
      (.ok 7, ((expression ⟨12, grammar 12⟩).run.run behindType.advanced.advanced).2) :=
    run_eq_of_toOption (by decide +kernel)
  have inside : 0 < beforeMap.rest.length := by decide +kernel
  obtain ⟨⟨k, count, scanned⟩, statements⟩ := type_scanned_as_read lexed inside rfl read stops
  obtain rfl : 16 = k := by omega
  have name : behindType.token.kind = .identifier ∧ behindType.token.text = "m" := by decide +kernel
  have declared := (statements name.1).2.2 equals _ _ value (by decide +kernel)
  rw [name.2] at declared
  exact ⟨scanned, declared⟩

end JavaEdit.Parser
