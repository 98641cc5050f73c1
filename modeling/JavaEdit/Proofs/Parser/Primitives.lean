import JavaEdit.Parser.Grammar
import JavaEdit.Proofs.Outcome

/-!
# Where the primitive parsers end

One equation for each parser that looks at tokens, reads one or makes a node: it says where the
run ends in terms of the state before. A parser that only looks leaves the state, one that reads
leaves `ParserState.advanced`.
-/

namespace JavaEdit

namespace ParserState

def token (s : ParserState) : Token := Parser.tokenAt s.rest 0

/-- The state behind the next token. -/
def advanced (s : ParserState) : ParserState :=
  { s with
    rest := match s.rest with
      | _ :: t :: ts => t :: ts
      | ts => ts
    lastStop := match s.rest with
      | token :: _ :: _ => token.stop
      | _ => s.lastStop }

@[simp] theorem arena_advanced (s : ParserState) : s.advanced.arena = s.arena := rfl

/-- The token behind the next one comes next. -/
theorem token_advanced (s : ParserState) : s.advanced.token = Parser.tokenAt s.rest 1 := by
  unfold advanced token Parser.tokenAt
  match s.rest with
  | [] | [t] | t :: t' :: ts => simp

/-- The error that a cause gives at the next token. -/
def errorAt (s : ParserState) (cause : Cause) : ParseError := ⟨s.file, s.token.start, cause⟩

/-- The state without the comments in front of the next token. -/
def uncommented (s : ParserState) : ParserState :=
  match s.rest with
  | token :: ts => { s with rest := { token with comments := [] } :: ts }
  | [] => s

@[simp] theorem arena_uncommented (s : ParserState) : s.uncommented.arena = s.arena := by
  unfold uncommented
  split <;> rfl

/-- The state with a longer operator that starts with `>` split behind its first character. -/
def split (s : ParserState) : ParserState :=
  match s.rest with
  | token :: ts =>
    if token.kind == .operator && 1 < token.text.length && token.text.toList.head? == some '>' then
      { s with rest := (Parser.splitAngle token).1 :: (Parser.splitAngle token).2 :: ts }
    else s
  | [] => s

theorem split_cons {s : ParserState} {token : Token} {ts : List Token} (rest : s.rest = token :: ts) : s.split =
    if token.kind == .operator && 1 < token.text.length && token.text.toList.head? == some '>' then
      { s with rest := (Parser.splitAngle token).1 :: (Parser.splitAngle token).2 :: ts }
    else s := by
  unfold split
  rw [rest]

@[simp] theorem arena_split (s : ParserState) : s.split.arena = s.arena := by
  unfold split
  split
  · split <;> rfl
  · rfl

end ParserState

namespace Parser

variable {good : Token → ParserState → Prop} {text : String}

/-- Looking ahead among tokens that were changed, where the end of a text stays what it is. -/
theorem tokenAt_map {f : Token → Token} (ends : f endToken = endToken) (ts : List Token) (n : Nat) :
    tokenAt (ts.map f) n = f (tokenAt ts n) := by
  unfold tokenAt
  rw [List.getElem?_map, List.getLastD_eq_getLast?, List.getLast?_map, List.getLastD_eq_getLast?]
  cases ts[n]? with
  | some t => rfl
  | none =>
    cases ts.getLast? with
    | some t => rfl
    | none => exact ends.symm

variable {α : Type} {s : ParserState} {bad : ParseError → ParserState → Prop}

section Looking

/-- A parser that only looks, and what it sees. -/
class Looks (p : Parser α) (view : outParam (ParserState → α)) : Prop where
  run : ∀ s, p.run.run s = (.ok (view s), s)

variable {view : ParserState → α}

@[simp] theorem ends_look {p : Parser α} [looks : Looks p view]
    {good : α → ParserState → Prop} : Ends p s good bad ↔ good (view s) s := by
  unfold Ends
  rw [looks.run]

theorem Looks.of_ends {p : Parser α}
    (h : ∀ s, Ends p s (fun x s' => (x, s') = (view s, s)) fun _ _ => False) : Looks p view := by
  refine ⟨fun s => ?_⟩
  have ended := h s
  unfold Ends at ended
  split at ended
  · rename_i run
    rw [run, (Prod.mk.inj ended).1, (Prod.mk.inj ended).2]
  · exact ended.elim

instance (x : α) : Looks (pure x) fun _ => x := ⟨fun _ => rfl⟩
instance : Looks (get : Parser ParserState) id := ⟨fun _ => rfl⟩
instance (id : NodeId) : Looks (kindOf id) fun s => s.arena.kind id := ⟨fun _ => rfl⟩
instance : Looks ahead ParserState.rest := ⟨fun _ => rfl⟩
instance (n : Nat) : Looks (peekAt n) fun s => tokenAt s.rest n := ⟨fun _ => rfl⟩
instance : Looks peek ParserState.token := ⟨fun _ => rfl⟩
instance : Looks (atToken text) fun s => s.token.is text := ⟨fun _ => rfl⟩
instance (texts : List String) : Looks (atAny texts) fun s => texts.any s.token.is := ⟨fun _ => rfl⟩
instance (n : Nat) : Looks (aheadIs n text) fun s => (tokenAt s.rest n).is text := ⟨fun _ => rfl⟩
instance : Looks atEnd fun s => s.token.kind == .eof := ⟨fun _ => rfl⟩
instance : Looks atIdentifier fun s => s.token.kind == .identifier := ⟨fun _ => rfl⟩
instance : Looks (atWord text) fun s => s.token.kind == .identifier && s.token.text == text := ⟨fun _ => rfl⟩
instance : Looks atLambda fun s => closesBeforeArrow 0 s.rest := ⟨fun _ => rfl⟩

/-- Whether the tokens ahead start a local declaration. -/
def declarationAhead (ts : List Token) : Bool :=
  ["final", "@"].any (tokenAt ts 0).is ||
    match scanType ts with
    | some n =>
      (tokenAt ts n).kind == .identifier && ["=", ";", ",", "["].any (tokenAt ts (n + 1)).is
    | none => false

instance : Looks atLocalDeclaration fun s => declarationAhead s.rest := .of_ends fun s => by
  unfold atLocalDeclaration declarationAhead
  rw [show tokenAt s.rest 0 = s.token from rfl]
  simp only [ends_bind, ends_look, ends_ite]
  by_cases modified : ["final", "@"].any s.token.is = true
  · rw [if_pos modified, modified]
    rfl
  · rw [if_neg modified, Bool.eq_false_iff.mpr modified]
    cases scanType s.rest <;> rfl

/-- Whether the tokens ahead are the head of an enhanced `for`. -/
def forEachAhead (ts : List Token) : Bool :=
  let ts := ts.dropWhile fun t => t.is "final"
  match scanType ts with
  | some n => (tokenAt ts n).kind == .identifier && (tokenAt ts (n + 1)).is ":"
  | none => false

instance : Looks atForEach fun s => forEachAhead s.rest := .of_ends fun s => by
  unfold atForEach forEachAhead
  rw [ends_bind, ends_look]
  dsimp only
  cases scanType (s.rest.dropWhile fun t => t.is "final") <;> rfl

def castAhead (ts : List Token) : Bool :=
  let inner := ts.drop 1
  match scanType inner with
  | none => false
  | some n =>
    (tokenAt inner n).is ")" &&
      ((tokenAt inner 0).isPrimitive && n == 1 || startsCastOperand (tokenAt inner (n + 1))) &&
      !closesBeforeArrow 0 ts

instance : Looks atCast fun s => castAhead s.rest := .of_ends fun s => by
  unfold atCast castAhead
  rw [ends_bind, ends_look]
  dsimp only
  cases scanType (s.rest.drop 1) with
  | none => rfl
  | some n =>
    dsimp only
    cases closed : (tokenAt (s.rest.drop 1) n).is ")" with
    | false => rfl
    | true =>
      simp only [Bool.not_true, Bool.false_eq_true, if_false, Bool.true_and]
      split
      · rename_i operand
        rw [operand]
        rfl
      · rename_i operand
        rw [Bool.not_eq_true] at operand
        rw [operand]
        rfl

end Looking

section Failing

variable {good : α → ParserState → Prop}

@[simp] theorem ends_failAt {token : Token} {cause : Cause} :
    Ends (failAt token cause : Parser α) s good bad ↔ bad ⟨s.file, token.start, cause⟩ s := Iff.rfl

@[simp] theorem ends_fail {cause : Cause} : Ends (fail cause : Parser α) s good bad ↔ bad (s.errorAt cause) s := Iff.rfl

@[simp] theorem ends_refuse {what : Unsupported} :
    Ends (refuse what : Parser α) s good bad ↔ bad (s.errorAt (.unsupported what)) s := Iff.rfl

/-- What was found where something else is expected. -/
def found? (token : Token) : Option String := if token.kind == .eof then none else some token.text

@[simp] theorem ends_unexpected {what : Expected} : Ends (unexpected what : Parser α) s good bad ↔
      bad (s.errorAt (.expected what (found? s.token))) s := Iff.rfl

end Failing

section Reading

@[simp] theorem ends_advance : Ends advance s good bad ↔ good s.token s.advanced := by
  obtain ⟨file, rest, stop, depth, names, arena⟩ := s
  match rest with
  | [] | [t] | t :: t' :: ts => exact Iff.rfl

@[simp] theorem ends_eat {good : Bool → ParserState → Prop} : Ends (eat text) s good bad ↔
      if s.token.is text then good true s.advanced else good false s := by
  unfold eat
  simp

variable {good : Unit → ParserState → Prop}

@[simp] theorem ends_expect : Ends (expect text) s good bad ↔
      if s.token.is text then good () s.advanced
      else bad (s.errorAt (.expected (.token text) (found? s.token))) s := by
  unfold expect
  simp

@[simp] theorem ends_closeAngle :
    Ends closeAngle s good bad ↔ Ends (expect ">") s.split good bad := by
  unfold closeAngle ParserState.split
  rw [ends_bind, ends_get]
  cases s.rest with
  | nil => rfl
  | cons token ts =>
    dsimp only
    split <;> rfl

@[simp] theorem ends_identifier {good : String → ParserState → Prop} : Ends identifier s good bad ↔
      if s.token.kind == .identifier then good s.token.text s.advanced
      else bad (s.errorAt (.expected .identifier (found? s.token))) s := by
  unfold identifier
  simp

@[simp] theorem ends_takeComments {good : List Comment → ParserState → Prop} : Ends takeComments s good bad ↔
      good ((s.rest.head?.map Token.comments).getD []) s.uncommented := by
  unfold takeComments ParserState.uncommented
  rw [ends_bind, ends_get]
  cases s.rest <;> exact Iff.rfl

@[simp] theorem ends_nested {p : Parser α} {good : α → ParserState → Prop} : Ends (nested p) s good bad ↔
      if nestingLimit ≤ s.depth then bad (s.errorAt .nestingTooDeep) s
      else Ends p { s with depth := s.depth + 1 }
        (fun x s' => good x { s' with depth := s'.depth - 1 }) bad := by
  unfold nested
  simp

end Reading

section Making

variable {good : NodeId → ParserState → Prop} {id : NodeId}

@[simp] theorem ends_makeCommented {start : Token} {k : Kind NodeId} {cs : List Comment} :
    Ends (makeCommented start k cs) s good bad ↔ good s.arena.size
        { s with arena := (s.arena.alloc k (.real s.file start.start s.lastStop) cs).2 } := Iff.rfl

@[simp] theorem ends_copy : Ends (copy id) s good bad ↔
      good (s.arena.copy id).1 { s with arena := (s.arena.copy id).2 } := Iff.rfl

@[simp] theorem ends_attachComments {cs : List Comment} {good : Unit → ParserState → Prop} :
    Ends (attachComments id cs) s good bad ↔
      good () { s with arena := cs.foldl (fun a c => a.addComment id c) s.arena } := Iff.rfl

end Making

theorem run_of_readWith {entry : Rules → Parser α} {a b : Arena} {file text : String} {x : α}
    (read : readWith entry a file text = (.ok x, b)) : ∃ ts t, tokenize file text = .ok ts ∧ t.arena = b ∧
      (entry ⟨stepsFor ts, grammar (stepsFor ts)⟩).run.run ⟨file, ts, 0, 0, [], a⟩ = (.ok x, t) := by
  unfold readWith at read
  split at read
  · cases read
  · rename_i ts tokens
    obtain ⟨outcome, arena⟩ := Prod.mk.inj read
    exact ⟨ts, _, tokens, arena, Prod.ext outcome rfl⟩

end Parser

end JavaEdit
