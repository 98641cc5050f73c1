import JavaEdit.Proofs.Scanning.Agreement

/-!
# Reading ends

The grammar is given a number of steps, and so is every loop in it. `Halts b inside eats p` says that
`p` does not run out of them where at most `b` characters are ahead (fewer, if `inside`): it leaves the end of the
text where it is and the nesting as it was, and if it `eats` it reads at least one character. Parsers are
put together as their code is, so instance search finds its way through most rules. A round of a loop may
count on the next one only behind a character (`Rounds`), so a loop has enough steps if there are more of them
than characters; a rule may call another one in front of the same character only if that one comes later in
the chain from statements to unary expressions (`Goal.rank`).
-/

namespace JavaEdit

open List

namespace Parser

variable {α β γ δ : Type}
variable {steps : Nat} {text : String} {ι : Type}

/-! ## Characters ahead -/

theorem tokenize_ne_outOfSteps (file text : String) :
    match tokenize file text with
    | .ok ts => Sealed ts ∧ Lexer.Tiles [] text.toList ts
    | .error e => Lexer.Refused file text.toList e := by
  have outcome := outcome_of_tokenize file text
  cases tokens : tokenize file text with
  | error e =>
    rw [tokens] at outcome
    exact outcome
  | ok ts =>
    rw [tokens] at outcome
    exact ⟨sealed_of_tokenize tokens, outcome.1⟩

/-- Looking ahead always finds one of the tokens. -/
theorem tokenAt_mem {ts : List Token} (ended : Sealed ts) (n : Nat) : tokenAt ts n ∈ ts := by
  obtain ⟨t, ts, rfl⟩ := ended.exists_cons
  unfold tokenAt
  cases found : (t :: ts)[n]? with
  | some u => exact mem_of_getElem? found
  | none =>
    exact getLast_mem _

@[simp] theorem weight_cons (t : Token) (ts : List Token) : weight (t :: ts) = t.text.length + weight ts := by
  have from' : ∀ (ts : List Token) (n : Nat), ts.foldl (fun n t => n + t.text.length) n = n + weight ts := by
    intro ts
    induction ts with
    | nil => exact fun _ => rfl
    | cons t ts ih =>
      intro n
      rw [weight, foldl_cons, foldl_cons, ih, ih]
      omega
  rw [weight, foldl_cons, from', Nat.zero_add]

/-- Where a parser ends that may read: in front of the same end, at the same depth. -/
structure Onto (eats : Bool) (s s' : ParserState) : Prop where
  ended : Sealed s'.rest
  depth_eq : s'.depth = s.depth
  weight_le : weight s'.rest + eats.toNat ≤ weight s.rest

variable {s s' s'' : ParserState} {e e' o h h' : Bool}

theorem Onto.stay (ended : Sealed s.rest) : Onto false s s := ⟨ended, rfl, Nat.le_refl _⟩

theorem Onto.mono (le : e'.toNat ≤ e.toNat) (onto : Onto e s s') : Onto e' s s' :=
  ⟨onto.ended, onto.depth_eq, by have := onto.weight_le; omega⟩

theorem Onto.weaken (onto : Onto e s s') : Onto false s s' := onto.mono (Nat.zero_le _)

theorem onto_advanced (ended : Sealed s.rest) (more : s.token.kind ≠ .eof) : Onto true s s.advanced := by
  obtain ⟨ts, rest, listed, later, behind⟩ := ended.next more
  have := listed.nonempty
  refine ⟨behind ▸ later, ?_, by rw [behind, rest, weight_cons, Bool.toNat_true]; omega⟩
  unfold ParserState.advanced
  split <;> rfl

theorem onto_split (ended : Sealed s.rest) : Onto false s s.split := by
  obtain ⟨t, ts, rest⟩ := ended.exists_cons
  rw [ParserState.split_cons rest]
  split
  · rename_i angle
    rw [rest] at ended
    cases ended with
    | done isEnd => simp [isEnd] at angle
    | cons more known later =>
      obtain ⟨known', more', -, shorter, -⟩ := part_of_angle known angle
      simp only [Bool.and_eq_true, beq_iff_eq] at angle
      have operator : (splitAngle t).1.kind = .operator := angle.1.1
      have bracket : (splitAngle t).1.Listed :=
        ⟨by rw [operator]; nofun, fun _ => show ">" ∈ Token.operators by decide, show 0 < ">".length by decide,
          by rw [operator]; trivial⟩
      refine ⟨.cons (by rw [operator]; nofun) bracket (.cons more' known' later), rfl, ?_⟩
      rw [rest, weight_cons, weight_cons, weight_cons, Bool.toNat_false]
      have : (splitAngle t).1.text.length = 1 := show ">".length = 1 by decide
      omega
  · exact .stay ended

theorem onto_uncommented (ended : Sealed s.rest) : Onto false s s.uncommented := by
  obtain ⟨t, ts, rest⟩ := ended.exists_cons
  unfold ParserState.uncommented
  rw [rest] at ended ⊢
  refine ⟨?_, rfl, by simp [rest]⟩
  cases ended with
  | done isEnd => exact .done isEnd
  | cons more known later => exact .cons more ⟨known.keyword, known.operator, known.nonempty, known.framed⟩ later

/-! ## Putting parsers together -/

/-- `h'` is true if something has been read so far, or `e` says that something is. -/
class Further (h e : Bool) (h' : outParam Bool) : Prop where
  either : h'.toNat ≤ h.toNat + e.toNat

instance : Further h true true := ⟨by simp⟩
instance : Further h false h := ⟨by simp⟩

/-- `o` is true if both are. -/
class Both (e e' : Bool) (o : outParam Bool) : Prop where
  least : o.toNat ≤ e.toNat ∧ o.toNat ≤ e'.toNat

instance : Both e true e := ⟨by cases e <;> simp⟩
instance : Both e false false := ⟨by simp⟩

/-- A failure for want of steps is admitted below a limit. -/
def Short (limit : Nat) (e : ParseError) (s : ParserState) : Prop := e.cause = .outOfSteps → weight s.rest < limit

/-- How many characters may be ahead, and the limit below which steps may run out. -/
structure Bound where
  ahead : Nat
  limit : Nat

/-- A parser that does not run out of steps with so many characters ahead, or fewer if `inside`. -/
class Halts (b : Bound) (inside : Bool) (eats : outParam Bool) (p : Parser α) : Prop where
  halts : ∀ s, Sealed s.rest → weight s.rest + inside.toNat ≤ b.ahead →
    Ends p s (fun _ s' => Onto eats s s') fun e s' => Short b.limit e s'

/-- The same in front of a token that is not the end. -/
class HaltsInside (b : Bound) (inside : Bool) (eats : outParam Bool) (p : Parser α) : Prop where
  halts : ∀ s, Sealed s.rest → s.token.kind ≠ .eof → weight s.rest + inside.toNat ≤ b.ahead →
    Ends p s (fun _ s' => Onto eats s s') fun e s' => Short b.limit e s'

variable {b c : Bound}

/-- A look that is answered with no at the end. -/
class Tests (m : Parser Bool) : Prop where
  tests : ∀ s, Ends m s (fun found s' => s' = s ∧ (found = true → s.token.kind ≠ .eof)) fun _ _ => False

/-- A cause that has nothing to do with steps. -/
class HasCause (cause : Cause) : Prop where
  ne : cause ≠ .outOfSteps

section Combining

variable {p q : Parser α} {view : ParserState → α} {k : α → Parser β}

instance (priority := low) [Halts b h e p] : HaltsInside b h e p :=
  ⟨fun s ended _ room => Halts.halts s ended room⟩

theorem Onto.trans [further : Further e e' o] (onto : Onto e s s') (onto' : Onto e' s' s'') : Onto o s s'' where
  ended := onto'.ended
  depth_eq := onto'.depth_eq.trans onto.depth_eq
  weight_le := by
    have := onto.weight_le
    have := onto'.weight_le
    have := further.either
    omega

theorem Halts.bind' (first : Halts b h e p) [further : Further h e h'] (next : ∀ x, Halts b h' e' (k x))
    [Further e e' o] : Halts b h o (p >>= k) where
  halts s ended room := (first.halts s ended room).bind fun x s' onto => by
    refine ((next x).halts s' onto.ended ?_).imp fun _ _ onto' => onto.trans onto'
    have := onto.weight_le
    have := further.either
    omega

instance [first : Halts b h e p] [Further h e h'] [next : ∀ x, Halts b h' e' (k x)] [Further e e' o] :
    Halts b h o (p >>= k) := first.bind' next

/-- What follows a pair gets its parts. -/
instance (priority := high) {p : Parser (γ × δ)} {k : γ × δ → Parser β} [first : Halts b h e p] [Further h e h']
    [next : ∀ x y, Halts b h' e' (k (x, y))] [Further e e' o] : Halts b h o (p >>= k) :=
  first.bind' fun (x, y) => next x y

instance {cond : Prop} [Decidable cond] [first : Halts b h e p] [second : Halts b h e' q] [both : Both e e' o] :
    Halts b h o (if cond then p else q) where
  halts s ended room := by
    split
    · exact (first.halts s ended room).imp fun _ _ => Onto.mono both.least.1
    · exact (second.halts s ended room).imp fun _ _ => Onto.mono both.least.2

instance [Looks p view] : Halts b h false p := ⟨fun _ ended _ => ends_look.mpr (.stay ended)⟩

theorem Halts.look [Looks p view] (next : ∀ x, Halts b h e (k x)) : Halts b h e (p >>= k) :=
  ⟨fun s ended room => ends_bind.mpr (ends_look.mpr ((next _).halts s ended room))⟩

instance [Looks p view] [next : ∀ x, HaltsInside b h e (k x)] : HaltsInside b h e (p >>= k) :=
  ⟨fun s ended more room => ends_bind.mpr (ends_look.mpr ((next _).halts s ended more room))⟩

instance {cond : Prop} [Decidable cond] [first : HaltsInside b h e p] [second : HaltsInside b h e' q]
    [both : Both e e' o] : HaltsInside b h o (if cond then p else q) where
  halts s ended more room := by
    split
    · exact (first.halts s ended more room).imp fun _ _ => Onto.mono both.least.1
    · exact (second.halts s ended more room).imp fun _ _ => Onto.mono both.least.2

variable {k : Token → Parser β}

theorem HaltsInside.advance (next : ∀ t, Halts b true e (k t)) :
    HaltsInside b h true (advance >>= k) where
  halts s ended more room := by
    rw [ends_bind, ends_advance]
    have onto := onto_advanced ended more
    refine ((next _).halts _ onto.ended ?_).imp fun _ _ onto' => ?_
    · have := onto.weight_le
      simp at this ⊢
      omega
    · have := onto.weight_le
      have := onto'.weight_le
      exact ⟨onto'.ended, onto'.depth_eq.trans onto.depth_eq, by simp at *; omega⟩

instance [∀ t, Halts b true e (k t)] : HaltsInside b h true (advance >>= k) :=
  .advance fun _ => inferInstance

theorem Halts.weaken (whole : Halts b h e p) : Halts b h false p :=
  ⟨fun s ended room => (whole.halts s ended room).imp fun _ _ => Onto.weaken⟩

theorem HaltsInside.weaken (inside : HaltsInside b h e p) : HaltsInside b h false p :=
  ⟨fun s ended more room => (inside.halts s ended more room).imp fun _ _ => Onto.weaken⟩

theorem Halts.peek (more : ∀ t, t.kind ≠ .eof → HaltsInside b h e (k t))
    (ended : ∀ t, t.kind = .eof → Halts b h e (k t)) : Halts b h e (peek >>= k) where
  halts s isSealed room := by
    by_cases isEnd : s.token.kind = .eof
    · exact (ended _ isEnd).halts s isSealed room
    · exact (more _ isEnd).halts s isSealed isEnd room

instance (priority := high) {m : Parser Bool} [found : Tests m] {p q : Parser β} [first : HaltsInside b h e p]
    [second : Halts b h e' q] [both : Both e e' o] : Halts b h o (m >>= fun found => if found then p else q) where
  halts s ended room := by
    rw [ends_bind]
    refine (found.tests s).mono (fun x s' ⟨same, more⟩ => ?_) fun _ _ => False.elim
    rw [same, ends_ite]
    split
    · exact (first.halts s ended (more ‹_›) room).imp fun _ _ => Onto.mono both.least.1
    · exact (second.halts s ended room).imp fun _ _ => Onto.mono both.least.2

instance (priority := high) {m : Parser Bool} {m' : Parser γ} {seen : ParserState → γ} {f : γ → Bool} {p q : Parser β} [found : Tests m]
    [Looks m' seen] [first : HaltsInside b h e p] [second : Halts b h e' q] [both : Both e e' o] :
    Halts b h o (m >>= fun found => m' >>= fun x => if found && f x then p else q) where
  halts s ended room := by
    rw [ends_bind]
    refine (found.tests s).mono (fun x s' ⟨same, more⟩ => ?_) fun _ _ => False.elim
    rw [same, ends_bind, ends_look, ends_ite]
    split
    · rename_i is
      exact (first.halts s ended (more (Bool.and_eq_true _ _ ▸ is).1) room).imp fun _ _ => Onto.mono both.least.1
    · exact (second.halts s ended room).imp fun _ _ => Onto.mono both.least.2

/-- Two ways to go on, one of them behind a token. -/
instance (priority := high) {p q : Parser β} [first : Halts b true e' p] [second : Halts b h e q] :
    Halts b h e (eat text >>= fun found => if found then p else q) where
  halts s ended room := by
    rw [ends_bind, ends_eat]
    split
    · rename_i is
      have onto := onto_advanced ended (Token.kind_ne_eof_of_is is)
      have := onto.weight_le
      refine (first.halts _ onto.ended (by simp at *; omega)).imp fun _ _ onto' => ?_
      have := onto'.weight_le
      exact ⟨onto'.ended, onto'.depth_eq.trans onto.depth_eq, by cases e <;> simp at * <;> omega⟩
    · exact second.halts s ended room

instance {f : α → β} [first : Halts b h e p] : Halts b h e (f <$> p) :=
  ⟨fun s ended room => ends_map.mpr (first.halts s ended room)⟩

instance [inner : Halts b h e p] : Halts b h e (nested p) where
  halts s ended room := by
    rw [ends_nested]
    split
    · exact nofun
    · refine (inner.halts { s with depth := s.depth + 1 } ended room).imp fun _ s' onto =>
        ⟨onto.ended, ?_, onto.weight_le⟩
      rw [onto.depth_eq]
      rfl

end Combining

/-! ## Parsers that look, fail, read a token or make a node -/

section Primitives

instance (text : String) : Tests (atToken text) := ⟨fun s => by simpa using Token.kind_ne_eof_of_is⟩
instance (texts : List String) : Tests (atAny texts) := ⟨fun s => by
  simpa using fun text _ => Token.kind_ne_eof_of_is⟩

instance : HasCause .sizedAfterUnsized := ⟨nofun⟩
instance : HasCause .noSizedDimension := ⟨nofun⟩
instance : HasCause .tooManyDimensions := ⟨nofun⟩
instance : HasCause .localModifier := ⟨nofun⟩
instance : HasCause .varargsNotLast := ⟨nofun⟩
instance : HasCause .invalidTarget := ⟨nofun⟩
instance (m : String) : HasCause (.repeatedModifier m) := ⟨nofun⟩
instance (n : String) : HasCause (.missingReturnType n) := ⟨nofun⟩
instance (operator : UnaryOperator) : HasCause (.invalidOperand operator) := ⟨nofun⟩
instance (v : Variant) : HasCause (.notAStatement v) := ⟨nofun⟩

instance {cause : Cause} [genuine : HasCause cause] : Halts b h true (fail cause : Parser α) :=
  ⟨fun _ _ _ => ends_fail.mpr fun outOfSteps => absurd outOfSteps genuine.ne⟩
instance {token : Token} {cause : Cause} [genuine : HasCause cause] : Halts b h true (failAt token cause : Parser α) :=
  ⟨fun _ _ _ => ends_failAt.mpr fun outOfSteps => absurd outOfSteps genuine.ne⟩
instance {what : Expected} : Halts b h true (unexpected what : Parser α) := ⟨fun _ _ _ => ends_unexpected.mpr nofun⟩
instance {what : Unsupported} : Halts b h true (refuse what : Parser α) := ⟨fun _ _ _ => ends_refuse.mpr nofun⟩

instance : Halts b h false advance where
  halts s ended _ := by
    rw [ends_advance]
    by_cases isEnd : s.token.kind = .eof
    · suffices same : s.advanced = s by rw [same]; exact .stay ended
      cases rest : s.rest with
      | nil => rw [rest] at ended; cases ended
      | cons t ts =>
        rw [rest] at ended
        cases ended with
        | done => cases s; simp_all [ParserState.advanced]
        | cons notEnd => simp_all [ParserState.token, tokenAt]
    · exact (onto_advanced ended isEnd).weaken

instance : Halts b h true (expect text) where
  halts s ended _ := by
    rw [ends_expect]
    split
    · exact onto_advanced ended (Token.kind_ne_eof_of_is ‹_›)
    · exact nofun

instance : Halts b h false (eat text) where
  halts s ended _ := by
    rw [ends_eat]
    split
    · exact (onto_advanced ended (Token.kind_ne_eof_of_is ‹_›)).weaken
    · exact .stay ended

instance : Halts b h true identifier where
  halts s ended _ := by
    rw [ends_identifier]
    split
    · rename_i name
      exact onto_advanced ended fun isEnd => by simp [isEnd] at name
    · exact nofun

instance : Halts b h true closeAngle where
  halts s ended room := by
    rw [ends_closeAngle]
    have onto := onto_split ended
    have := onto.weight_le
    have rest : Halts b h true (expect ">") := inferInstance
    exact (rest.halts _ onto.ended (by simp at *; omega)).imp fun _ _ => onto.trans

instance : Halts b h false takeComments := ⟨fun _ ended _ => ends_takeComments.mpr (onto_uncommented ended)⟩
instance {start : Token} {kind : Kind NodeId} {cs : List Comment} : Halts b h false (makeCommented start kind cs) :=
  ⟨fun _ ended _ => ends_makeCommented.mpr ⟨ended, rfl, Nat.le_refl _⟩⟩
instance {start : Token} {kind : Kind NodeId} : Halts b h false (make start kind) :=
  inferInstanceAs (Halts b h false (makeCommented start kind []))
instance {id : NodeId} : Halts b h false (copy id) := ⟨fun _ ended _ => ends_copy.mpr ⟨ended, rfl, Nat.le_refl _⟩⟩
instance {id : NodeId} {cs : List Comment} : Halts b h false (attachComments id cs) :=
  ⟨fun _ ended _ => ends_attachComments.mpr ⟨ended, rfl, Nat.le_refl _⟩⟩
instance {f : List String → List String} :
    Halts b h false (modify fun s => { s with typeNames := f s.typeNames } : Parser PUnit) :=
  ⟨fun _ ended _ => ends_modify.mpr ⟨ended, rfl, Nat.le_refl _⟩⟩

end Primitives

/-! ## Loops -/

/-- Where at most `c` characters are ahead, a round of a loop goes well if the next one does behind a character. -/
def Rounds {ι : Type} (c : Bound) (e : Bool) (loop : ι → Nat → Parser α) : Prop :=
  ∀ steps, (∀ i, Halts c true e (loop i steps)) → ∀ i, Halts c false e (loop i (steps + 1))

/-- A loop that carries nothing along. -/
theorem Rounds.plain {loop : Nat → Parser α}
    (round : ∀ steps, Halts c true e (loop steps) → Halts c false e (loop (steps + 1))) :
    Rounds c e fun _ : Unit => loop := fun steps next i => round steps (next i)

/-- With fewer characters ahead. -/
theorem Halts.below {p : Parser α} (whole : Halts b h e p) (less : n + h.toNat ≤ b.ahead) :
    Halts ⟨n, b.limit⟩ false e p := ⟨fun s ended room => whole.halts s ended (by simp at room; omega)⟩

theorem Rounds.halts {loop : ι → Nat → Parser α} (rounds : ∀ n, n + h.toNat ≤ b.ahead → Rounds ⟨n, b.limit⟩ e loop)
    (enough : b.ahead < steps) (i : ι) : Halts b h e (loop i steps) := by
  have each : ∀ steps n, n + h.toNat ≤ b.ahead → n < steps → ∀ i, Halts ⟨n, b.limit⟩ false e (loop i steps) := by
    intro steps
    induction steps with
    | zero => exact fun n _ none => absurd none (Nat.not_lt_zero n)
    | succ steps ih =>
      intro n less enough
      refine rounds n less steps fun i => ⟨fun s ended room => ?_⟩
      simp only [Bool.toNat_true] at room
      exact (ih (weight s.rest) (by omega) (by omega) i).halts s ended (Nat.le_refl _)
  exact ⟨fun s ended room => (each steps (weight s.rest) room (by omega) i).halts s ended (Nat.le_refl _)⟩

/-- Rules that have steps for fewer characters. -/
class Ready (b : Bound) (r : Rules) : Prop where
  steps : b.ahead < r.steps
  parse : ∀ goal, Halts b true true (r.parse goal)

/-- Rules that answer all goals with so many characters ahead. -/
class Answers (b : Bound) (h : Bool) (r : Rules) : Prop where
  parse : ∀ goal, Halts b h true (r.parse goal)

variable {r : Rules}

instance [ready : Ready b r] : Answers b true r := ⟨ready.parse⟩

instance [answers : Answers b h r] (goal : Goal) : Halts b h true (r.parse goal) := answers.parse goal
instance [answers : Answers b h r] : Halts b h true (type r) := answers.parse .type
instance [Halts b h true (r.parse .expression)] : Halts b h true (expression r) :=
  inferInstanceAs (Halts b h true (r.parse .expression))

theorem Ready.loop [ready : Ready b r] [answers : Answers b h r] {loop : ι → Nat → Parser α} (i : ι)
    (rounds : ∀ c, Ready c r → Answers c false r → Rounds c e loop) :
    Halts b h e (loop i r.steps) := by
  refine Rounds.halts (fun n less => rounds _ ⟨?_, fun goal => ⟨fun s ended room => ?_⟩⟩ ⟨fun goal => ?_⟩) ready.steps i
  · exact Nat.lt_of_le_of_lt (by dsimp only; omega) ready.steps
  · exact (ready.parse goal).halts s ended (by dsimp only at room; omega)
  · exact (answers.parse goal).below less

theorem rounds_separated {separator : String} {item : Parser α} [Halts c false true item] :
    Rounds c true fun _ : Unit => separated separator item :=
  .plain fun _ _ => by rw [separated]; infer_instance

instance [ready : Ready b r] {separator : String} {item : Parser α} [whole : Halts b h true item] :
    Halts b h true (separated separator item r.steps) :=
  Rounds.halts (fun _ less => have := whole.below less; rounds_separated) ready.steps ()

/-! ## Names and types -/

theorem rounds_dottedRest : Rounds c false fun _ : Unit => dottedRest :=
  .plain fun _ _ => by rw [dottedRest]; infer_instance

instance [Ready b r] [Answers b h r] : Halts b h false (dottedRest r.steps) :=
  Ready.loop () fun _ _ _ => rounds_dottedRest

instance [Ready b r] : Halts b h true (qualifiedName r.steps) := by unfold qualifiedName; infer_instance

theorem rounds_dimensions : Rounds c false fun (count : UInt8) steps => dimensions steps count := by
  intro steps next count
  dsimp only at next ⊢
  rw [dimensions]
  infer_instance

instance [Ready b r] [Answers b h r] {count : UInt8} : Halts b h false (dimensions r.steps count) :=
  Ready.loop count fun _ _ _ => rounds_dimensions

section Rules

set_option synthInstance.maxSize 20000

variable [Ready b r] {start : Token} {cs : List Comment} {ms : Modifiers} {annotations typeParams : List NodeId}
variable {least : Nat} {name : String}

instance [Answers b h r] : Halts b h true (typeArgument r) := by unfold typeArgument; infer_instance

instance {allowDiamond : Bool} : Halts b true false (typeArguments r allowDiamond) := by
  unfold typeArguments; infer_instance

instance {allowDiamond withDimensions : Bool} : Halts b h true (typeReference r allowDiamond withDimensions) := by
  refine .peek (fun t _ => ?_) fun t isEnd => ?_
  · infer_instance
  · have noName : t.isPrimitive = false ∧ (t.kind == .identifier) = false := by simp [Token.isPrimitive, isEnd]
    simp only [noName.1, noName.2, Bool.false_eq_true, if_false]
    infer_instance

instance [Answers b h r] : Halts b h true (typeParameter r) := by unfold typeParameter; infer_instance
instance : Halts b h false (typeParameters r) := by unfold typeParameters; infer_instance

instance [Answers b h r] : Halts b h true (typeList r) := by unfold typeList; infer_instance

/-! ## Expressions -/

instance [Halts b h true (r.parse .conditional)] : Halts b h true (assignment r) := by
  refine .look fun _ => .bind' inferInstance fun _ =>
    (.peek (fun t _ => ?_) fun t isEnd => ?_ : Halts b true false _)
  · split
    · infer_instance
    · exact .weaken (e := true) inferInstance
  · have none : assignmentOperator? t = none := by simp [assignmentOperator?, isEnd]
    rw [none]
    infer_instance

instance [∀ least, Halts b h true (r.parse (.operation least))] : Halts b h true (conditional r) := by
  unfold conditional; infer_instance

instance {operator : BinaryOperator} : Halts b true true (rightOperand r operator) := by
  unfold rightOperand; infer_instance

theorem rounds_operators [Answers b false r] :
    Rounds b false fun left steps => operators r start least steps left := by
  intro steps next left
  dsimp only at next ⊢
  refine .peek (fun t _ => ?_) fun t isEnd => ?_
  · split
    · infer_instance
    · infer_instance
  · have none : binaryOperator? t = none := by simp [binaryOperator?, isEnd]
    rw [none]
    infer_instance

instance [Answers b h r] {left : NodeId} : Halts b h false (operators r start least r.steps left) :=
  Ready.loop left fun _ _ _ => rounds_operators

instance [Halts b h true (r.parse .unary)] : Halts b h true (operation r least) := by
  unfold operation; infer_instance

instance : Halts b h true (arguments r) := by unfold arguments; infer_instance
instance : Halts b h true (parenthesized r) := by unfold parenthesized; infer_instance

theorem rounds_sizes [Answers b false r] : Rounds b false fun (extra : UInt8) steps => sizes r steps extra := by
  intro steps next extra
  dsimp only at next ⊢
  rw [sizes]
  infer_instance

instance [Answers b h r] {extra : UInt8} : Halts b h false (sizes r r.steps extra) :=
  Ready.loop extra fun _ _ _ => rounds_sizes

instance : Halts b h true (creation r) := by unfold creation; infer_instance
instance : HaltsInside b h true (nameOrCall r) := by unfold nameOrCall; infer_instance
instance : HaltsInside b h true (selfReference r) := by unfold selfReference; infer_instance

instance {token : Token} : HaltsInside b h true (keywordExpression r token) := by
  unfold keywordExpression; infer_instance

omit [Ready b r] in
theorem literalValue?_ne_outOfSteps (t : Token) : literalValue? t ≠ some (.error .outOfSteps) := by
  have number : ∀ text bits, integerValue text bits ≠ .error .outOfSteps := fun text bits => by
    unfold integerValue
    grind
  have quoted : ∀ text, quotedValue text ≠ .error .outOfSteps := fun text => by
    unfold quotedValue
    grind
  unfold literalValue?
  simp only [bind, Except.bind, pure, Except.pure, throw, throwThe, MonadExceptOf.throw]
  grind

instance : Halts b h true (primary r) := by
  refine .peek (fun t _ => ?_) fun t isEnd => ?_
  · split
    · rename_i cause refused
      have : HasCause cause := ⟨by rintro rfl; exact literalValue?_ne_outOfSteps t refused⟩
      infer_instance
    · infer_instance
    · split <;> infer_instance
  · have none : literalValue? t = none := by simp [literalValue?, isEnd]
    rw [none, isEnd]
    infer_instance

instance {target : NodeId} : Halts b true true (memberAccess r start target) := by
  unfold memberAccess; infer_instance

theorem rounds_suffixes [Answers b false r] :
    Rounds b false fun target steps => suffixes r start steps target := by
  intro steps next target
  dsimp only at next ⊢
  rw [suffixes]
  infer_instance

instance [Answers b h r] {target : NodeId} : Halts b h false (suffixes r start r.steps target) :=
  Ready.loop target fun _ _ _ => rounds_suffixes

instance : HaltsInside b h true (cast r) := by unfold cast; infer_instance

instance {operator : UnaryOperator} : HaltsInside b h true (leadingOperator r operator) := by
  refine .advance (e := false) fun _ => .look fun _ => ?_
  split
  · infer_instance
  · exact .weaken (e := true) inferInstance

instance : Halts b h true (unary r) := by
  refine .peek (fun t _ => ?_) fun t isEnd => ?_
  · split <;> infer_instance
  · have none : (if t.kind == .operator then UnaryOperator.ofLeading? t.text else none) = none := by simp [isEnd]
    rw [none]
    infer_instance

/-! ## Statements -/

omit [Ready b r] in
theorem rounds_modifiersFrom [Answers b false r] :
    Rounds b false fun (found : Modifiers × List NodeId) steps => modifiersFrom r steps found.1 found.2 := by
  intro steps next found
  have : ∀ ms annotations, Halts b true false (modifiersFrom r steps ms annotations) := fun ms annotations =>
    next (ms, annotations)
  dsimp only
  refine .peek (fun t _ => ?_) fun t isEnd => ?_
  · split
    · exact .weaken (e := true) inferInstance
    · split
      · infer_instance
      · exact .weaken (e := true) inferInstance
  · have none : t.is "@" = false ∧ (if t.kind == .keyword then Modifier.ofKeyword? t.text else none) = none := by
      simp [Token.is, isEnd]
    rw [none.1, none.2]
    infer_instance

instance [Answers b h r] : Halts b h false (modifiers r) :=
  Ready.loop ([], []) fun _ _ _ => rounds_modifiersFrom

instance [Halts b h true (r.parse .annotationUse)] [Halts b h true (r.parse .expression)] :
    Halts b h true (elementValue r) := by unfold elementValue; infer_instance

instance [Answers b h r] : Halts b h true (annotationArgument r) := by
  unfold annotationArgument; infer_instance

instance : Halts b h true (annotationUse r) := by unfold annotationUse; infer_instance

omit [Ready b r] in
theorem rounds_declarators [Halts b true true (r.parse .expression)] :
    Rounds b false fun name steps => declarators r steps name := by
  intro steps next name
  dsimp only at next ⊢
  rw [declarators]
  infer_instance

instance [Answers b h r] : Halts b h false (declarators r r.steps name) :=
  Ready.loop name fun _ _ _ => rounds_declarators

variable {names : List (String × Option NodeId)}

omit [Ready b r] in
instance {declared : NodeId} {isFirst : Bool}
    : Halts b h false (makeLocals start ms declared cs isFirst names) := by
  induction names generalizing cs isFirst with
  | nil => rw [makeLocals]; infer_instance
  | cons name names ih => rw [makeLocals]; infer_instance

instance [Answers b h r] : Halts b h true (localVariables r start cs) := by
  unfold localVariables; infer_instance

instance [Answers b h r] : Halts b h true (blockStatement r) := by unfold blockStatement; infer_instance

theorem rounds_blockStatements [Answers b false r] : Rounds b false fun _ : Unit => blockStatements r :=
  .plain fun _ _ => by rw [blockStatements]; infer_instance

instance [Answers b h r] : Halts b h false (blockStatements r r.steps) :=
  Ready.loop () fun _ _ _ => rounds_blockStatements

instance : Halts b h true (block r) := by unfold block; infer_instance
instance : Halts b true true (forEach r) := by unfold forEach; infer_instance
instance [Answers b h r] : Halts b h true (expressionItem r) := by unfold expressionItem; infer_instance
instance : Halts b true false (forInit r) := by unfold forInit; infer_instance
instance : Halts b h true (forStatement r) := by unfold forStatement; infer_instance
instance : Halts b h true (catchClause r) := by unfold catchClause; infer_instance

theorem rounds_catchClauses [Answers b false r] : Rounds b false fun _ : Unit => catchClauses r :=
  .plain fun _ _ => by rw [catchClauses]; infer_instance

instance [Answers b h r] : Halts b h false (catchClauses r r.steps) :=
  Ready.loop () fun _ _ _ => rounds_catchClauses

instance : Halts b true true (tryStatement r) := by unfold tryStatement; infer_instance

instance [Halts b h true (r.parse .expression)] : Halts b h true (expressionStatement r start) := by
  unfold expressionStatement; infer_instance

instance : Halts b h true jumpLabel := by unfold jumpLabel; infer_instance

instance [Halts b h true (r.parse .expression)] : Halts b h true (statementKind r start) := by
  unfold statementKind; infer_instance

instance [Halts b h true (r.parse .block)] [Halts b h true (r.parse .expression)] :
    Halts b h true (statement r) := by
  unfold statement; infer_instance

/-! ## Declarations -/

instance [Answers b h r] : Halts b h true (parameter r) := by unfold parameter; infer_instance
instance : Halts b h true (parameters r) := by unfold parameters; infer_instance
instance : Halts b h false (throwsClause r) := by unfold throwsClause; infer_instance

omit [Ready b r] in
instance {ids : List NodeId} : Halts b h false (ids.mapM copy) := by
  induction ids with
  | nil => rw [mapM_nil]; infer_instance
  | cons id ids ih => rw [mapM_cons]; infer_instance

omit [Ready b r] in
instance {declared : NodeId} {isFirst : Bool} :
    Halts b h false (makeFields start ms declared annotations cs isFirst names) := by
  induction names generalizing cs isFirst with
  | nil => rw [makeFields]; infer_instance
  | cons name names ih => rw [makeFields]; infer_instance

instance :
    Halts b h true (constructor r start cs ms annotations typeParams) := by unfold constructor; infer_instance

instance {returned : NodeId} : Halts b h true (method r start cs ms annotations typeParams returned name) := by
  unfold method; infer_instance

omit [Ready b r] in
instance : Looks atRecord fun s => (s.token.kind == .identifier && s.token.text == "record") &&
    (tokenAt s.rest 1).kind == .identifier := ⟨fun _ => rfl⟩
instance [Answers b h r] : Halts b h true (member r) := by unfold member; infer_instance

theorem rounds_members [Answers b false r] : Rounds b false fun _ : Unit => members r :=
  .plain fun _ _ => by rw [members]; infer_instance

instance [Answers b h r] : Halts b h false (members r r.steps) := Ready.loop () fun _ _ _ => rounds_members

instance : Halts b h true (typeBody r name) := by unfold typeBody; infer_instance

omit [Ready b r] in
instance : Halts b h false refusePermits := by unfold refusePermits; infer_instance

instance :
    Halts b h true (classDeclaration r start cs ms annotations) := by unfold classDeclaration; infer_instance

instance : Halts b h true (interfaceDeclaration r start cs ms annotations) := by
  unfold interfaceDeclaration; infer_instance

instance : Halts b h true (typeDeclaration r start cs ms annotations) := by unfold typeDeclaration; infer_instance

theorem rounds_importRest : Rounds c false fun _ : Unit => importRest :=
  .plain fun _ _ => by rw [importRest]; infer_instance

instance [Answers b h r] : Halts b h false (importRest r.steps) := Ready.loop () fun _ _ _ => rounds_importRest
instance : Halts b h true (importLine r.steps) := by unfold importLine; infer_instance

theorem rounds_importLines : Rounds b false fun _ : Unit => importLines r.steps :=
  .plain fun _ _ => by rw [importLines]; infer_instance

instance [Answers b h r] : Halts b h false (importLines r.steps r.steps) :=
  Ready.loop () fun _ _ _ => rounds_importLines

theorem rounds_topLevelTypes [Answers b false r] : Rounds b false fun _ : Unit => topLevelTypes r :=
  .plain fun _ _ => by rw [topLevelTypes]; infer_instance

instance [Answers b h r] : Halts b h false (topLevelTypes r r.steps) :=
  Ready.loop () fun _ _ _ => rounds_topLevelTypes

instance : Halts b h false (packageLine r.steps) := by unfold packageLine; infer_instance

instance [Answers b h r] : Halts b h false (compilationUnit r) := by
  -- the node of the unit is made in place
  have made : ∀ (k : ParserState → NodeId × Arena) h, Halts b h false (do
      let s ← get
      let (id, arena) := k s
      set { s with arena }
      return id : Parser NodeId) := fun k h => ⟨fun s ended _ => ⟨ended, rfl, Nat.le_refl _⟩⟩
  unfold compilationUnit
  infer_instance

omit [Ready b r] in
instance : Halts b h false finish := by unfold finish; infer_instance

end Rules

/-! ## The grammar -/

/-- How far a goal is from the unary expressions it may start with. -/
def Goal.rank : Goal → Nat
  | .operation _ => 1
  | .conditional => 2
  | .expression => 3
  | .statement => 4
  | _ => 0

theorem Goal.rank_le (goal : Goal) : goal.rank ≤ 4 := by cases goal <;> simp [rank]

/-- A rule calls others in front of the same character only if they come later. -/
theorem halts_rule [Ready b r] {goal : Goal}
    (later : ∀ other : Goal, other.rank < goal.rank → Halts b false true (r.parse other)) :
    Halts b false true (rule r goal) := by
  cases goal with
  | expression =>
    have := later .conditional (by decide)
    rw [rule]
    infer_instance
  | conditional =>
    have := fun least => later (.operation least) Nat.one_lt_two
    rw [rule]
    infer_instance
  | operation least =>
    have := later .unary Nat.zero_lt_one
    rw [rule]
    infer_instance
  | statement =>
    have := later .block (by decide)
    have := later .expression (by decide)
    rw [rule]
    infer_instance
  | _ => rw [rule]; infer_instance

theorem ready_of_grammar (enough : 5 * b.ahead + 1 ≤ steps)
    (inner : ∀ n (goal : Goal), 5 * n + goal.rank + 2 ≤ steps → Halts ⟨n, b.limit⟩ false true (grammar steps goal)) :
    Ready b ⟨steps, grammar steps⟩ := by
  refine ⟨show b.ahead < steps by omega, fun goal => ⟨fun s ended room => ?_⟩⟩
  have := goal.rank_le
  rw [Bool.toNat_true] at room
  exact (inner (weight s.rest) goal (by omega)).halts s ended (Nat.le_refl _)

theorem halts_grammar {goal : Goal} (enough : 5 * b.ahead + goal.rank + 2 ≤ steps) :
    Halts b false true (grammar steps goal) := by
  induction steps generalizing b goal with
  | zero => omega
  | succ steps ih =>
    have : Ready b _ := ready_of_grammar (by omega) fun n goal => @ih ⟨n, b.limit⟩ goal
    exact halts_rule fun _ _ => ih (by omega)

theorem ready_grammar (enough : 5 * b.ahead + 6 ≤ steps) :
    Ready b ⟨steps, grammar steps⟩ ∧ Answers b false ⟨steps, grammar steps⟩ :=
  ⟨ready_of_grammar (by omega) fun _ _ enough => halts_grammar enough, ⟨fun goal => halts_grammar (by have := goal.rank_le; omega)⟩⟩

/-! ## Rounds of the loops -/

/-- The loops of the parser, by the number of rounds they may take. -/
inductive IsLoop (r : Rules) : {α : Type} → (Nat → Parser α) → Prop
  | separated {separator : String} {item : Parser NodeId} :
      item ∈ [type r, typeArgument r, typeParameter r, expression r, annotationArgument r, expressionItem r, parameter r] →
      IsLoop r (separated separator item)
  | dottedRest : IsLoop r dottedRest
  | dimensions (count : UInt8) : IsLoop r fun rounds => dimensions rounds count
  | operators (start : Token) (least : Nat) (left : NodeId) : IsLoop r fun rounds => operators r start least rounds left
  | sizes (extra : UInt8) : IsLoop r fun rounds => sizes r rounds extra
  | suffixes (start : Token) (target : NodeId) : IsLoop r fun rounds => suffixes r start rounds target
  | modifiers (ms : Modifiers) (annotations : List NodeId) : IsLoop r fun rounds => modifiersFrom r rounds ms annotations
  | declarators (name : String) : IsLoop r fun rounds => declarators r rounds name
  | blockStatements : IsLoop r (blockStatements r)
  | catchClauses : IsLoop r (catchClauses r)
  | members : IsLoop r (members r)
  | importRest : IsLoop r importRest
  | importLines : IsLoop r (importLines r.steps)
  | topLevelTypes : IsLoop r (topLevelTypes r)

/-- The last round of a loop that asks for one more. -/
theorem halts_outOfSteps {n : Nat} : Halts ⟨n, n⟩ true e (fail .outOfSteps : Parser α) :=
  ⟨fun s _ room => ends_fail.mpr fun _ => by rw [Bool.toNat_true] at room; exact room⟩

theorem Rounds.once {n : Nat} {loop : ι → Nat → Parser α} (rounds : Rounds ⟨n, n⟩ e loop)
    (none : ∀ i, loop i 0 = fail .outOfSteps) (i : ι) : Halts ⟨n, n⟩ false false (loop i 1) :=
  (rounds 0 (fun i => by rw [none]; exact halts_outOfSteps) i).weaken

/-- A round returns, or there are fewer characters ahead of the next one. -/
theorem IsLoop.halts {n : Nat} {loop : Nat → Parser α} (isLoop : IsLoop r loop) [Ready ⟨n, n⟩ r]
    [Answers ⟨n, n⟩ false r] : Halts ⟨n, n⟩ false false (loop 1) := by
  cases isLoop with
  | @separated _ item known =>
    have : Halts ⟨n, n⟩ false true item := by
      simp only [mem_cons, not_mem_nil, or_false] at known
      rcases known with rfl | rfl | rfl | rfl | rfl | rfl | rfl <;> infer_instance
    exact rounds_separated.once (fun _ => rfl) ()
  | dottedRest => exact rounds_dottedRest.once (fun _ => rfl) ()
  | dimensions count => exact rounds_dimensions.once (fun _ => rfl) count
  | operators start least left => exact rounds_operators.once (fun _ => rfl) left
  | sizes extra => exact rounds_sizes.once (fun _ => rfl) extra
  | suffixes start target => exact rounds_suffixes.once (fun _ => rfl) target
  | modifiers ms annotations => exact rounds_modifiersFrom.once (fun _ => rfl) (ms, annotations)
  | declarators name => exact rounds_declarators.once (fun _ => rfl) name
  | blockStatements => exact rounds_blockStatements.once (fun _ => rfl) ()
  | catchClauses => exact rounds_catchClauses.once (fun _ => rfl) ()
  | members => exact rounds_members.once (fun _ => rfl) ()
  | importRest => exact rounds_importRest.once (fun _ => rfl) ()
  | importLines => exact rounds_importLines.once (fun _ => rfl) ()
  | topLevelTypes => exact rounds_topLevelTypes.once (fun _ => rfl) ()

/-! ## Counting parentheses -/

/-- Like `closesBeforeArrow`, without an answer where a closing parenthesis would take the count below zero. -/
def closesChecked? : Nat → List Token → Option Bool
  | _, [] => some false
  | depth, token :: ts =>
    if token.kind == .eof then some false
    else if token.is "(" then closesChecked? (depth + 1) ts
    else if token.is ")" then
      if depth = 0 then none
      else if depth = 1 then some ((tokenAt ts 0).is "->")
      else closesChecked? (depth - 1) ts
    else closesChecked? depth ts

theorem closesChecked?_eq {depth : Nat} (inside : 0 < depth) (ts : List Token) :
    closesChecked? depth ts = some (closesBeforeArrow depth ts) := by
  induction ts generalizing depth with
  | nil => rfl
  | cons t ts ih =>
    rw [closesChecked?, closesBeforeArrow]
    split
    · rfl
    · split
      · exact ih (Nat.succ_pos _)
      · split
        · rw [if_neg (by omega)]
          by_cases last : depth = 1
          · rw [if_pos last, if_pos (Nat.le_of_eq last)]
          · rw [if_neg last, if_neg (by omega)]
            exact ih (by omega)
        · exact ih inside

/-! ## Reading a text -/

theorem readWith_ne_outOfSteps {rule : Rules → Parser α} (a : Arena) (file text : String)
    (halts : ∀ b r, Ready b r → Answers b false r → ∃ e, Halts b false e (rule r)) :
    ∀ e, (readWith rule a file text).1 = .error e → e.cause ≠ .outOfSteps := by
  intro e failed
  have lexed := tokenize_ne_outOfSteps file text
  unfold readWith at failed
  cases tokens : tokenize file text with
  | error e' =>
    rw [tokens] at failed lexed
    cases failed
    exact lexed.cause
  | ok ts =>
    rw [tokens] at failed lexed
    obtain ⟨ready, answers⟩ : Ready ⟨weight ts, 0⟩ ⟨stepsFor ts, grammar (stepsFor ts)⟩ ∧ _ :=
      ready_grammar (by unfold stepsFor; dsimp only; omega)
    obtain ⟨eats, whole⟩ := halts _ _ ready answers
    have run := whole.halts ⟨file, ts, 0, 0, [], a⟩ lexed.1 (Nat.le_refl _)
    unfold Ends at run
    dsimp only at failed
    generalize (rule _).run.run _ = outcome at run failed
    obtain ⟨result, s⟩ := outcome
    cases failed
    exact fun outOfSteps => Nat.not_lt_zero _ (run outOfSteps)

end Parser

/-- Every text is read to an end. The lexer finds tokens that have characters, up to the end of the text, or refuses
it, and neither it nor the grammar runs out of steps. Wherever the tokens ahead are such, a round of a loop leaves
such tokens and the nesting as it was, or fails, and asks for another round only with fewer characters ahead.
Looking ahead never leaves the tokens, and a parenthesis that was not opened is not counted. -/
theorem reading_ends (a : Arena) (file text : String) : (match tokenize file text with
      | .ok ts => Sealed ts ∧ Lexer.Tiles [] text.toList ts
      | .error e => Lexer.Refused file text.toList e) ∧
    (∀ e, (a.readUnit file text).1 = .error e → e.cause ≠ .outOfSteps) ∧
    (∀ e, (a.readExpression text).1 = .error e → e.cause ≠ .outOfSteps) ∧
    (∀ e, (a.readBlock text).1 = .error e → e.cause ≠ .outOfSteps) ∧
    (∀ steps α (loop : Nat → Parser α) s, Parser.IsLoop ⟨steps, Parser.grammar steps⟩ loop → Sealed s.rest →
      5 * Parser.weight s.rest + 6 ≤ steps →
      Ends (loop 1) s (fun _ s' => Sealed s'.rest ∧ s'.depth = s.depth ∧ Parser.weight s'.rest ≤ Parser.weight s.rest)
        fun e s' => e.cause = .outOfSteps → Parser.weight s'.rest < Parser.weight s.rest) ∧
    (∀ ts, Sealed ts → ∀ n, Parser.tokenAt ts n ∈ ts) ∧
    ∀ t ts, t.is "(" → Parser.closesChecked? 0 (t :: ts) = some (Parser.closesBeforeArrow 0 (t :: ts)) := by
  refine ⟨Parser.tokenize_ne_outOfSteps file text, Parser.readWith_ne_outOfSteps a file text fun b r _ _ => ⟨_, inferInstance⟩,
    Parser.readWith_ne_outOfSteps a _ text fun b r _ _ => ⟨_, inferInstance⟩,
    Parser.readWith_ne_outOfSteps a _ text fun b r _ _ => ⟨_, inferInstance⟩,
    fun steps α loop s isLoop ended enough => ?_, fun ts ended n => Parser.tokenAt_mem ended n, fun t ts opens => ?_⟩
  · obtain ⟨ready, answers⟩ := Parser.ready_grammar (b := ⟨Parser.weight s.rest, Parser.weight s.rest⟩) enough
    have round : Parser.Halts ⟨_, Parser.weight s.rest⟩ false false (loop 1) := isLoop.halts
    exact (round.halts s ended (Nat.le_refl _)).imp fun _ _ onto => ⟨onto.ended, onto.depth_eq, onto.weight_le⟩
  · have notEnd : (t.kind == .eof) = false := beq_false_of_ne (Token.kind_ne_eof_of_is opens)
    simp only [Parser.closesChecked?, Parser.closesBeforeArrow, notEnd, opens, if_true, Bool.false_eq_true, if_false]
    exact Parser.closesChecked?_eq Nat.one_pos ts

end JavaEdit
