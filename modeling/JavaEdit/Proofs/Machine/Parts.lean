import JavaEdit.Proofs.Machine.Tidiness

/-!
# The parts of a run

A run of the machine runs statements, expressions, methods and constructors, each in some world. No
rule looks at a part that is out of steps: such a part ends whatever it is a part of in the same way.
So a run has a part exactly if it runs out of steps once that part does, and `Meets` says this of a
set of parts and worlds.

`Tracks` compares two runs of which the second may run out of steps where the first goes on. Parts
of the machine track each other because the parts they are made of do, as long as those are tidy;
`Steady` says both.
-/

namespace JavaEdit

/-- Something that the machine runs. -/
inductive Part where
  | eval (t : Tree Unit)
  | exec (t : Tree Unit)
  | method (receiver : Option Nat) (owner : String) (m : MethodInfo) (args : List Value)
  | constructor (ref : Nat) (className : String) (args : List Value)

/-- What a part gives when it ends well. -/
abbrev Part.Result : Part → Type
  | eval _ => Value
  | exec _ => Flow
  | method .. => Value
  | constructor .. => Unit

open Classical in
/-- A run that is out of steps in some worlds. -/
noncomputable def Run.except {α : Type} (stop : World → Prop) (x : Run α) : Run α :=
  ofFunction fun w => if stop w then (.error .exhausted, w) else x.on w

namespace Calls

def run (c : Calls) : (part : Part) → Run part.Result
  | .eval t => c.eval t
  | .exec t => c.exec t
  | .method receiver owner m args => c.method receiver owner m args
  | .constructor ref className args => c.constructor ref className args

/-- The rules, out of steps at some parts in some worlds. -/
noncomputable def without (c : Calls) (stop : Part → World → Prop) : Calls where
  steps := c.steps
  eval t := (c.eval t).except (stop (.eval t))
  exec t := (c.exec t).except (stop (.exec t))
  method receiver owner m args :=
    (c.method receiver owner m args).except (stop (.method receiver owner m args))
  constructor ref className args :=
    (c.constructor ref className args).except (stop (.constructor ref className args))

theorem run_without (c : Calls) (stop : Part → World → Prop) (part : Part) :
    (c.without stop).run part = (c.run part).except (stop part) := by
  cases part <;> rfl

/-- The rules of the machine on top of others. -/
def above (c : Calls) (p : Program) (steps : Nat) : Calls where
  steps := steps
  eval t := Run.evalRule p c t
  exec t := Run.execRule p c t
  method receiver owner m args := Run.runMethod c receiver owner m args
  constructor ref className args := Run.runConstructor p c ref className args

end Calls

theorem machine_succ (p : Program) (n : Nat) : machine p (n + 1) = (machine p n).above p n := rfl

/-- The machine, out of steps at some parts in some worlds. -/
noncomputable def machineWithout (p : Program) (stop : Part → World → Prop) : Nat → Calls
  | 0 => machine p 0
  | n + 1 => ((machineWithout p stop n).above p n).without stop

theorem steps_machineWithout (p : Program) (stop : Part → World → Prop) (n : Nat) :
    (machineWithout p stop n).steps = (machine p n).steps := by
  cases n <;> rfl

/-- The run of `whole` from a world has a part in the set: it ends, and without such parts it would
run out of steps. -/
def Meets (p : Program) (n : Nat) (whole : Part) (w : World) (set : Part → World → Prop) : Prop :=
  (((machine p n).run whole).on w).1 ≠ .error .exhausted ∧
    (((machineWithout p set n).run whole).on w).1 = .error .exhausted

/-- How something ended, without its result. -/
def ending {α : Type} (outcome : Except Unwind α) : Except Unwind Unit := outcome.map fun _ => ()

/-- Ends that stay what they are whatever follows: rules go on after a result, and may catch what is
thrown. -/
class Lasting (E : Except Unwind Unit → Prop) : Prop where
  ok : E (.ok ()) → ∀ o, E o
  thrown : ∀ v, E (.error (.thrown v)) → ∀ o, E o

def anyEnd : Except Unwind Unit → Prop := fun _ => True

/-- Running out of steps, or a fault from a set. -/
def faultEnd (faults : Fault → Prop) : Except Unwind Unit → Prop
  | .error .exhausted => True
  | .error (.fault f) => faults f
  | _ => False

instance : Lasting anyEnd := ⟨fun _ _ => trivial, fun _ _ _ => trivial⟩
instance {faults : Fault → Prop} : Lasting (faultEnd faults) := ⟨nofun, nofun⟩

variable {stop : Part → World → Prop} {w : World}

namespace Run

variable {α β : Type}

open Classical in
theorem on_except (stop : World → Prop) (x : Run α) (w : World) :
    (x.except stop).on w = if stop w then (.error .exhausted, w) else x.on w := rfl

theorem Tidy.except {stop : World → Prop} {x : Run α} (hx : Tidy x) : Tidy (x.except stop) where
  resumes w := by
    rw [on_except]
    split
    · exact .refl w
    · exact hx.resumes w

/-- The world with one more block. -/
def opened (w : World) : World := { w with frame := { w.frame with scopes := [] :: w.frame.scopes } }

/-- The world without its innermost block. -/
def closed (w : World) : World := { w with frame := { w.frame with scopes := w.frame.scopes.tail } }

theorem on_counted (x : Run α) (w : World) : (counted x).on w = if callLimit ≤ w.depth then (trap .stackOverflow).on w
      else ((x.on { w with depth := w.depth + 1 }).1, { (x.on { w with depth := w.depth + 1 }).2 with
          depth := (x.on { w with depth := w.depth + 1 }).2.depth - 1 }) := by
  unfold counted
  rw [on_bind]
  show Run.on (if callLimit ≤ w.depth then _ else _) w = _
  split <;> rfl

theorem on_attempt (x : Run α) (w : World) : (attempt x).on w = (.ok (x.on w).1, (x.on w).2) := rfl

/-- From a world, the second run does as the first, or it runs out of steps and the first ends in one
of some ways. -/
def TracksFrom (E : Except Unwind Unit → Prop) (w : World) (x y : Run α) : Prop :=
  y.on w = x.on w ∨ (y.on w).1 = .error .exhausted ∧ E (ending (x.on w).1)

/-- From every world that is not too deep, the second run tracks the first. -/
class Tracks (b : Nat) (E : Except Unwind Unit → Prop) (x y : Run α) : Prop where
  tracks : ∀ w : World, w.depth ≤ max callLimit b → TracksFrom E w x y

variable {b : Nat} {E : Except Unwind Unit → Prop}

theorem Tracks.refl (x : Run α) : Tracks b E x x := ⟨fun _ _ => .inl rfl⟩

variable [lasting : Lasting E]

theorem Tracks.bind {x y : Run α} {k l : α → Run β} (hx : Tracks b E x y) (tidy : Tidy x)
    (hk : ∀ a, Tracks b E (k a) (l a)) : Tracks b E (x >>= k) (y >>= l) where
  tracks w shallow := by
    unfold TracksFrom
    rw [on_bind, on_bind]
    have kept := (tidy.resumes w).depth
    rcases hx.tracks w shallow with same | ⟨stopped, ended⟩
    · rw [same]
      cases run : x.on w with
      | mk outcome w' =>
        rw [run] at kept
        cases outcome with
        | ok a => exact (hk a).tracks w' (kept.symm ▸ shallow)
        | error e => exact .inl rfl
    · right
      cases run : y.on w with
      | mk outcome w' =>
        rw [run] at stopped
        cases stopped
        refine ⟨rfl, ?_⟩
        cases run' : x.on w with
        | mk outcome' w'' =>
          rw [run'] at ended
          cases outcome' with
          | ok a => exact lasting.ok ended _
          | error e => exact ended

/-- A tidy run, and one that tracks it. -/
class Steady (b : Nat) (E : Except Unwind Unit → Prop) (x y : Run α) : Prop where
  tidy : Tidy x
  tracks : Tracks b E x y

variable {x y : Run α} {k l : α → Run β}

omit lasting in
instance (priority := high) [tidy : Tidy x] : Steady b E x x := ⟨tidy, .refl x⟩

theorem Steady.bind (hx : Steady b E x y) (hk : ∀ a, Steady b E (k a) (l a)) : Steady b E (x >>= k) (y >>= l) :=
  ⟨hx.tidy.bind fun a => (hk a).tidy, hx.tracks.bind hx.tidy fun a => (hk a).tracks⟩

instance [hx : Steady b E x y] [hk : ∀ a, Steady b E (k a) (l a)] :
    Steady b E (x >>= k) (y >>= l) := hx.bind hk

instance {f : α → β} [Steady b E x y] : Steady b E (f <$> x) (f <$> y) := by
  rw [map_eq_pure_bind, map_eq_pure_bind]
  infer_instance

omit lasting in
instance {c : Prop} [Decidable c] {x' y' : Run α} [Steady b E x x'] [Steady b E y y'] :
    Steady b E (if c then x else y) (if c then x' else y') := by
  split <;> assumption

omit lasting in
/-- A run in another world, which is changed back afterwards. -/
theorem TracksFrom.inside {w' : World} (h : TracksFrom E w' x y) (leave : World → World) {x' y' : Run α}
    (hx : x'.on w = ((x.on w').1, leave (x.on w').2)) (hy : y'.on w = ((y.on w').1, leave (y.on w').2)) :
    TracksFrom E w x' y' := by
  unfold TracksFrom
  rw [hx, hy]
  exact h.imp (fun same => by rw [same]) id

omit lasting in
instance {frame : Frame} [h : Steady b E x y] : Steady b E (inFrame frame x) (inFrame frame y) where
  tidy := by have := h.tidy; infer_instance
  tracks := ⟨fun w shallow => (h.tracks.tracks { w with frame } shallow).inside ({ · with frame := w.frame }) rfl rfl⟩

omit lasting in
instance [h : Steady b E x y] : Steady b E (inBlock x) (inBlock y) where
  tidy := by have := h.tidy; infer_instance
  tracks := ⟨fun w shallow => (h.tracks.tracks (opened w) shallow).inside closed rfl rfl⟩

omit lasting in
/-- The body of a call starts one level deeper, which is not too deep where the limit allows it. -/
instance [h : Steady b E x y] : Steady b E (counted x) (counted y) where
  tidy := by have := h.tidy; infer_instance
  tracks := by
    refine ⟨fun w _ => ?_⟩
    by_cases full : callLimit ≤ w.depth
    · exact .inl (by rw [on_counted, on_counted, if_pos full, if_pos full])
    · have deeper : w.depth + 1 ≤ max callLimit b := by omega
      exact (h.tracks.tracks { w with depth := w.depth + 1 } deeper).inside (fun w => { w with depth := w.depth - 1 })
        (by rw [on_counted, if_neg full]) (by rw [on_counted, if_neg full])

omit lasting in
/-- What follows an attempt must be out of steps if the attempt is, and an end of the attempt that
was not tracked must last through what follows. -/
theorem TracksFrom.attempt {k l : Except Unwind α → Run β} (hx : Steady b E x y) (hk : ∀ o, Steady b E (k o) (l o))
    (stop : ∀ w, ((l (.error .exhausted)).on w).1 = .error .exhausted) (shallow : w.depth ≤ max callLimit b)
    (last : E (ending (x.on w).1) → E (ending ((attempt x >>= k).on w).1)) :
    TracksFrom E w (attempt x >>= k) (attempt y >>= l) := by
  have kept := (hx.tidy.resumes w).depth
  rcases hx.tracks.tracks w shallow with same | ⟨stopped, ended⟩
  · unfold TracksFrom
    rw [on_bind, on_bind, on_attempt, on_attempt, same]
    exact (hk _).tracks.tracks _ (kept.symm ▸ shallow)
  · refine .inr ⟨?_, last ended⟩
    rw [on_bind, on_attempt, stopped]
    exact stop _

omit lasting in
theorem Steady.tidy_attempt {k l : Except Unwind α → Run β} (hx : Steady b E x y)
    (hk : ∀ o, Steady b E (k o) (l o)) : Tidy (attempt x >>= k) := by
  have := hx.tidy
  exact .bind inferInstance fun o => (hk o).tidy

omit lasting in
theorem Steady.attempt {k l : Except Unwind α → Run β} (hx : Steady b E x y) (hk : ∀ o, Steady b E (k o) (l o))
    (stop : ∀ w, ((l (.error .exhausted)).on w).1 = .error .exhausted)
    (last : ∀ w, E (ending (x.on w).1) → E (ending ((attempt x >>= k).on w).1)) :
    Steady b E (attempt x >>= k) (attempt y >>= l) :=
  ⟨hx.tidy_attempt hk, ⟨fun w shallow => .attempt hx hk stop shallow (last w)⟩⟩

/-- A loop that may take fewer rounds than another. -/
theorem steady_iterate {x y : Run (Option α)} (h : Steady b E x y) {m n : Nat}
    (steps : n = m ∨ n ≤ m ∧ ∀ o, E o) : Steady b E (iterate x m) (iterate y n) := by
  have := h.tidy
  refine ⟨inferInstance, ?_⟩
  induction n generalizing m with
  | zero =>
    rcases steps with rfl | ⟨-, any⟩
    · exact .refl _
    · exact ⟨fun w _ => .inr ⟨rfl, any _⟩⟩
  | succ n ih =>
    obtain _ | m := m
    · omega
    have fewer : n = m ∨ n ≤ m ∧ ∀ o, E o := steps.imp (by omega) fun some => ⟨by omega, some.2⟩
    rw [iterate, iterate]
    refine h.tracks.bind h.tidy fun result => ?_
    cases result with
    | none => exact ih fewer
    | some a => exact .refl _

/-! ## Rules -/

/-- Rules of which the second ones may run out of steps where the first ones go on. -/
class TracksCalls (b : Nat) (E : Except Unwind Unit → Prop) (c c' : Calls) : Prop where
  steps : c'.steps = c.steps ∨ c'.steps ≤ c.steps ∧ ∀ o, E o
  run : ∀ part, Tracks b E (c.run part) (c'.run part)

variable {p : Program} {c c' : Calls} [h : TracksCalls b E c c'] [tidy : TidyCalls c]
variable {ref : Nat} {className name owner : String} {info : ClassInfo} {m : MethodInfo}
    {args items : List Value} {receiver : Option Nat} {t body left right target test : Tree Unit}
    {ts arguments catchers : List (Tree Unit)}

omit lasting in
instance : Steady b E (c.eval t) (c'.eval t) := ⟨tidy.eval t, h.run (.eval t)⟩
omit lasting in
instance : Steady b E (c.exec t) (c'.exec t) := ⟨tidy.exec t, h.run (.exec t)⟩
omit lasting in
instance : Steady b E (c.method receiver owner m args) (c'.method receiver owner m args) :=
  ⟨tidy.method .., h.run (.method receiver owner m args)⟩
omit lasting in
instance : Steady b E (c.constructor ref name args) (c'.constructor ref name args) :=
  ⟨tidy.constructor .., h.run (.constructor ref name args)⟩

/-- What runs on top of rules is steady in them. -/
abbrev SteadyIn (b : Nat) (E : Except Unwind Unit → Prop) (c c' : Calls) (f : Calls → Run α) : Prop :=
  Steady b E (f c) (f c')

instance {value : Value} : SteadyIn b E c c' (stringify p · value) := by
  unfold stringify
  cases value with
  | object ref =>
    refine .bind inferInstance fun _ => .bind inferInstance fun found => ?_
    cases found <;> infer_instance
  | _ => infer_instance

instance : SteadyIn b E c c' (runMethod · receiver owner m args) := by
  unfold runMethod
  cases m.body with
  | none => infer_instance
  | some body =>
    have called : ∀ flow : Flow, Tidy (match flow with
        | .returned value => return value.convert m.returned.primitive?
        | .normal => return .void
        | .broken _ | .continued _ => fault .strayJump : Run Value) := by
      intro flow
      cases flow <;> infer_instance
    infer_instance

instance : SteadyIn b E c c' (execAll · ts) := by
  induction ts with
  | nil => exact inferInstanceAs (Steady b E (pure _) (pure _))
  | cons t rest ih =>
    simp only [execAll]
    refine .bind inferInstance fun flow => ?_
    cases flow <;> infer_instance

instance : SteadyIn b E c c' (evalAll · ts) := by
  induction ts with
  | nil => exact inferInstanceAs (Steady b E (pure _) (pure _))
  | cons t rest ih => simp only [evalAll]; infer_instance

instance : SteadyIn b E c c' (messageOf p · args) := by
  unfold messageOf
  split <;> infer_instance

instance {fields : List FieldInfo} : SteadyIn b E c c' (initFields · ref className fields) := by
  induction fields with
  | nil => exact inferInstanceAs (Steady b E (pure _) (pure _))
  | cons f rest ih =>
    simp only [initFields]
    generalize (if f.isStatic then none else f.initializer) = initializer
    cases initializer <;> infer_instance

instance : SteadyIn b E c c' (superConstructor p · ref info args) := by
  unfold superConstructor
  cases info.superclass with
  | none => infer_instance
  | some parent =>
    dsimp only
    cases p.class? parent <;> infer_instance

instance {explicit : Option (String × List (Tree Unit))} :
    SteadyIn b E c c' (constructorStart p · ref info explicit) := by
  unfold constructorStart
  cases explicit <;> infer_instance

instance {statements : List (Tree Unit)} : SteadyIn b E c c' (constructorBody p · ref info statements) := by
  unfold constructorBody
  refine .bind inferInstance fun _ => .bind inferInstance fun flow => ?_
  cases flow <;> infer_instance

instance : SteadyIn b E c c' (runConstructor p · ref className args) := by
  unfold runConstructor
  cases p.class? className <;> infer_instance

instance : SteadyIn b E c c' (construct p · className args) := by
  unfold construct
  infer_instance

instance : SteadyIn b E c c' (instantiate p · className args) := by
  unfold instantiate
  cases p.class? className with
  | some info => infer_instance
  | none =>
    dsimp only
    split
    · infer_instance
    · split
      · infer_instance
      · split
        · split <;> infer_instance
        · infer_instance

instance {receiver : Value} : SteadyIn b E c c' (callOn p · receiver name args) := by
  unfold callOn
  cases receiver with
  | object ref =>
    refine .bind inferInstance fun _ => .bind inferInstance fun found => ?_
    cases found <;> infer_instance
  | _ => infer_instance

instance : SteadyIn b E c c' (callStatic p · className name args) := by
  unfold callStatic
  split
  · refine .bind inferInstance fun found => ?_
    cases found <;> infer_instance
  · refine .bind inferInstance fun w => ?_
    cases Builtin.static? w className name args <;> infer_instance

instance : SteadyIn b E c c' (callByName p · name args) := by
  unfold callByName
  refine .bind inferInstance fun w => .bind inferInstance fun own =>
    .bind inferInstance fun found => ?_
  cases found.orElse fun _ => own with
  | some method => infer_instance
  | none =>
    refine .bind inferInstance fun outer => ?_
    cases outer with
    | some found => infer_instance
    | none =>
      dsimp only
      cases w.frame.this <;> infer_instance

/-! ## Expressions -/

instance : SteadyIn b E c c' (condition · t) := by
  unfold condition
  refine .bind inferInstance fun value => ?_
  cases value <;> infer_instance

variable {operator : BinaryOperator}

instance {a b' : Value} : SteadyIn b E c c' (binary p · operator a b') := by
  unfold binary
  infer_instance

instance : SteadyIn b E c c' (place p · t) := by
  unfold place
  cases t.kind with
  | fieldAccess target name =>
    refine .bind inferInstance fun w => ?_
    cases w.namedClass? p target with
    | some className =>
      dsimp only
      cases w.staticOwner? p className name <;> infer_instance
    | none =>
      refine .bind inferInstance fun value => ?_
      cases value <;> infer_instance
  | _ => infer_instance

instance : SteadyIn b E c c' (fieldAccess p · target name) := by
  unfold fieldAccess
  refine .bind inferInstance fun w => ?_
  cases w.namedClass? p target with
  | some className => infer_instance
  | none =>
    refine .bind inferInstance fun value => ?_
    cases value with
    | object ref =>
      refine .bind inferInstance fun w => ?_
      cases w.field? ref name <;> infer_instance
    | _ => infer_instance

instance {kept : Bool} : SteadyIn b E c c' (printTo p · kept name args) := by
  unfold printTo
  dsimp only
  split <;> infer_instance

instance : SteadyIn b E c c' (superCall p · name arguments) := by
  unfold superCall
  refine .bind inferInstance fun w => ?_
  dsimp only
  cases w.frame.this with
  | none => infer_instance
  | some ref =>
    refine .bind inferInstance fun _ => .bind inferInstance fun found => ?_
    cases found <;> infer_instance

instance {target : Option (Tree Unit)} : SteadyIn b E c c' (invocation p · target name arguments) := by
  unfold invocation
  cases target with
  | none => infer_instance
  | some target =>
    refine .bind inferInstance fun w => ?_
    cases printStream? w p target with
    | some kept => infer_instance
    | none =>
      cases target.kind with
      | super => infer_instance
      | _ => cases w.namedClass? p target <;> infer_instance

instance {operator : UnaryOperator} {operand : Tree Unit} : SteadyIn b E c c' (update p · operator operand) := by
  unfold update
  infer_instance

instance {operator : Option BinaryOperator} {value : Tree Unit} :
    SteadyIn b E c c' (assign p · operator target value) := by
  unfold assign
  refine .bind inferInstance fun _ => ?_
  cases operator <;> infer_instance

instance : SteadyIn b E c c' (binaryExpression p · operator left right) := by
  unfold binaryExpression
  cases operator with
  | instanceOf =>
    refine .bind inferInstance fun value => .bind inferInstance fun w => ?_
    split
    · cases value <;> infer_instance
    · infer_instance
  | _ => infer_instance

instance : SteadyIn b E c c' (evalRule p · t) := by
  unfold evalRule
  cases t.kind with
  | this =>
    refine .bind inferInstance fun w => ?_
    cases w.frame.this <;> infer_instance
  | _ => infer_instance

/-! ## Statements -/

instance : SteadyIn b E c c' (loopBody · body) := by
  unfold loopBody
  infer_instance

instance : SteadyIn b E c c' (whileRound · test body) := by
  unfold whileRound
  infer_instance

instance : SteadyIn b E c c' (doRound · body test) := by
  unfold doRound
  refine .bind inferInstance fun flow => ?_
  cases flow <;> infer_instance

instance {test : Option (Tree Unit)} {updates : List (Tree Unit)} :
    SteadyIn b E c c' (forRound · test updates body) := by
  have afterwards : ∀ flow : Option Flow, SteadyIn b E c c' fun c =>
      (match flow with
        | some flow => return some flow
        | none => do
          let _ ← evalAll c updates
          return none : Run (Option Flow)) := by
    intro flow
    cases flow <;> infer_instance
  unfold forRound
  cases test <;> infer_instance

instance : SteadyIn b E c c' (execInit · ts) := by
  induction ts with
  | nil => exact inferInstanceAs (Steady b E (pure _) (pure _))
  | cons t rest ih => simp only [execInit]; infer_instance

instance {primitive : Option Primitive} : SteadyIn b E c c' (forItems · name primitive body items) := by
  induction items with
  | nil => exact inferInstanceAs (Steady b E (pure _) (pure _))
  | cons item rest ih =>
    simp only [forItems]
    refine .bind inferInstance fun flow => ?_
    cases flow <;> infer_instance

instance {element iterable : Tree Unit} : SteadyIn b E c c' (forEach · element iterable body) := by
  unfold forEach
  refine .bind inferInstance fun value => ?_
  cases value with
  | array ref =>
    refine .bind inferInstance fun w => ?_
    dsimp only
    cases element.kind <;> infer_instance
  | _ => infer_instance

instance {type : TypeUse} {initializer : Option (Tree Unit)} :
    SteadyIn b E c c' (declareLocal · name type initializer) := by
  unfold declareLocal
  cases initializer <;> infer_instance

/-- Catch clauses take what is thrown, so they do not touch an end that lasts. -/
instance : SteadyIn b E c c' (guarded p · body catchers) := by
  unfold guarded
  refine .attempt inferInstance (fun outcome => ?_) (fun w => rfl) fun w ended => ?_
  · match outcome with
    | .error (.thrown exception) =>
      refine .bind inferInstance fun w => ?_
      cases catcher? p w exception catchers <;> infer_instance
    | .error (.fault f) | .error .exhausted | .ok flow => infer_instance
  · rw [on_bind, on_attempt]
    generalize (c.exec body).on w = run at ended ⊢
    match run with
    | (.error (.thrown exception), w') => exact lasting.thrown _ ended _
    | (.error (.fault f), w') | (.error .exhausted, w') | (.ok flow, w') => exact ended

instance {last : Option (Tree Unit)} {outcome : Except Unwind Flow} :
    SteadyIn b E c c' (finalize · last outcome) := by
  unfold finalize
  match last, outcome with
  | none, _ => infer_instance
  | some block, .error .exhausted => infer_instance
  | some block, .error (.thrown v) | some block, .error (.fault f) | some block, .ok flow =>
    refine .bind inferInstance fun flow => ?_
    cases flow <;> infer_instance

/-- A statement without a `finally`. -/
theorem steady_execRule (t : Tree Unit) (plain : ∀ body catchers block, t.kind ≠ .tryStmt body catchers (some block)) :
    SteadyIn b E c c' (execRule p · t) := by
  have rounds := h.steps
  unfold execRule
  cases kind : t.kind with
  | whileLoop test body | doWhile body test => exact steady_iterate inferInstance rounds
  | forLoop init test updates body =>
    have looped : SteadyIn b E c c' fun c => iterate (forRound c test updates body) c.steps :=
      steady_iterate inferInstance rounds
    infer_instance
  | ifElse test thenBranch elseBranch =>
    refine .bind inferInstance fun _ => ?_
    cases elseBranch <;> infer_instance
  | returnStmt value => cases value <;> infer_instance
  | tryStmt body catchers block =>
    cases block with
    | none =>
      refine .attempt inferInstance (fun _ => inferInstance) (fun w => rfl) fun w ended => ?_
      rw [on_bind, on_attempt]
      generalize (guarded p c body catchers).on w = run at ended ⊢
      match run with
      | (.error e, w') | (.ok flow, w') => exact ended
    | some block => exact absurd kind (plain body catchers block)
  | _ => infer_instance

/-- A statement with a `finally` tracks another from the worlds where this leaves the end of what is
in front of it, if that was not tracked. -/
theorem tracksFrom_finally {t body block : Tree Unit} {catchers : List (Tree Unit)}
    (kind : t.kind = .tryStmt body catchers (some block)) (shallow : w.depth ≤ max callLimit b)
    (last : E (ending ((guarded p c body catchers).on w).1) → E (ending ((execRule p c t).on w).1)) :
    TracksFrom E w (execRule p c t) (execRule p c' t) := by
  unfold execRule at last ⊢
  rw [kind] at last ⊢
  exact .attempt inferInstance (fun _ => inferInstance) (fun w => rfl) shallow last

/-! ## Machines -/

omit h lasting in
instance {part : Part} : Tidy (c.run part) := by
  cases part
  · exact tidy.eval _
  · exact tidy.exec _
  · exact tidy.method ..
  · exact tidy.constructor ..

omit h lasting in
instance : TracksCalls b E c c := ⟨.inl rfl, fun _ => .refl _⟩

omit h lasting in
theorem tidy_execRule (t : Tree Unit) : Tidy (execRule p c t) := by
  by_cases guards : ∃ body catchers block, t.kind = .tryStmt body catchers (some block)
  · obtain ⟨body, catchers, block, kind⟩ := guards
    have guard : SteadyIn 0 anyEnd c c (guarded p · body catchers) := inferInstance
    unfold execRule
    rw [kind]
    exact guard.tidy_attempt fun o => (inferInstance : SteadyIn 0 anyEnd c c (finalize · (some block) o))
  · have plain : SteadyIn 0 anyEnd c c (execRule p · t) :=
      steady_execRule t fun body catchers block kind => guards ⟨body, catchers, block, kind⟩
    exact plain.tidy

omit h lasting in
/-- The rules on top of tidy ones are tidy: each tracks itself. -/
instance {steps : Nat} : TidyCalls (c.above p steps) where
  eval t := (inferInstance : SteadyIn 0 anyEnd c c (evalRule p · t)).tidy
  exec := tidy_execRule
  method receiver owner m args := (inferInstance : SteadyIn 0 anyEnd c c (runMethod · receiver owner m args)).tidy
  constructor ref name args := (inferInstance : SteadyIn 0 anyEnd c c (runConstructor p · ref name args)).tidy

omit h tidy lasting in
instance tidy_machine (n : Nat) : TidyCalls (machine p n) := by
  induction n with
  | zero => constructor <;> intros <;> exact inferInstanceAs (Tidy (throw _))
  | succ n ih => exact inferInstanceAs (TidyCalls ((machine p n).above p n))

instance : TidyCalls (c.without stop) where
  eval t := (tidy.eval t).except
  exec t := (tidy.exec t).except
  method receiver owner m args := (tidy.method receiver owner m args).except
  constructor ref name args := (tidy.constructor ref name args).except

omit h tidy lasting in
instance tidy_machineWithout (stop : Part → World → Prop) (n : Nat) : TidyCalls (machineWithout p stop n) := by
  induction n with
  | zero => exact tidy_machine 0
  | succ n ih => exact inferInstanceAs (TidyCalls (((machineWithout p stop n).above p n).without stop))

theorem tracksFrom_above (part : Part) {m n : Nat} (shallow : w.depth ≤ max callLimit b)
    (last : ∀ t body catchers block, part = .exec t → t.kind = .tryStmt body catchers (some block) →
      E (ending ((guarded p c body catchers).on w).1) → E (ending ((execRule p c t).on w).1)) :
    TracksFrom E w ((c.above p m).run part) ((c'.above p n).run part) := by
  cases part with
  | eval t => exact (inferInstance : SteadyIn b E c c' (evalRule p · t)).tracks.tracks w shallow
  | exec t =>
    by_cases guards : ∃ body catchers block, t.kind = .tryStmt body catchers (some block)
    · obtain ⟨body, catchers, block, kind⟩ := guards
      exact tracksFrom_finally kind shallow (last t body catchers block rfl kind)
    · exact (steady_execRule t fun body catchers block kind =>
        guards ⟨body, catchers, block, kind⟩).tracks.tracks w shallow
  | method receiver owner m args =>
    exact (inferInstance : SteadyIn b E c c' (runMethod · receiver owner m args)).tracks.tracks w shallow
  | constructor ref name args =>
    exact (inferInstance : SteadyIn b E c c' (runConstructor p · ref name args)).tracks.tracks w shallow

end Run

open Run

/-- Nothing is changed by taking no parts away. -/
theorem machineWithout_none (p : Program) (n : Nat) : machineWithout p (fun _ _ => False) n = machine p n := by
  have kept : ∀ {α : Type} (x : Run α), x.except (fun _ => False) = x := by
    intro α x
    funext w
    show (x.except fun _ => False).on w = x.on w
    rw [on_except, if_neg id]
  have whole : ∀ c : Calls, c.without (fun _ _ => False) = c := by
    intro c
    unfold Calls.without
    simp only [kept]
  induction n with
  | zero => rfl
  | succ n ih => rw [machineWithout, ih, whole, machine_succ]

/-- With fewer steps, or with more parts taken away, the machine does the same or runs out of steps. -/
theorem tracks_machineWithout (p : Program) {stop' : Part → World → Prop}
    (more : ∀ part w, stop part w → stop' part w) (b : Nat) {m n : Nat} (fewer : m ≤ n) :
    TracksCalls b anyEnd (machineWithout p stop n) (machineWithout p stop' m) := by
  induction m generalizing n with
  | zero =>
    refine ⟨.inr ⟨Nat.zero_le _, fun _ => trivial⟩, fun part => ⟨fun w _ => .inr ⟨?_, trivial⟩⟩⟩
    cases part <;> rfl
  | succ m ih =>
    obtain _ | n := n
    · omega
    have below := ih (n := n) (by omega)
    refine ⟨.inr ⟨Nat.le_of_succ_le_succ fewer, fun _ => trivial⟩, fun part => ⟨fun w shallow => ?_⟩⟩
    unfold TracksFrom
    rw [machineWithout, machineWithout, Calls.run_without, Calls.run_without, on_except, on_except]
    by_cases taken : stop' part w
    · rw [if_pos taken]
      exact .inr ⟨rfl, trivial⟩
    · rw [if_neg taken, if_neg fun first => taken (more part w first)]
      exact tracksFrom_above part shallow fun _ _ _ _ _ _ _ => trivial

/-- A run that does not run out of steps is the same run with more steps and no parts taken away. -/
theorem run_machine_of_run_machineWithout {p : Program} {m n : Nat}
    (fewer : m ≤ n) (part : Part) (w : World)
    (ends : (((machineWithout p stop m).run part).on w).1 ≠ .error .exhausted) :
    ((machine p n).run part).on w = ((machineWithout p stop m).run part).on w := by
  have tracked : TracksCalls w.depth anyEnd (machineWithout p (fun _ _ => False) n) (machineWithout p stop m) :=
    tracks_machineWithout p (fun _ _ => False.elim) w.depth fewer
  rw [machineWithout_none] at tracked
  rcases (tracked.run part).tracks w (Nat.le_max_right _ _) with same | ⟨stopped, -⟩
  · exact same.symm
  · exact absurd stopped ends

/-! ## Steps enough -/

/-- How something ends, given steps enough. -/
def RunsTo (p : Program) (part : Part) (w : World) (ended : Except Unwind part.Result × World) : Prop :=
  ended.1 ≠ .error .exhausted ∧ ∃ n, ((machine p n).run part).on w = ended

/-- More steps change nothing. -/
theorem RunsTo.at_least {p : Program} {part : Part} {ended : Except Unwind part.Result × World}
    (h : RunsTo p part w ended) : ∃ n, ∀ m, n ≤ m → ((machine p m).run part).on w = ended := by
  obtain ⟨ends, n, rfl⟩ := h
  refine ⟨n, fun m more => ?_⟩
  rw [← machineWithout_none] at ends
  have kept := run_machine_of_run_machineWithout more part w ends
  rwa [machineWithout_none] at kept

end JavaEdit
