/-!
# Outcomes of computations with state and failure

Parsers and edits are computations that change a state and may fail, keeping the state they
reached. `Ends p s good bad` says where the run of `p` from `s` ends: with a value and a state that
satisfy `good`, or with a failure and a state that satisfy `bad`. One equation for each way to put
computations together takes such statements apart.
-/

namespace JavaEdit

variable {ε σ α β : Type}

/-- The run of `p` from `s` ends well in `good`, or fails in `bad`. -/
def Ends (p : ExceptT ε (StateM σ) α) (s : σ) (good : α → σ → Prop) (bad : ε → σ → Prop) :
    Prop :=
  match p.run.run s with
  | (.ok x, s') => good x s'
  | (.error e, s') => bad e s'

variable {s : σ} {good : α → σ → Prop} {bad : ε → σ → Prop} {x : α}

@[simp] theorem ends_pure : Ends (pure x : ExceptT ε (StateM σ) α) s good bad ↔ good x s := Iff.rfl

@[simp] theorem ends_throw {e : ε} : Ends (throw e : ExceptT ε (StateM σ) α) s good bad ↔ bad e s := Iff.rfl

@[simp] theorem ends_get {good : σ → σ → Prop} : Ends (get : ExceptT ε (StateM σ) σ) s good bad ↔ good s s := Iff.rfl

@[simp] theorem ends_set {s' : σ} {good : PUnit → σ → Prop} :
    Ends (set s' : ExceptT ε (StateM σ) PUnit) s good bad ↔ good ⟨⟩ s' := Iff.rfl

@[simp] theorem ends_modify {f : σ → σ} {good : PUnit → σ → Prop} :
    Ends (modify f : ExceptT ε (StateM σ) PUnit) s good bad ↔ good ⟨⟩ (f s) := Iff.rfl

variable {p : ExceptT ε (StateM σ) α} {f : α → ExceptT ε (StateM σ) β}

/-- A sequence ends where its second part ends from where the first part ended. -/
@[simp] theorem ends_bind {good : β → σ → Prop} :
    Ends (p >>= f) s good bad ↔ Ends p s (fun x s' => Ends (f x) s' good bad) bad := by
  have run : (p >>= f).run.run s = match p.run.run s with
      | (.ok x, s') => (f x).run.run s'
      | (.error e, s') => (.error e, s') := by
    have step : (p >>= f).run.run s = StateT.run (ExceptT.bindCont f (p.run.run s).1) (p.run.run s).2 := rfl
    rw [step]
    cases p.run.run s with
    | mk outcome s' => cases outcome <;> rfl
  unfold Ends
  rw [run]
  cases p.run.run s with
  | mk outcome s' => cases outcome <;> rfl

@[simp] theorem ends_map {f : α → β} {good : β → σ → Prop} :
    Ends (f <$> p) s good bad ↔ Ends p s (fun x s' => good (f x) s') bad := by
  rw [map_eq_pure_bind, ends_bind]
  exact Iff.rfl

@[simp] theorem ends_ite {c : Prop} [Decidable c] {q : ExceptT ε (StateM σ) α} :
    Ends (if c then p else q) s good bad ↔
      if c then Ends p s good bad else Ends q s good bad := by
  split <;> exact Iff.rfl

/-- A failure told in other words. -/
@[simp] theorem ends_adapt {ε' : Type} {f : ε → ε'} {bad : ε' → σ → Prop} :
    Ends (p.adapt f) s good bad ↔ Ends p s good fun e s' => bad (f e) s' := by
  have run : (p.adapt f).run.run s = ((p.run.run s).1.mapError f, (p.run.run s).2) := rfl
  unfold Ends
  rw [run]
  cases p.run.run s with
  | mk outcome s' => cases outcome <;> rfl

/-- What cannot fail ends well. -/
@[simp] theorem ends_monadLift {p : StateM σ α} :
    Ends (monadLift p : ExceptT ε (StateM σ) α) s good bad ↔ good (p.run s).1 (p.run s).2 :=
  Iff.rfl

variable {good' : α → σ → Prop} {bad' : ε → σ → Prop}

theorem Ends.mono
    (h : Ends p s good bad) (hgood : ∀ x s', good x s' → good' x s')
    (hbad : ∀ e s', bad e s' → bad' e s') : Ends p s good' bad' := by
  unfold Ends at h ⊢
  cases hrun : p.run.run s with
  | mk outcome s' =>
    rw [hrun] at h
    cases outcome with
    | ok x => exact hgood x s' h
    | error e => exact hbad e s' h

theorem Ends.imp (h : Ends p s good bad)
    (hgood : ∀ x s', good x s' → good' x s') : Ends p s good' bad :=
  h.mono hgood fun _ _ => id

/-- Both of two ends of the same run. -/
theorem Ends.and
    (h : Ends p s good bad) (h' : Ends p s good' bad') :
    Ends p s (fun x s' => good x s' ∧ good' x s') fun e s' => bad e s' ∧ bad' e s' := by
  unfold Ends at h h' ⊢
  cases hrun : p.run.run s with
  | mk outcome s' =>
    rw [hrun] at h h'
    cases outcome <;> exact ⟨h, h'⟩

/-- The second part of a sequence, from every place where the first part may end. -/
theorem Ends.bind
    {good : β → σ → Prop} {middle : α → σ → Prop} (h : Ends p s middle bad)
    (next : ∀ x s', middle x s' → Ends (f x) s' good bad) : Ends (p >>= f) s good bad :=
  ends_bind.mpr (h.imp next)

/-- Two ways to one continuation. -/
theorem Ends.either {c : Prop} [Decidable c] {q : ExceptT ε (StateM σ) α} {good : β → σ → Prop}
    (middle : α → σ → Prop) (first : c → Ends p s middle bad) (second : ¬ c → Ends q s middle bad)
    (next : ∀ x s', middle x s' → Ends (f x) s' good bad) : Ends (if c then p >>= f else q >>= f) s good bad := by
  split
  · exact (first ‹c›).bind next
  · exact (second ‹¬ c›).bind next

variable {run : Except ε α × σ}

theorem run_eq_of_ok (outcome : run.1 = .ok x) : run = (.ok x, run.2) :=
  Prod.ext outcome rfl

theorem run_eq_of_toOption (found : run.1.toOption = some x) : run = (.ok x, run.2) := by
  obtain ⟨outcome, s⟩ := run
  cases outcome <;> cases found
  rfl

/-- How an outcome failed, if it did. -/
def failure? : Except ε α → Option ε
  | .ok _ => none
  | .error e => some e

theorem eq_error_of_failure? {outcome : Except ε α} {e : ε} (failed : failure? outcome = some e) : outcome = .error e := by
  cases outcome with
  | ok => cases failed
  | error => exact congrArg _ (Option.some.inj failed)

theorem exists_ok_of_isOk {outcome : Except ε α} (well : outcome.isOk) : ∃ x, outcome = .ok x := by
  cases outcome with
  | ok x => exact ⟨x, rfl⟩
  | error => cases well

theorem Ends.run_eq
    (h : Ends p s (fun x s' => (.ok x, s') = run) fun e s' => (.error e, s') = run) : p.run.run s = run := by
  unfold Ends at h
  cases hrun : p.run.run s with
  | mk outcome s' =>
    rw [hrun] at h
    cases outcome <;> exact h

theorem Ends.of_ok (h : Ends p s good bad) {s' : σ}
    (run : p.run.run s = (.ok x, s')) : good x s' := by
  unfold Ends at h
  rwa [run] at h

theorem Ends.exists_ok (h : Ends p s good bad) (safe : ∀ e s', ¬ bad e s') :
    ∃ x s', p.run.run s = (.ok x, s') ∧ good x s' := by
  unfold Ends at h
  cases run : p.run.run s with
  | mk outcome s' =>
    rw [run] at h
    cases outcome with
    | ok x => exact ⟨x, s', rfl, h⟩
    | error e => exact absurd h (safe e s')

theorem Ends.state {P : σ → Prop}
    (h : Ends p s (fun _ s' => P s') fun _ s' => P s') : P (p.run.run s).2 := by
  unfold Ends at h
  cases hrun : p.run.run s with
  | mk outcome s' =>
    rw [hrun] at h
    cases outcome <;> exact h

end JavaEdit
