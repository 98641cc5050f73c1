import JavaEdit.Proofs.Machine.Parts

/-!
# Faults

Rules go on after a result and catch clauses take what is thrown, but nothing takes a fault: once a
part of a run ends in one, so does all that the part belongs to. The one exception is a `finally`. It
is run while the fault is pending, and unless it ends normally the fault is dropped and the statement
ends as the `finally` does. So a fault that a run meets is the end of the run, or the run meets such a
`finally` (`faults_surface_or_are_overridden`).
-/

namespace JavaEdit

open Run

variable {block : Tree Unit} {f : Fault} {w : World}

def endsInFault (p : Program) (n : Nat) (f : Fault) : Part → World → Prop := fun part w =>
  (((machine p n).run part).on w).1 = .error (.fault f)

/-- The statements with a `finally` that starts with a fault pending and does not end normally. -/
def overridesFault (p : Program) (n : Nat) (f : Fault) : Part → World → Prop := fun part w =>
  ∃ t body catchers block w', part = .exec t ∧ t.kind = .tryStmt body catchers (some block) ∧
    (guarded p (machine p n) body catchers).on w = (.error (.fault f), w') ∧
    ∀ w'', ((machine p n).exec block).on w' ≠ (.ok .normal, w'')

/-- The parts that end in a fault or override one. -/
def touchesFault (p : Program) (n : Nat) (f : Fault) : Part → World → Prop := fun part w =>
  endsInFault p n f part w ∨ overridesFault p n f part w

theorem faultEnd_ending_iff {α : Type} {outcome : Except Unwind α} :
    faultEnd (· = f) (ending outcome) ↔ outcome = .error .exhausted ∨ outcome = .error (.fault f) := by
  match outcome with
  | .ok a => exact ⟨nofun, nofun⟩
  | .error (.thrown v) => exact ⟨nofun, nofun⟩
  | .error .exhausted => exact ⟨fun _ => .inl rfl, fun _ => trivial⟩
  | .error (.fault g) =>
    refine ⟨fun same => .inr (congrArg _ (congrArg _ same)), fun ends => ?_⟩
    rcases ends with ends | ends
    · cases ends
    · cases ends
      rfl

theorem finalize_fault {c : Calls} {w' : World} (ends : (c.exec block).on w = (.ok .normal, w')) :
    ((finalize c (some block) (.error (.fault f))).on w).1 = .error (.fault f) := by
  show ((c.exec block >>= _ : Run Flow).on w).1 = _
  rw [on_bind, ends]
  rfl

/-- A `finally` that is out of steps leaves nothing else. -/
theorem finalize_exhausted {c : Calls} (ends : ((c.exec block).on w).1 = .error .exhausted) :
    ((finalize c (some block) (.error (.fault f))).on w).1 = .error .exhausted := by
  show ((c.exec block >>= _ : Run Flow).on w).1 = _
  rw [on_bind]
  cases run : (c.exec block).on w with
  | mk outcome w' =>
    rw [run] at ends
    cases ends
    rfl

section

variable {p : Program} {n : Nat} {f : Fault}

/-- A statement with a `finally` that does not override a fault ends in the fault that is pending, at
every level of the machine that has the steps for it. -/
theorem faultEnd_of_not_overridesFault {stop : Part → World → Prop} {k : Nat} (fewer : k ≤ n)
    {t body : Tree Unit} {catchers : List (Tree Unit)}
    (kind : t.kind = .tryStmt body catchers (some block)) (kept : ¬ overridesFault p n f (.exec t) w)
    (pending : faultEnd (· = f) (ending ((guarded p (machineWithout p stop k) body catchers).on w).1)) :
    faultEnd (· = f) (ending ((execRule p (machineWithout p stop k) t).on w).1) := by
  have below : TracksCalls w.depth anyEnd (machine p n) (machineWithout p stop k) := by
    rw [← machineWithout_none]
    exact tracks_machineWithout p (fun _ _ => False.elim) w.depth fewer
  have guards : Steady w.depth anyEnd (guarded p (machine p n) body catchers)
      (guarded p (machineWithout p stop k) body catchers) := inferInstance
  have itself : Steady 0 anyEnd (guarded p (machineWithout p stop k) body catchers)
      (guarded p (machineWithout p stop k) body catchers) := inferInstance
  have level := (itself.tidy.resumes w).depth
  unfold execRule
  rw [kind]
  show faultEnd _ (ending ((attempt (guarded p _ body catchers) >>= finalize _ (some block)).on w).1)
  rw [on_bind, on_attempt]
  rcases faultEnd_ending_iff.mp pending with spent | faulty
  · rw [spent]
    exact trivial
  · -- the fault is pending in the full machine too, so its `finally` ends normally
    rw [faulty]
    obtain ⟨w', run⟩ : ∃ w', (guarded p (machineWithout p stop k) body catchers).on w = (.error (.fault f), w') :=
      ⟨_, Prod.ext faulty rfl⟩
    rw [run] at level ⊢
    have full : (guarded p (machine p n) body catchers).on w = (.error (.fault f), w') := by
      rcases guards.tracks.tracks w (Nat.le_max_right _ _) with same | ⟨stopped, -⟩
      · rw [← same, run]
      · rw [run] at stopped
        cases stopped
    obtain ⟨w'', normal⟩ : ∃ w'', ((machine p n).exec block).on w' = (.ok .normal, w'') :=
      Classical.byContradiction fun jumps =>
        kept ⟨t, body, catchers, block, w', rfl, kind, full, fun w'' ends => jumps ⟨w'', ends⟩⟩
    refine faultEnd_ending_iff.mpr ?_
    rcases (below.run (.exec block)).tracks w' (level ▸ Nat.le_max_right _ _) with same | ⟨stopped, -⟩
    · exact .inr (finalize_fault (same.trans normal))
    · exact .inl (finalize_exhausted stopped)

/-- Where no fault is overridden, taking the parts that end in a fault away only stops runs that end
in this fault. -/
theorem tracks_withoutFaults (b : Nat) {k : Nat} (fewer : k ≤ n) :
    TracksCalls b (faultEnd (· = f)) (machineWithout p (overridesFault p n f) k)
      (machineWithout p (touchesFault p n f) k) := by
  induction k with
  | zero => exact ⟨.inl rfl, fun _ => ⟨fun _ _ => .inl rfl⟩⟩
  | succ k ih =>
    have below := ih (by omega)
    have steps := (steps_machineWithout p (touchesFault p n f) (k + 1)).trans
      (steps_machineWithout p (overridesFault p n f) (k + 1)).symm
    refine ⟨.inl steps, fun part => ⟨fun w shallow => ?_⟩⟩
    unfold TracksFrom
    by_cases overridden : overridesFault p n f part w
    · rw [machineWithout, machineWithout, Calls.run_without, Calls.run_without, on_except, on_except,
        if_pos overridden, if_pos (show touchesFault p n f part w from .inr overridden)]
      exact .inl rfl
    by_cases faulty : endsInFault p n f part w
    · -- the part ends in the fault, if it has the steps for it
      refine .inr ⟨?_, faultEnd_ending_iff.mpr ?_⟩
      · rw [machineWithout, Calls.run_without, on_except, if_pos (show touchesFault p n f part w from .inl faulty)]
      · refine (Classical.em _).imp_right fun ends => ?_
        rw [← run_machine_of_run_machineWithout fewer part w ends]
        exact faulty
    · have present : ¬ touchesFault p n f part w := not_or.mpr ⟨faulty, overridden⟩
      rw [machineWithout, machineWithout, Calls.run_without, Calls.run_without, on_except, on_except,
        if_neg overridden, if_neg present]
      refine tracksFrom_above part shallow fun t _ _ _ is kind pending => ?_
      exact faultEnd_of_not_overridesFault (by omega) kind (is ▸ overridden) pending

theorem endsInFault_or_meets_overridesFault {whole : Part} (meets : Meets p n whole w (endsInFault p n f)) :
    endsInFault p n f whole w ∨ Meets p n whole w (overridesFault p n f) := by
  obtain ⟨ends, stops⟩ := meets
  -- without the faults the run stops, so it does without faults and overriding statements
  have both : (((machineWithout p (touchesFault p n f) n).run whole).on w).1 = .error .exhausted := by
    have fewer : TracksCalls w.depth anyEnd (machineWithout p (endsInFault p n f) n)
        (machineWithout p (touchesFault p n f) n) :=
      tracks_machineWithout p (fun _ _ => .inl) w.depth (Nat.le_refl n)
    rcases (fewer.run whole).tracks w (Nat.le_max_right _ _) with same | ⟨stopped, -⟩
    · rw [same, stops]
    · exact stopped
  -- so without the overriding statements it stops too, or it ends in the fault
  have without : (((machineWithout p (overridesFault p n f) n).run whole).on w).1 = .error .exhausted ∨
      (((machineWithout p (overridesFault p n f) n).run whole).on w).1 = .error (.fault f) := by
    rcases ((tracks_withoutFaults w.depth (Nat.le_refl n)).run whole).tracks w (Nat.le_max_right _ _) with
      same | ⟨-, ended⟩
    · exact .inl (by rw [← same, both])
    · exact faultEnd_ending_iff.mp ended
  rcases without with spent | faulty
  · exact .inr ⟨ends, spent⟩
  · left
    have whole_run := run_machine_of_run_machineWithout (Nat.le_refl n) whole w
      (by rw [faulty]; exact nofun : (((machineWithout p (overridesFault p n f) n).run whole).on w).1 ≠ _)
    rw [endsInFault, whole_run, faulty]

end

theorem invoke_of_endsInFault {i : Instance} {method : String} {args : List Value} {owner : String} {m : MethodInfo}
    (found : i.program.findMethod? i.world.classOf (i.world.classOf i.object) method args = some (owner, m))
    (faulty : endsInFault i.program machineSteps f (.method (some i.object) owner m args) { i.world with depth := 0 }) :
    (i.invoke method args).1 = .error (.fault f) := by
  unfold endsInFault at faulty
  unfold Instance.invoke
  generalize machineSteps = n at faulty ⊢
  cases run : ((machine i.program n).run (.method (some i.object) owner m args)).on { i.world with depth := 0 } with
  | mk outcome w' =>
    rw [run] at faulty
    cases faulty
    have ended : ((machine i.program n).method (some i.object) owner m args).on { i.world with depth := 0 } = _ := run
    simp only [found, ended]
    rfl

/-- Whatever is run, a fault that one of its parts ends in is how the whole ends, and a method that is
called on an instance reports it; unless the run meets a `finally` that was run for the fault and ended
otherwise than normally. -/
theorem faults_surface_or_are_overridden (f : Fault) :
    (∀ p n whole w, Meets p n whole w (endsInFault p n f) →
      (((machine p n).run whole).on w).1 = .error (.fault f) ∨ Meets p n whole w (overridesFault p n f)) ∧
    ∀ (i : Instance) (method : String) (args : List Value) (owner : String) (m : MethodInfo),
      i.program.findMethod? i.world.classOf (i.world.classOf i.object) method args = some (owner, m) →
      Meets i.program machineSteps (.method (some i.object) owner m args) { i.world with depth := 0 }
        (endsInFault i.program machineSteps f) →
      (i.invoke method args).1 = .error (.fault f) ∨
        Meets i.program machineSteps (.method (some i.object) owner m args) { i.world with depth := 0 }
          (overridesFault i.program machineSteps f) := by
  refine ⟨fun p n whole w meets => endsInFault_or_meets_overridesFault meets, ?_⟩
  intro i method args owner m found meets
  exact (endsInFault_or_meets_overridesFault meets).imp_left (invoke_of_endsInFault found)

/-- A block that returns the value of an expression. -/
def returning (value : Tree Unit) : Tree Unit := .node () (.block [.node () (.returnStmt (some value))])

/-- `try { return y; } finally { return 1; }` -/
def overridingReturn : Tree Unit :=
  .node () (.tryStmt (returning (.node () (.name "y"))) [] (some (returning (.node () (.literal (.int 1))))))

theorem run_overridingReturn :
    (((machine ⟨[]⟩ 6).run (.exec overridingReturn)).on .start).1 = .ok (.returned (.int 1)) := rfl

theorem meets_overridingReturn :
    Meets ⟨[]⟩ 6 (.exec overridingReturn) .start (endsInFault ⟨[]⟩ 6 (.unknownVariable "y")) := by
  have whole : ¬ endsInFault ⟨[]⟩ 6 (.unknownVariable "y") (.exec overridingReturn) .start := nofun
  refine ⟨by rw [run_overridingReturn]; exact nofun, ?_⟩
  rw [machineWithout, Calls.run_without, on_except, if_neg whole]
  -- the block in front of the `finally` ends in the fault, so it is what stops the run
  generalize below : machineWithout ⟨[]⟩ (endsInFault ⟨[]⟩ 6 (.unknownVariable "y")) 5 = c
  have stopped : (c.exec (returning (.node () (.name "y")))).on .start = (.error .exhausted, .start) := by
    have faulty : endsInFault ⟨[]⟩ 6 (.unknownVariable "y") (.exec (returning (.node () (.name "y")))) .start := rfl
    rw [← below, machineWithout]
    exact (on_except _ _ _).trans (if_pos faulty)
  show ((attempt (attempt (c.exec (returning (.node () (.name "y")))) >>= _) >>= finalize c _).on .start).1 = _
  rw [on_bind, on_attempt, on_bind, on_attempt, stopped]
  rfl

/-- The fault of an unknown name is dropped for the value of the `finally`. -/
theorem faults_surface_or_are_overridden_return :
    Meets ⟨[]⟩ 6 (.exec overridingReturn) .start (endsInFault ⟨[]⟩ 6 (.unknownVariable "y")) ∧
      Meets ⟨[]⟩ 6 (.exec overridingReturn) .start (overridesFault ⟨[]⟩ 6 (.unknownVariable "y")) := by
  refine ⟨meets_overridingReturn, ?_⟩
  rcases (faults_surface_or_are_overridden _).1 _ _ _ _ meets_overridingReturn with faulty | meets
  · rw [run_overridingReturn] at faulty
    cases faulty
  · exact meets

/-- A fault of a part need not be the end of the whole. -/
theorem fault_hidden_by_finally :
    Meets ⟨[]⟩ 6 (.exec overridingReturn) .start (endsInFault ⟨[]⟩ 6 (.unknownVariable "y")) ∧
      (((machine ⟨[]⟩ 6).run (.exec overridingReturn)).on .start).1 = .ok (.returned (.int 1)) :=
  ⟨meets_overridingReturn, run_overridingReturn⟩

end JavaEdit
