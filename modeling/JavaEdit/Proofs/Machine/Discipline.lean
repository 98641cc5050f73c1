import JavaEdit.Proofs.Machine.Parts

/-!
# Blocks, calls and printed text

Whatever the machine runs, and however that ends, what was going on around it can be resumed. And no
part of a run starts deeper in calls than the limit: a machine that could not run such parts would do
the very same (`runs_resume_within_limit`).
-/

namespace JavaEdit

open Run

def noEnd : Except Unwind Unit → Prop := fun _ => False

instance : Lasting noEnd := ⟨False.elim, fun _ => False.elim⟩

/-- The parts that start deeper in calls than `limit`. -/
def deeperThan (limit : Nat) : Part → World → Prop := fun _ w => limit < w.depth

/-- Parts that start too deep are not missed, at any level of the machine. -/
theorem tracks_withoutDeep (p : Program) (b n : Nat) :
    TracksCalls b noEnd (machine p n) (machineWithout p (deeperThan (max callLimit b)) n) := by
  induction n with
  | zero => exact ⟨.inl rfl, fun _ => ⟨fun _ _ => .inl rfl⟩⟩
  | succ n ih =>
    refine ⟨.inl (steps_machineWithout ..), fun part => ⟨fun w shallow => ?_⟩⟩
    -- the world is not too deep, so this part is not taken away; those that it runs are not either
    have present : ¬ deeperThan (max callLimit b) part w := Nat.not_lt.mpr shallow
    unfold TracksFrom
    rw [machineWithout, Calls.run_without, on_except, if_neg present, machine_succ]
    exact tracksFrom_above part shallow fun _ _ _ _ _ _ => False.elim

/-- However an expression, a statement, a method or a constructor ends, the frame has its blocks, the
outer ones with their names, as many calls are open as before, and what was printed is still the
beginning of the output. On the way no part starts deeper than the limit of calls, or than the whole
does: taking all such parts away changes nothing. -/
theorem runs_resume_within_limit (p : Program) (n : Nat) (part : Part) (w : World) :
    w.Resumes (((machine p n).run part).on w).2 ∧
      ((machineWithout p (deeperThan (max callLimit w.depth)) n).run part).on w =
        ((machine p n).run part).on w := by
  have tidy : Tidy ((machine p n).run part) := inferInstance
  refine ⟨tidy.resumes w, ?_⟩
  rcases ((tracks_withoutDeep p w.depth n).run part).tracks w (Nat.le_max_right _ _) with same | ⟨-, ended⟩
  · exact same
  · exact ended.elim

end JavaEdit
