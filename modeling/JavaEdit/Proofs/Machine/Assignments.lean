import JavaEdit.Proofs.Machine.Parts

/-!
# Compound assignments

The left side of an assignment is looked up once. For a name that is as good as reading the name: nothing
happens between the two, so `x op= e` is `x = x op e` (`compound_assignments_expand`), whatever `e` does.
-/

namespace JavaEdit

open Run

variable {p : Program} {w : World}

theorem Run.on_get_bind {β : Type} (k : World → Run β) (w : World) : (get >>= k).on w = (k w).on w := rfl

/-- The place that a name stands for is found without changing anything, and what is there is what the name has. -/
theorem Run.on_placeOfName (p : Program) (x : String) (w : World) : ∃ found, (placeOfName p x).on w = (found, w) ∧
    ∀ place, found = .ok place → (readPlace p place).on w = (readName p x).on w := by
  unfold placeOfName
  rw [on_get_bind]
  split
  · refine ⟨_, rfl, ?_⟩
    rintro place ⟨⟩
    rfl
  · rename_i noLocal
    have noSlot : w.frame.slot? x = none := by simpa using noLocal
    split
    · rename_i ref found
      obtain ⟨this, has⟩ := Option.filter_eq_some_iff.mp found
      obtain ⟨value, is⟩ := Option.isSome_iff_exists.mp has
      have field : w.fieldOfThis? x = some value := by rw [World.fieldOfThis?, this, Option.bind_some, is]
      refine ⟨_, rfl, ?_⟩
      rintro place ⟨⟩
      rw [readPlace, readName, on_get_bind, on_get_bind, noSlot, field, is]
    · rename_i noField
      have none : w.fieldOfThis? x = none := by
        unfold World.fieldOfThis?
        cases this : w.frame.this with
        | none => rfl
        | some ref => simpa [this] using noField
      unfold readName
      rw [on_get_bind, noSlot, none]
      dsimp only
      cases w.staticOwner? p w.frame.className x with
      | none =>
        refine ⟨_, rfl, ?_⟩
        rintro place ⟨⟩
      | some owner =>
        refine ⟨_, rfl, ?_⟩
        rintro place ⟨⟩
        rfl

/-- Expressions that do the same, step by step, end in the same way. -/
theorem runsTo_eval_congr {t t' : Tree Unit} {k l : Nat}
    (same : ∀ n, ((machine p (n + k)).eval t).on w = ((machine p (n + l)).eval t').on w)
    (ended : Except Unwind Value × World) : RunsTo p (.eval t) w ended ↔ RunsTo p (.eval t') w ended := by
  constructor
  · intro h
    obtain ⟨n, all⟩ := h.at_least
    exact ⟨h.1, n + l, (same n).symm.trans (all _ (Nat.le_add_right ..))⟩
  · intro h
    obtain ⟨n, all⟩ := h.at_least
    exact ⟨h.1, n + k, (same n).trans (all _ (Nat.le_add_right ..))⟩

/-- `x op= e`, or `x = e`. -/
def assignment (operator : Option BinaryOperator) (x : String) (e : Tree Unit) : Tree Unit :=
  .node () (.assignment operator (.node () (.name x)) e)

theorem eval_compound {op : BinaryOperator} (compound : op.isCompound = true) (x : String) (e : Tree Unit) (n : Nat) :
    ((machine p (n + 2)).eval (assignment (some op) x e)).on w =
      ((machine p (n + 3)).eval (assignment none x (.node () (.binary op (.node () (.name x)) e)))).on w := by
  obtain ⟨found, looked, reads⟩ := Run.on_placeOfName p x w
  show (placeOfName p x >>= fun place => readPlace p place >>= fun old => (machine p (n + 1)).eval e >>= fun right =>
      binary p (machine p (n + 1)) op old right >>= fun new => writePlace place new).on w =
    (placeOfName p x >>= fun place => (machine p (n + 2)).eval _ >>= fun new => writePlace place new).on w
  rw [on_bind, on_bind, looked]
  cases found with
  | error e => rfl
  | ok place =>
    have expanded : (machine p (n + 2)).eval (.node () (.binary op (.node () (.name x)) e)) =
        (readName p x >>= fun old => (machine p (n + 1)).eval e >>= binary p (machine p (n + 1)) op old) := by
      cases op <;> first | rfl | cases compound
    dsimp only
    rw [expanded, bind_assoc, on_bind, on_bind, reads place rfl]
    simp only [bind_assoc]

/-- `++x` or `--x`. -/
def stepping (up : Bool) (x : String) : Tree Unit :=
  .node () (.unary (if up then .preInc else .preDec) (.node () (.name x)))

theorem eval_stepping (up : Bool) (x : String) (n : Nat) : (machine p (n + 2)).eval (stepping up x) =
    (machine p (n + 2)).eval (assignment (some (if up then .plus else .minus)) x (.node () (.literal (.int 1)))) := by
  cases up <;>
  · show (placeOfName p x >>= fun place => readPlace p place >>= fun old =>
      binary p (machine p (n + 1)) _ old (.int 1) >>= fun new => writePlace place new >>= pure) = _
    simp only [bind_pure]
    rfl

/-- A compound assignment to a name ends as its expansion does, with the same value, exception or fault
and in the same world; and `++x` and `--x` end as `x += 1` and `x -= 1`. -/
theorem compound_assignments_expand (p : Program) (w : World) (x : String) (ended : Except Unwind Value × World) :
    (∀ op e, op.isCompound = true → (RunsTo p (.eval (assignment (some op) x e)) w ended ↔
      RunsTo p (.eval (assignment none x (.node () (.binary op (.node () (.name x)) e)))) w ended)) ∧
    ∀ up, RunsTo p (.eval (stepping up x)) w ended ↔
      RunsTo p (.eval (assignment (some (if up then .plus else .minus)) x (.node () (.literal (.int 1))))) w ended :=
  ⟨fun _ e compound => runsTo_eval_congr (eval_compound compound x e) ended,
    fun up => runsTo_eval_congr (k := 2) (l := 2) (fun n => by rw [eval_stepping]) ended⟩

/-- A world where the local variable `x` holds a number. -/
def oneWorld (value : Int32) : World := { World.start with frame := ⟨none, "", [[("x", ⟨.int value, none⟩)]]⟩ }

/-- From 3, `x = x - (x = 1)` leaves 2, as `x -= (x = 1)` does. -/
theorem compound_assignments_expand_inner : RunsTo ⟨[]⟩ (.eval (assignment none "x" (.node () (.binary .minus
    (.node () (.name "x")) (assignment none "x" (.node () (.literal (.int 1)))))))) (oneWorld 3)
    (.ok (.int 2), oneWorld 2) :=
  ((compound_assignments_expand ⟨[]⟩ (oneWorld 3) "x" _).1 .minus _ rfl).mp ⟨nofun, 5, rfl⟩

end JavaEdit
