import JavaEdit.Machine.Run

/-!
# What a run leaves behind

However a part of a run ends, what was going on around it can be resumed: the frame has the blocks
it had, those around the innermost one declare the names they declared, as many calls are open as
before, and nothing that was printed is lost (`World.Resumes`). A run is tidy if it ends in such a
world from every world. Parts of the machine are tidy because the parts they are made of are, so
most of them are passed over by instance search; the work is in the few places where a block or a
call is opened.
-/

namespace JavaEdit

open List

variable {name : String}

/-- The names that a block declares. -/
def Scope.names (s : Scope) : List String := s.map Prod.fst

/-- What goes on in a world can be resumed in another one. -/
structure World.Resumes (w w' : World) : Prop where
  /-- No block is left open, and none is closed. -/
  blocks : w'.frame.scopes.length = w.frame.scopes.length
  /-- Blocks around the innermost one declare what they declared. -/
  outer : w'.frame.scopes.tail.map Scope.names = w.frame.scopes.tail.map Scope.names
  /-- As many calls are open. -/
  depth : w'.depth = w.depth
  /-- What was printed is the beginning of what is printed now. -/
  output : w.output.toList <+: w'.output.toList

namespace World.Resumes

variable {w w' w'' : World}

theorem refl (w : World) : w.Resumes w := ⟨rfl, rfl, rfl, prefix_refl _⟩

theorem trans (h : w.Resumes w') (h' : w'.Resumes w'') : w.Resumes w'' where
  blocks := h'.blocks.trans h.blocks
  outer := h'.outer.trans h.outer
  depth := h'.depth.trans h.depth
  output := h.output.trans h'.output

/-- Changes of the heap and of static fields are none of the frame. -/
theorem of_eq (frame : w'.frame = w.frame) (depth : w'.depth = w.depth) (output : w'.output = w.output) :
    w.Resumes w' :=
  ⟨by rw [frame], by rw [frame], depth, output ▸ prefix_refl _⟩

end World.Resumes

/-! ## Blocks -/

theorem Scope.names_insert_of_get? {s : Scope} {slot old : Slot}
    (bound : s.get? name = some old) : (s.insert name slot).names = s.names := by
  unfold Scope.get? at bound
  induction s with
  | nil => cases bound
  | cons entry rest ih =>
    obtain ⟨key, value⟩ := entry
    unfold Scope.insert
    by_cases same : (name == key) = true
    · rw [if_pos same, names, names, map_cons, map_cons, beq_iff_eq.mp same]
    · rw [if_neg same]
      rw [lookup_cons, Bool.eq_false_iff.mpr same] at bound
      exact congrArg (key :: ·) (ih bound)

theorem Frame.names_storeIn (name : String) (value : Value) (scopes : List Scope) :
    (storeIn name value scopes).map Scope.names = scopes.map Scope.names := by
  induction scopes with
  | nil => rfl
  | cons s rest ih =>
    unfold storeIn
    split
    · rename_i slot bound
      rw [map_cons, Scope.names_insert_of_get? bound, map_cons]
    · rw [map_cons, ih, map_cons]

theorem World.resumes_storeIn (w : World) (name : String) (value : Value) :
    w.Resumes { w with frame := { w.frame with scopes := Frame.storeIn name value w.frame.scopes } } where
  blocks := by simpa using congrArg List.length (Frame.names_storeIn name value w.frame.scopes)
  outer := by simpa using congrArg List.tail (Frame.names_storeIn name value w.frame.scopes)
  depth := rfl
  output := prefix_refl _

/-- A declaration reaches the innermost block only. -/
theorem World.resumes_declare (w : World) (name : String) (slot : Slot) :
    w.Resumes { w with frame := w.frame.declare name slot } := by
  obtain ⟨⟨this, className, scopes⟩, statics, objects, arrays, output, depth⟩ := w
  cases scopes <;> exact ⟨rfl, rfl, rfl, prefix_refl _⟩

theorem World.resumes_output (w : World) (text : String) : w.Resumes { w with output := w.output ++ text } where
  blocks := rfl
  outer := rfl
  depth := rfl
  output := by simp

/-! ## Runs -/

namespace Run

variable {α β : Type} {args : List Value} {className : String} {info : ClassInfo} {p : Program}
    {ref : Nat} {value : Value}

/-- A sequence goes on in the world where its first part ended. -/
theorem on_bind (x : Run α) (k : α → Run β) (w : World) : (x >>= k).on w = match x.on w with
      | (.ok a, w') => (k a).on w'
      | (.error e, w') => (.error e, w') := by
  have step : (x >>= k).on w = StateT.run (ExceptT.bindCont k (x.on w).1) (x.on w).2 := rfl
  rw [step]
  cases x.on w with
  | mk outcome w' => cases outcome <;> rfl

/-- A run that leaves no block and no call open, however it ends. -/
class Tidy (x : Run α) : Prop where
  resumes : ∀ w : World, w.Resumes (x.on w).2

instance {a : α} : Tidy (pure a : Run α) := ⟨World.Resumes.refl⟩
instance {e : Unwind} : Tidy (throw e : Run α) := ⟨World.Resumes.refl⟩
instance : Tidy (get : Run World) := ⟨World.Resumes.refl⟩

variable {x : Run α}

theorem Tidy.bind {k : α → Run β} (hx : Tidy x) (hk : ∀ a, Tidy (k a)) : Tidy (x >>= k) where
  resumes w := by
    have first := hx.resumes w
    rw [on_bind]
    cases run : x.on w with
    | mk outcome w' =>
      rw [run] at first
      cases outcome with
      | ok a => exact first.trans ((hk a).resumes w')
      | error e => exact first

instance {k : α → Run β} [hx : Tidy x] [hk : ∀ a, Tidy (k a)] : Tidy (x >>= k) :=
  hx.bind hk

instance {c : Prop} [Decidable c] {y : Run α} [Tidy x] [Tidy y] : Tidy (if c then x else y) := by
  split <;> assumption

theorem Tidy.modify {f : World → World} (h : ∀ w : World, w.Resumes (f w)) : Tidy (modify f : Run PUnit) := ⟨h⟩

theorem Tidy.modifyGet {f : World → α × World} (h : ∀ w : World, w.Resumes (f w).2) : Tidy (modifyGet f : Run α) := ⟨h⟩

instance {o : HeapObject} : Tidy (modifyGet fun w => w.allocObject o : Run Nat) :=
  .modifyGet fun _ => .of_eq rfl rfl rfl

instance {items : Array Value} : Tidy (modifyGet fun w => w.allocArray items : Run Nat) :=
  .modifyGet fun _ => .of_eq rfl rfl rfl

variable {message : Option String}

instance :
    Tidy (modifyGet fun w => w.allocThrowable className message : Run Nat) :=
  .modifyGet fun _ => .of_eq rfl rfl rfl

instance : Tidy (modify fun w => w.setMessage ref message : Run PUnit) :=
  .modify fun _ => .of_eq rfl rfl rfl

instance {text : String} : Tidy (modify fun w => { w with output := w.output ++ text } : Run PUnit) :=
  .modify fun w => w.resumes_output text

instance {f : β → Run α} [∀ b, Tidy (f b)] {bs : List β} : Tidy (bs.mapM f) := by
  induction bs with
  | nil => exact inferInstanceAs (Tidy (pure _))
  | cons b rest ih => rw [mapM_cons]; infer_instance

instance {f : Fault} : Tidy (fault f : Run α) := inferInstanceAs (Tidy (throw _))

instance {t : Trap} : Tidy (trap t : Run α) := by unfold trap; infer_instance

instance {result : Except Upset α} : Tidy (ofExcept result) := by
  unfold ofExcept
  split <;> infer_instance

instance [hx : Tidy x] : Tidy (attempt x) := ⟨hx.resumes⟩

instance {outcome : Except Unwind α} : Tidy (resume outcome) := by
  unfold resume
  split <;> infer_instance

/-- The frame of before is back, whatever became of the other one. -/
instance {frame : Frame} [hx : Tidy x] : Tidy (inFrame frame x) where
  resumes w := by
    have inside := hx.resumes { w with frame }
    exact ⟨rfl, rfl, inside.depth, inside.output⟩

/-- A block that is opened is the innermost one; all others are around it. -/
instance [hx : Tidy x] : Tidy (inBlock x) where
  resumes w := by
    have inside := hx.resumes { w with frame := { w.frame with scopes := [] :: w.frame.scopes } }
    have names : ((inBlock x).on w).2.frame.scopes.map Scope.names = w.frame.scopes.map Scope.names :=
      inside.outer
    refine ⟨?_, ?_, inside.depth, inside.output⟩
    · simpa using congrArg List.length names
    · simpa using congrArg List.tail names

instance [hx : Tidy x] : Tidy (counted x) := by
  unfold counted
  refine .bind inferInstance fun _ => ?_
  split
  · infer_instance
  · refine ⟨fun w => ?_⟩
    have inside := hx.resumes { w with depth := w.depth + 1 }
    exact ⟨inside.blocks, inside.outer, Nat.sub_eq_of_eq_add inside.depth, inside.output⟩

instance {slot : Slot} : Tidy (declare name slot) :=
  .modify fun w => w.resumes_declare name slot

instance {v : Value} : Tidy (typeName v) := by unfold typeName; infer_instance

instance {x : Run (Option α)} [Tidy x] {steps : Nat} : Tidy (iterate x steps) := by
  induction steps with
  | zero => exact inferInstanceAs (Tidy (throw _))
  | succ steps ih =>
    rw [iterate]
    refine .bind inferInstance fun _ => ?_
    split <;> infer_instance

/-! ## Variables -/

instance : Tidy (readStatic className name) := by
  unfold readStatic
  refine .bind inferInstance fun _ => ?_
  split
  · infer_instance
  · split <;> infer_instance

instance : Tidy (readName p name) := by
  unfold readName
  refine .bind inferInstance fun _ => ?_
  split
  · infer_instance
  · split
    · infer_instance
    · split <;> infer_instance

instance : Tidy (placeOfName p name) := by
  unfold placeOfName
  refine .bind inferInstance fun _ => ?_
  split
  · infer_instance
  · split
    · infer_instance
    · split <;> infer_instance

instance {array index : Value} : Tidy (element array index) := by
  unfold element
  split
  · split <;> infer_instance
  · infer_instance
  · infer_instance

instance {place : Place} : Tidy (readPlace p place) := by
  unfold readPlace
  split
  · infer_instance
  · refine .bind inferInstance fun _ => ?_
    split <;> infer_instance
  · infer_instance
  · infer_instance

theorem Tidy.store {slot? : World → Option Slot} {put : World → Slot → World}
    (h : ∀ (w : World) slot, w.Resumes (put w slot)) : Tidy (do
      let w ← get
      match slot? w with
      | none => fault .undeclared
      | some slot =>
        set (put w slot)
        return (slot.store value).value : Run Value) where
  resumes w := by
    rw [on_bind]
    show w.Resumes (Run.on (match slot? w with
      | none => fault .undeclared
      | some slot => do
        set (put w slot)
        return (slot.store value).value) w).2
    split
    · exact .refl w
    · exact h w _

instance : Tidy (storeVariable name value) := .store fun w _ => w.resumes_storeIn name value
instance : Tidy (storeField ref name value) := .store fun _ _ => .of_eq rfl rfl rfl
instance : Tidy (storeStatic className name value) := .store fun _ _ => .of_eq rfl rfl rfl

instance {index : Nat} : Tidy (storeElement ref index value) := by
  unfold storeElement
  exact .bind inferInstance fun _ => .bind (.modify fun _ => .of_eq rfl rfl rfl) fun _ => inferInstance

instance {place : Place} : Tidy (writePlace place value) := by
  unfold writePlace
  split <;> infer_instance

/-! ## Looking up and converting -/

variable {parameters : List ParameterInfo} {type : TypeUse}

instance : Tidy (findMethod p className name args) := by
  unfold findMethod; infer_instance

instance : Tidy (packArguments parameters args) := by
  unfold packArguments; dsimp only; infer_instance

instance {pairs : List (ParameterInfo × Value)} : Tidy (declareAll pairs) := by
  induction pairs with
  | nil => exact inferInstanceAs (Tidy (pure _))
  | cons pair rest ih => rw [declareAll]; infer_instance

instance : Tidy (bindParameters parameters args) := by
  unfold bindParameters; infer_instance

instance : Tidy (selectConstructor p info args) := by
  unfold selectConstructor
  split
  · infer_instance
  · refine .bind inferInstance fun _ => ?_
    split <;> infer_instance

instance : Tidy (objectMethod p ref name args) := by
  unfold objectMethod
  refine .bind inferInstance fun _ => ?_
  dsimp only
  split <;> infer_instance

instance {around : List ClassInfo} : Tidy (findOuter p name args around) := by
  induction around with
  | nil => exact inferInstanceAs (Tidy (pure _))
  | cons info rest ih =>
    rw [findOuter]
    refine .bind inferInstance fun _ => ?_
    split <;> infer_instance

instance {operator : UnaryOperator} : Tidy (unary operator value) := by
  unfold unary
  split
  · infer_instance
  · split <;> infer_instance

instance : Tidy (cast p type value) := by
  unfold cast
  split
  · split <;> infer_instance
  · infer_instance
  · infer_instance

instance : Tidy (arrayLength value) := by
  unfold arrayLength
  dsimp only
  split <;> infer_instance

instance {leaf : Value} {lengths : List Nat} : Tidy (makeArray leaf lengths) := by
  induction lengths with
  | nil => exact inferInstanceAs (Tidy (pure _))
  | cons length rest ih =>
    rw [makeArray]; infer_instance

instance : Tidy (throwValue p value) := by
  unfold throwValue
  split <;> infer_instance

/-! ## Rules -/

/-- Rules whose runs are tidy. -/
class TidyCalls (c : Calls) : Prop where
  eval : ∀ t, Tidy (c.eval t)
  exec : ∀ t, Tidy (c.exec t)
  method : ∀ receiver owner m args, Tidy (c.method receiver owner m args)
  constructor : ∀ ref name args, Tidy (c.constructor ref name args)

end Run

end JavaEdit
