import JavaEdit.Proofs.Fragment.Grafts
import JavaEdit.Script.Apply

/-!
# Failed transforms

A project is built by reading units, acting on its arena and making transforms, and some of these
may fail. Its arena stays linked and holds the roots of its units (`Built.sound`). A transform that
fails leaves every node as it was: it fails before it has changed one, and what it may have copied
into the arena until then is detached (`ends_apply`). So nothing changes below the units of the
project (`failed_transform_changes_nothing`).
-/

namespace JavaEdit

open Arena Fragment Relation

/-! ## Outcomes of changes of projects -/

namespace Change

variable {ε α : Type} {p : Project} {wrap : ε → TransformError} {good : α → Project → Prop}
  {bad : TransformError → Project → Prop}

theorem ends_ofExcept {step : Except ε α} : Ends (ofExcept wrap step) p good bad ↔
      match step with
      | .ok x => good x p
      | .error e => bad (wrap e) p := by
  cases step <;> exact Iff.rfl

theorem ends_onArena {action : ExceptT ε (StateM Arena) α} : Ends (onArena wrap action) p good bad ↔
      Ends action p.arena (fun x b => good x { p with arena := b }) fun e b => bad (wrap e) { p with arena := b } := by
  unfold onArena
  rw [ends_bind, ends_get]
  unfold Ends
  cases action.run.run p.arena with
  | mk outcome b => cases outcome <;> exact Iff.rfl

end Change

namespace Project

/-- Between `p` and `q` units and types stay, the links stay good, and no nodes are lost. -/
structure Continues (p q : Project) : Prop where
  units : q.units = p.units
  types : q.types = p.types
  follows : Follows p.arena q.arena

theorem Continues.refl {p : Project} (linked : Linked p.arena) : Continues p p := ⟨rfl, rfl, linked, Nat.le_refl _⟩

end Project

namespace Transform

open Change Project

variable {p : Project}

/-- The nodes that a transform is made to: the class it names, or all input units. -/
def addressed (t : Transform) (p : Project) : List NodeId :=
  match t.className with
  | some name => (p.findType? name).toList
  | none => p.inputs.map fun u => u.root

section Ends

variable {good : TransformResult → Project → Prop} {bad : TransformError → Project → Prop}

theorem ends_target {t : Transform} {good : NodeId → Project → Prop} (refused : ∀ e, bad e p)
    (found : ∀ type ∈ t.addressed p, good type p) : Ends t.target p good bad := by
  unfold addressed at found
  unfold target
  split
  · exact refused _
  · rename_i name named
    rw [named] at found
    rw [ends_bind, ends_get, ends_ofExcept]
    unfold getType
    cases lookup : p.findType? name with
    | none => exact refused _
    | some type => exact found type (by simp [lookup])

theorem ends_sweepRoots {t : Transform} {good : List NodeId → Project → Prop} (refused : ∀ e, bad e p)
    (found : good (t.addressed p) p) : Ends t.sweepRoots p good bad := by
  unfold addressed at found
  unfold sweepRoots
  split
  · rename_i name named
    rw [named] at found
    simp only [ends_bind, ends_get, ends_ofExcept, ends_pure]
    unfold getType
    cases lookup : p.findType? name with
    | none => exact refused _
    | some type => simpa [lookup] using found
  · rename_i unnamed
    rw [unnamed] at found
    exact found

/-- What comes of a transform: it is refused before anything is done, or its operation is made to
the nodes that it addresses. -/
theorem ends_apply_of (t : Transform) (refused : ∀ e, bad e p)
    (sweep : ∀ old new op op', t.operation = .replaceOperator old new →
      BinaryOperator.read old = .ok op → BinaryOperator.read new = .ok op' →
      good (.counted (operatorUses p.arena (t.addressed p) op).length)
        { p with arena := Edit.sweep op' (operatorUses p.arena (t.addressed p) op) p.arena })
    (delete : ∀ name, ∀ type ∈ t.addressed p, Ends (Edit.deleteMethods type name) p.arena
      (fun n b => good (.counted n) { p with arena := b }) fun e b => bad (.edit e) { p with arena := b })
    (add : ∀ code, ∀ type ∈ t.addressed p, Ends (addMissingCode type code) p.arena
      (fun r b => good (.ofReport r.added.length r) { p with arena := b })
      fun e b => bad (.fragment e) { p with arena := b })
    (replace : ∀ method body, ∀ type ∈ t.addressed p, Ends (replaceMethodBody type method body) p.arena
      (fun r b => good (.ofReport r.replaced.length r) { p with arena := b })
      fun e b => bad (.fragment e) { p with arena := b }) : Ends t.apply p good bad := by
  unfold apply
  split
  · rename_i old new operation
    rw [ends_bind, ends_ofExcept]
    split
    · rename_i op readOld
      rw [ends_bind, ends_ofExcept]
      split
      · rename_i op' readNew
        rw [ends_bind]
        refine ends_sweepRoots refused ?_
        simp only [ends_bind, ends_get, ends_modify, ends_pure]
        exact sweep old new op op' operation readOld readNew
      · exact refused _
    · exact refused _
  · rw [ends_bind]
    refine ends_target refused fun type here => ?_
    simp only [ends_bind, ends_pure, ends_onArena]
    exact delete _ type here
  · rw [ends_bind]
    refine ends_target refused fun type here => ?_
    simp only [ends_bind, ends_pure, ends_onArena]
    exact add _ type here
  · rw [ends_bind]
    refine ends_target refused fun type here => ?_
    simp only [ends_bind, ends_pure, ends_onArena]
    exact replace _ _ type here

end Ends

/-- What a transform does besides what it is for, and what it leaves when it fails. -/
theorem ends_apply (linked : Linked p.arena) (t : Transform) :
    Ends t.apply p (fun _ q => Continues p q) fun _ q => Continues p q ∧ Intact p.arena q.arena := by
  have kept : ∀ b, Follows p.arena b → Continues p { p with arena := b } := fun b follows =>
    ⟨rfl, rfl, follows⟩
  refine t.ends_apply_of (fun _ => ⟨.refl linked, .refl _⟩) ?_ ?_ ?_ ?_
  · intro _ _ op op' _ _ _
    obtain ⟨size, children, parent⟩ := Edit.links_sweep op' (operatorUses p.arena (t.addressed p) op) p.arena
    exact kept _ ⟨linked.congr size children parent, size.ge⟩
  · intro name type _
    have never : false → Acyclic p.arena := nofun
    have follows : ∀ b, ReflTransGen (Arena.Change false) p.arena b → Follows p.arena b := by
      intro b changes
      induction changes with
      | refl => exact ⟨linked, Nat.le_refl _⟩
      | tail _ change ih => exact ⟨change.linked ih.1, change.size_eq ▸ ih.2⟩
    exact ((Edit.ends_deleteMethods linked type name never).and
      (Edit.ends_deleteMethods_of_linked linked type name)).mono
      (fun _ b done => kept b (follows b done.1)) fun _ _ failed => failed.2.elim
  · intro code type _
    exact ((follows_addMissingCode linked type code).and (intact_addMissingCode type code _)).mono
      (fun _ b done => kept b done.1) fun _ b failed => ⟨kept b failed.1, failed.2⟩
  · intro method body type _
    exact ((follows_replaceMethodBody linked type method body).and
      (intact_replaceMethodBody linked type method body)).mono
      (fun _ b done => kept b done.1) fun _ b failed => ⟨kept b failed.1, failed.2.1⟩

end Transform

/-! ## Projects that can be built -/

namespace Project

theorem ends_register (unitName : String) (role : UnitRole) (ids : List NodeId) (p : Project) :
    Ends (register unitName role ids) p (fun _ q => q.arena = p.arena ∧ q.units = p.units)
      fun _ q => q.arena = p.arena ∧ q.units = p.units := by
  induction ids generalizing p with
  | nil => exact ⟨rfl, rfl⟩
  | cons id rest ih =>
    rw [register, ends_bind, ends_get]
    split
    · exact ih p
    · split
      · rw [ends_bind, ends_set]
        exact ih { p with types := _ }
      · rename_i other _
        simp only [ends_ite, ends_bind, ends_set, ends_throw]
        split
        · exact ih p
        · split
          · exact ih { p with types := _ }
          · exact ⟨trivial, trivial⟩

/-- Projects that can be built: units are read, actions on the arena name nodes that it holds, and
transforms are made. All of it may fail. -/
inductive Built : Project → Prop
  | empty : Built empty
  | unit {p : Project} (source : SourceText) (role : UnitRole) :
      Built p → Built ((addUnit source role).run.run p).2
  | action {p : Project} (act : Action) :
      Built p → act.InRange p.arena → Built { p with arena := act.apply p.arena }
  | transform {p : Project} (t : Transform) : Built p → Built (t.apply.on p).2

/-- The arena is linked and holds the roots of the units. -/
structure Sound (p : Project) : Prop where
  linked : Linked p.arena
  roots : ∀ u ∈ p.units, u.root < p.arena.size

variable {p : Project}

theorem Sound.follow {q : Project} (h : Sound p) (units : q.units = p.units)
    (follows : Follows p.arena q.arena) : Sound q where
  linked := follows.1
  roots u mem := Nat.lt_of_lt_of_le (h.roots u (units ▸ mem)) follows.2

/-- A unit is read, and its types are registered. -/
theorem ends_addUnit {source : SourceText} {role : UnitRole} {good : NodeId → Project → Prop}
    {bad : ProjectError → Project → Prop} (unread : ∀ e arena, Grown p.arena arena → bad (.unreadable e) { p with arena })
    (registers : ∀ root arena, p.arena.readUnit source.name source.text = (.ok root, arena) → Grown p.arena arena →
      Ends (register source.name role (arena.elements root fun a id => (a.variant id).isType)) { p with arena }
        (fun _ q => good root { q with units := q.units ++ [⟨source.name, source.path, root, role⟩] }) bad) :
    Ends (addUnit source role) p good bad := by
  have grown := grown_readUnit p.arena source.name source.text
  unfold addUnit
  rw [ends_bind, ends_get]
  cases read : p.arena.readUnit source.name source.text with
  | mk outcome arena =>
    rw [read] at grown
    simp only [ends_bind, ends_set]
    cases outcome with
    | error e => exact unread e arena grown
    | ok root =>
      simp only [ends_bind, ends_modify, ends_pure]
      exact registers root arena read grown

theorem sound_addUnit (h : Sound p) (source : SourceText) (role : UnitRole) :
    Sound ((addUnit source role).run.run p).2 := by
  have follows : ∀ {arena}, Grown p.arena arena → Follows p.arena arena := fun grown =>
    ⟨grown.linked h.linked, grown.size_le⟩
  refine Ends.state (ends_addUnit (fun e arena grown => h.follow rfl (follows grown)) fun root arena read grown => ?_)
  have same : Sound { p with arena } := h.follow rfl (follows grown)
  refine (ends_register _ role _ { p with arena }).mono ?_ ?_
  · rintro _ q ⟨sameArena, sameUnits⟩
    refine ⟨sameArena ▸ same.linked, fun u mem => ?_⟩
    rw [sameUnits] at mem
    rcases List.mem_append.mp mem with old | new
    · exact sameArena ▸ same.roots u old
    · rw [List.mem_singleton.mp new]
      exact sameArena ▸ (isUnit_of_readUnit read).1.lt
  · rintro _ q ⟨sameArena, sameUnits⟩
    exact same.follow sameUnits ⟨sameArena ▸ same.linked, (congrArg Arena.size sameArena).ge⟩

theorem Built.sound (h : Built p) : Sound p := by
  induction h with
  | empty => exact ⟨linked_empty, nofun⟩
  | unit source role _ ih => exact sound_addUnit ih source role
  | action act _ inRange ih =>
    have effect : Action.Effect false _ _ := Action.effect_of_linked ih.linked inRange nofun nofun
    exact ih.follow rfl ⟨effect.linked ih.linked, effect.size_le⟩
  | transform t _ ih =>
    have ended := (t.ends_apply ih.linked).mono (fun _ _ continues => continues) fun _ _ failed => failed.1
    exact ih.follow ended.state.units ended.state.follows

end Project

/-! ## Failures -/

namespace Arena

/-- The tree reachable from `root` is the same in both arenas: the same nodes are reached, with the
same payloads, parents, positions and comments. -/
def SameBelow (a b : Arena) (root : NodeId) : Prop :=
  ∀ id, (b.Reaches root id ↔ a.Reaches root id) ∧ (a.Reaches root id → b.node id = a.node id)

theorem sameBelow_of_node_eq {a b : Arena} {root : NodeId}
    (same : ∀ id, a.Reaches root id → b.node id = a.node id) : SameBelow a b root := by
  have children : ∀ id, a.Reaches root id → b.children id = a.children id := fun id reached => by
    unfold Arena.children Arena.kind
    rw [same id reached]
  refine fun id => ⟨⟨fun reached => ?_, fun reached => ?_⟩, same id⟩
  · induction reached with
    | refl => exact .refl
    | tail _ child ih => exact ih.tail (children _ ih ▸ child)
  · induction reached with
    | refl => exact .refl
    | tail reached child ih => exact ih.tail ((children _ reached).symm ▸ child)

theorem sameBelow_of_intact {a b : Arena} (linked : Linked a) (intact : Intact a b) {root : NodeId}
    (inside : root < a.size) : SameBelow a b root :=
  sameBelow_of_node_eq fun id reached => intact id (linked.reaches_lt inside reached)

end Arena

/-- A failed transform changes nothing: units and types are what they were, and so is the tree below
every unit. -/
theorem Project.failed_transform_changes_nothing {p : Project} (built : p.Built) (t : Transform)
    {e : TransformError} (failed : (t.apply.on p).1 = .error e) :
    (t.apply.on p).2.types = p.types ∧ (t.apply.on p).2.units = p.units ∧
      ∀ u ∈ p.units, SameBelow p.arena (t.apply.on p).2.arena u.root := by
  have sound := built.sound
  have ended := t.ends_apply sound.linked
  unfold Ends at ended
  unfold Change.on at failed ⊢
  cases run : t.apply.run.run p with
  | mk outcome q =>
    rw [run] at ended failed
    obtain rfl : outcome = .error e := failed
    obtain ⟨continues, intact⟩ := ended
    exact ⟨continues.types, continues.units, fun u member =>
      sameBelow_of_intact sound.linked intact (sound.roots u member)⟩

/-- A class with a constructor. -/
def Project.constructed : Project :=
  ((addUnit ⟨"A.java", none, "class A \x7b A() \x7b \x7d \x7d"⟩ .input).run.run empty).2

/-- Another body for the constructor. -/
def Transform.constructorBody : Transform := ⟨"body", some "A", .replaceBody "A" "f();"⟩

/-- The body of a constructor is not replaced. The transform fails when it has read the new one,
which stays in the arena, and below the unit nothing has changed. -/
theorem Project.failed_transform_changes_nothing_constructor : (Transform.constructorBody.apply.on constructed).1 =
        .error (.fragment (.edit (.requiredChild .block none .constructor))) ∧
      (constructed.arena.size = 4 ∧ (Transform.constructorBody.apply.on constructed).2.arena.size = 8) ∧
      ∀ u ∈ constructed.units,
        SameBelow constructed.arena (Transform.constructorBody.apply.on constructed).2.arena u.root := by
  have refused : (match (Transform.constructorBody.apply.on constructed).1 with
      | .error e => e == .fragment (.edit (.requiredChild .block none .constructor))
      | .ok _ => false) = true := by decide +kernel
  have failed : (Transform.constructorBody.apply.on constructed).1 =
      .error (.fragment (.edit (.requiredChild .block none .constructor))) := by
    split at refused
    · rename_i error
      rw [error, beq_iff_eq.mp refused]
    · cases refused
  have built : constructed.Built := .unit _ _ .empty
  exact ⟨failed, ⟨by decide +kernel, by decide +kernel⟩,
    (failed_transform_changes_nothing built Transform.constructorBody failed).2.2⟩

end JavaEdit
