import JavaEdit.Proofs.Fragment.Scope
import JavaEdit.Proofs.Project.Rejection

/-!
# What a script changes

A transform is made to the class it names or, if it exchanges operators and names none, to all input
units. It changes nothing but what is linked with these nodes (`stays_apply`), and if it reports
changes, some node at or below them has changed, unless an operator was exchanged for itself
(`ends_apply_trace`). So a unit of the classpath stays what it is through a whole script if no
transform names a class that is found in it (`classpath_changes_only_by_name`). Such a transform
changes it, though (`classpath_changes_by_name`): types are looked up without regard to what their
units are for.
-/

namespace JavaEdit

open Arena Fragment Relation List

/-! ## Trees -/

namespace Arena

variable {a b : Arena}
variable {root : NodeId}

theorem Apart.reaches {S : NodeId → Prop} (apart : Apart S a) {id : NodeId} (inside : S root)
    (reached : a.Reaches root id) : S id := by
  induction reached with
  | refl => exact inside
  | tail _ child ih => exact apart.children _ ih _ child

/-- Nothing outside a tree is linked with it. -/
theorem apart_of_detached (linked : Linked a) (inside : root < a.size)
    (detached : a.parent root = none) : Apart (fun id => ¬ a.Reaches root id) a where
  start id new reached := absurd (linked.reaches_lt inside reached) (Nat.not_lt.mpr new)
  children id outside c child reached := by
    cases reached with
    | refl => exact linked.not_mem_of_detached detached id child
    | tail above held =>
      have up := (linked.parent_iff c id).mpr child
      have up' := (linked.parent_iff c _).mpr held
      exact outside (Option.some.inj (up'.symm.trans up) ▸ above)
  parent id outside p up reached := outside (reached.tail ((linked.parent_iff id p).mp up))

/-- A tree stays if only nodes outside have changed. -/
theorem Framed.sameBelow (framed : Framed (fun id => ¬ a.Reaches root id) a b) : SameBelow a b root :=
  sameBelow_of_node_eq fun id reached => framed.old id (not_not_intro reached)

end Arena

/-! ## Transforms -/

/-- How many changes are reported. -/
def TransformResult.changes : TransformResult → Nat
  | applied n => n
  | alreadyApplied => 0
  | partly n _ => n

theorem TransformResult.changes_counted (n : Nat) : (counted n).changes = n := by
  unfold counted
  split
  · rename_i zero
    exact (beq_iff_eq.mp zero).symm
  · rfl

theorem TransformResult.changes_ofReport (n : Nat) (r : Report) : (ofReport n r).changes = n := by
  unfold ofReport
  split
  · exact changes_counted n
  · rfl

namespace Transform

variable {p : Project}

theorem reaches_of_mem_operatorUses {a : Arena} {roots : List NodeId} {op : BinaryOperator} {id : NodeId}
    (mem : id ∈ operatorUses a roots op) :
    (∃ root ∈ roots, a.Reaches root id) ∧ ∃ left right, a.kind id = .binary op left right := by
  obtain ⟨root, here, found⟩ := mem_flatMap.mp (mem_of_mem_filter mem)
  obtain ⟨visited, accepted⟩ := mem_filter.mp found
  refine ⟨⟨root, here, ?_⟩, ?_⟩
  · exact walk_subset (fun _ reached _ child => ReflTransGen.tail reached child) _
      (by simpa using ReflTransGen.refl) id visited
  · unfold isOperation at accepted
    split at accepted
    · rename_i left right kind
      exact ⟨left, right, by rw [kind, beq_iff_eq.mp accepted]⟩
    · cases accepted

theorem stays_apply {S : NodeId → Prop} (apart : Apart S p.arena) (t : Transform)
    (inside : ∀ root ∈ t.addressed p, S root) :
    Ends t.apply p (fun _ q => Framed S p.arena q.arena) fun _ q => Framed S p.arena q.arena := by
  refine t.ends_apply_of (fun _ => .refl apart) ?_ ?_ ?_ ?_
  · intro _ _ op op' _ _ _
    refine Edit.framed_sweep apart op' fun id mem => ?_
    obtain ⟨⟨root, here, reached⟩, -⟩ := reaches_of_mem_operatorUses mem
    exact apart.reaches (inside root here) reached
  · exact fun name type here => Edit.stays_deleteMethods apart (inside type here) name
  · exact fun code type here => stays_addMissingCode apart (inside type here) code
  · exact fun method body type here => stays_replaceMethodBody apart (inside type here) method body

/-- The transform exchanges an operator for itself. -/
def IsIdle (t : Transform) : Prop :=
  ∃ old new op, t.operation = .replaceOperator old new ∧ BinaryOperator.read old = .ok op ∧
    BinaryOperator.read new = .ok op

/-- Some node at or below the addressed ones is not what it was. -/
def Touches (t : Transform) (p q : Project) : Prop :=
  ∃ root ∈ t.addressed p, ∃ id, p.arena.Reaches root id ∧ q.arena.node id ≠ p.arena.node id

theorem ends_apply_trace (linked : Linked p.arena) (t : Transform)
    (entered : ∀ root ∈ t.addressed p, root < p.arena.size) :
    Ends t.apply p (fun result q => 0 < result.changes → t.IsIdle ∨ t.Touches p q) fun _ _ => True := by
  refine t.ends_apply_of (fun _ => trivial) ?_ ?_ ?_ ?_
  · intro old new op op' operation readOld readNew some
    rw [TransformResult.changes_counted] at some
    obtain ⟨id, mem⟩ := exists_mem_of_length_pos some
    obtain ⟨⟨root, here, reached⟩, left, right, kind⟩ := reaches_of_mem_operatorUses mem
    by_cases same : op' = op
    · exact .inl ⟨old, new, op, operation, readOld, same ▸ readNew⟩
    · refine .inr ⟨root, here, id, reached, fun unchanged => same ?_⟩
      have now := Edit.kind_sweep op' (operatorUses p.arena (t.addressed p) op) kind
      rw [if_pos mem, Arena.kind, unchanged] at now
      injection now.symm.trans kind
  · intro name type here
    refine (Edit.ends_deleteMethods_trace type name).imp ?_
    intro n b trace some
    obtain ⟨m, mem, gone⟩ := trace (by rwa [TransformResult.changes_counted] at some)
    have child := Kind.mem_children_of_mem_members mem
    refine .inr ⟨type, here, m, .single child, fun unchanged => ?_⟩
    rw [Arena.parent, unchanged] at gone
    cases gone.symm.trans ((linked.parent_iff m type).mpr child)
  · intro code type here
    refine (ends_addMissingCode_trace type (entered type here) code).imp ?_
    intro r b trace some
    refine .inr ⟨type, here, type, .refl, fun unchanged => ?_⟩
    refine trace (by rwa [TransformResult.changes_ofReport] at some) ?_
    rw [Arena.members, Arena.kind, unchanged]
    rfl
  · intro method body type here
    refine (ends_replaceMethodBody_trace linked type method body).imp ?_
    intro r b trace some
    obtain ⟨m, mem, differ⟩ := trace (by rwa [TransformResult.changes_ofReport] at some)
    refine .inr ⟨type, here, m, .single (Kind.mem_children_of_mem_members mem), fun unchanged => ?_⟩
    exact differ (congrArg Node.kind unchanged)

end Transform

/-! ## Scripts -/

namespace Project

variable {p : Project}

def after (p : Project) (ts : List Transform) : Project := ((applyAll ts).run p).2

theorem after_append (p : Project) (before rest : List Transform) :
    p.after (before ++ rest) = (p.after before).after rest := by
  induction before generalizing p with
  | nil => rfl
  | cons t before ih => exact ih (t.apply.on p).2

theorem after_concat (p : Project) (before : List Transform) (t : Transform) :
    p.after (before ++ [t]) = (t.apply.on (p.after before)).2 := after_append p before [t]

theorem Built.after (built : p.Built) (ts : List Transform) : (p.after ts).Built := by
  induction ts generalizing p with
  | nil => exact built
  | cons t rest ih => exact ih (.transform t built)

theorem units_after (built : p.Built) (ts : List Transform) : (p.after ts).units = p.units := by
  induction ts generalizing p with
  | nil => rfl
  | cons t rest ih =>
    have continues := ((t.ends_apply built.sound.linked).mono (fun _ _ done => done.units)
      fun _ _ failed => failed.1.units).state
    exact (ih (.transform t built)).trans continues

theorem Built.roots_nodup (built : p.Built) : (p.units.map fun u => u.root).Nodup := by
  induction built with
  | empty => exact nodup_nil
  | @unit p source role built ih =>
    refine Ends.state (P := fun q => (q.units.map fun u => u.root).Nodup)
      (ends_addUnit (fun _ _ _ => ih) fun root arena read _ => ?_)
    refine (ends_register source.name role _ { p with arena }).mono ?_ ?_
    · rintro _ q ⟨-, units⟩
      have new := ((owns_readUnit read).fresh root (.head _)).1
      simp only [units, map_append, map_cons, map_nil, nodup_append]
      refine ⟨ih, nodup_singleton _, ?_⟩
      rintro _ old _ here same
      obtain ⟨u, mem, rfl⟩ := mem_map.mp old
      have same : u.root = root := same.trans (mem_singleton.mp here)
      exact absurd (built.sound.roots u mem) (Nat.not_lt.mpr (same ▸ new))
    · rintro _ q ⟨-, units⟩
      rwa [units]
  | action act built inRange ih => exact ih
  | @transform p t built ih =>
    rw [show ((t.apply.on p).2).units = p.units from units_after built [t]]
    exact ih

theorem Built.addressed_lt (built : p.Built) (t : Transform) : ∀ root ∈ t.addressed p, root < p.arena.size := by
  intro root mem
  unfold Transform.addressed at mem
  split at mem
  · rename_i name _
    obtain ⟨entry, inside, rfl⟩ := mem_entries_of_findType? (Option.mem_toList.mp mem)
    exact built.entered entry inside
  · obtain ⟨u, input, rfl⟩ := mem_map.mp mem
    exact built.sound.roots u (mem_of_mem_filter input)

/-- Whatever class the transforms of a script name when it is their turn, it is not found in the
unit. -/
def Spares (p : Project) (ts : List Transform) (u : ProjectUnit) : Prop :=
  ∀ before t, before ++ [t] <+: ts → ∀ name ∈ t.className,
    ∀ id ∈ (p.after before).findType? name, ¬ p.arena.Reaches u.root id

theorem Spares.framed (built : p.Built)
    (detached : ∀ u ∈ p.units, p.arena.parent u.root = none) {u : ProjectUnit} (mem : u ∈ p.units)
    (role : u.role = .classpath) {ts : List Transform} (spares : p.Spares ts u) :
    Framed (fun id => ¬ p.arena.Reaches u.root id) p.arena (p.after ts).arena := by
  -- the nodes outside the unit are the same all the way
  suffices run : ∀ before, before <+: ts →
      Framed (fun id => ¬ p.arena.Reaches u.root id) p.arena (p.after before).arena from run ts (prefix_refl ts)
  intro before
  induction before using List.reverseRecOn with
  | nil =>
    exact fun _ => .refl (apart_of_detached built.sound.linked (built.sound.roots u mem) (detached u mem))
  | append_singleton before t ih =>
    intro here
    have framed := ih ((prefix_append before [t]).trans here)
    rw [after_concat]
    refine framed.trans (t.stays_apply framed.apart fun root addressed => ?_).state
    unfold Transform.addressed at addressed
    split at addressed
    · rename_i name named
      exact spares before t here name named root (by simpa using addressed)
    · obtain ⟨v, input, rfl⟩ := mem_map.mp addressed
      obtain ⟨there, isInput⟩ := mem_filter.mp input
      rw [units_after built] at there
      refine built.sound.linked.not_reaches_of_detached (detached v there) fun same => ?_
      have equal : v = u := inj_on_of_nodup_map built.roots_nodup there mem same
      rw [equal, role] at isInput
      cases isInput

/-- A script leaves the tree of a classpath unit alone unless one of its transforms names a class that
is found there. A transform that reports changes has changed a node at or below the class that it
names or, if it names none, at or below the root of an input unit, unless it exchanges an operator for
itself. -/
theorem classpath_changes_only_by_name {p : Project} (built : p.Built)
    (detached : ∀ u ∈ p.units, p.arena.parent u.root = none) (s : Script) :
    (∀ u ∈ p.units, u.role = .classpath → p.Spares s.transforms u → SameBelow p.arena (s.apply.run p).2.arena u.root) ∧
    ∀ before t, before ++ [t] <+: s.transforms →
      ∀ result, (t.apply.on (p.after before)).1 = .ok result → 0 < result.changes →
        t.IsIdle ∨ t.Touches (p.after before) (p.after (before ++ [t])) := by
  refine ⟨fun u member role spares => (spares.framed built detached member role).sameBelow, ?_⟩
  intro before t _ result made some
  have now := built.after before
  have trace := t.ends_apply_trace now.sound.linked (now.addressed_lt t)
  rw [after_concat]
  unfold Ends at trace
  unfold Change.on at made ⊢
  cases run : t.apply.run.run (p.after before) with
  | mk outcome q =>
    rw [run] at trace made
    obtain rfl : outcome = .ok result := made
    exact trace some

/-- A class in the classpath and one in an input unit, each with a sum. -/
def mixed : Project :=
  ((addUnit ⟨"A.java", none, "class A \x7b int y = 3 + 4; \x7d"⟩ .input).run.run
    ((addUnit ⟨"Lib.java", none, "class Lib \x7b int x = 1 + 2; \x7d"⟩ .classpath).run.run empty).2).2

/-- Turn all sums into differences. -/
def differences : Transform := ⟨"differences", none, .replaceOperator "+" "-"⟩

/-- Turn the differences of a class into products. -/
def products : Transform := ⟨"products", some "A", .replaceOperator "-" "*"⟩

/-- The one after the other. -/
def exchange : Script := ⟨{}, [differences, products], []⟩

theorem mixed_loaded : mixed.Loaded := .unit (.unit .empty (by decide +kernel)) (by decide +kernel)

/-- Both transforms leave the unit of the classpath alone, and the second one finds what the first one
has made in the input unit. -/
theorem classpath_changes_only_by_name_mixed : mixed.Built ∧ (∀ u ∈ mixed.units, mixed.arena.parent u.root = none) ∧
      (∃ u ∈ mixed.units, u.role = .classpath ∧ mixed.Spares exchange.transforms u ∧
        SameBelow mixed.arena (exchange.apply.run mixed).2.arena u.root) ∧
      products.Touches (mixed.after [differences]) (mixed.after exchange.transforms) := by
  have indexed := mixed_loaded.indexed
  have built : mixed.Built := .unit _ _ (.unit _ _ .empty)
  have detached : ∀ u ∈ mixed.units, mixed.arena.parent u.root = none :=
    fun u member => (indexed.heads u member).detached
  obtain ⟨lib, found, outside, result⟩ : ⟨"Lib.java", none, 6, .classpath⟩ ∈ mixed.units ∧
      (mixed.after [differences]).findType? "A" = some 12 ∧ 12 ∉ (mixed.arena.tree 6).preorder ∧
      (match (products.apply.on (mixed.after [differences])).1 with
        | .ok r => r == .applied 1
        | .error _ => false) = true := by decide +kernel
  have spares : mixed.Spares exchange.transforms ⟨"Lib.java", none, 6, .classpath⟩ := by
    intro before t turn name named id here reached
    rcases before with _ | ⟨first, _ | ⟨second, rest⟩⟩
    · obtain rfl : t = differences := by simpa [exchange] using turn
      cases named
    · obtain ⟨rfl, rfl⟩ : first = differences ∧ t = products := by simpa [exchange] using turn
      obtain rfl : "A" = name := Option.some.inj named
      obtain rfl : 12 = id := Option.some.inj (found.symm.trans here)
      exact outside ((mem_preorder_iff indexed.linked indexed.acyclic).mpr reached)
    · simpa [exchange] using turn.length_le
  have main := classpath_changes_only_by_name built detached exchange
  refine ⟨built, detached, ⟨_, lib, rfl, spares, main.1 _ lib rfl spares⟩, ?_⟩
  split at result
  · rename_i r made
    obtain rfl := beq_iff_eq.mp result
    rcases main.2 [differences] products (List.prefix_refl _) _ made (by decide) with idle | touched
    · obtain ⟨old, new, op, operation, readOld, readNew⟩ := idle
      obtain ⟨rfl, rfl⟩ := Operation.replaceOperator.inj operation
      exact absurd (readOld.trans readNew.symm) (by decide)
    · exact touched
  · cases result

/-- Turn the sums of a class into differences, whatever its unit is for. -/
def libraryDifferences : Transform := ⟨"differences", some "Lib", .replaceOperator "+" "-"⟩

/-- A transform that names a class of the classpath changes it. It reports one change, and the only
node that has changed lies below the unit of the classpath. -/
theorem classpath_changes_by_name : (match (libraryDifferences.apply.on mixed).1 with
      | .ok r => r == .applied 1
      | .error _ => false) = true ∧
    (∀ id < mixed.arena.size, (libraryDifferences.apply.on mixed).2.arena.node id ≠ mixed.arena.node id ↔ id = 3) ∧
    ∃ u ∈ mixed.units, u.role = .classpath ∧ mixed.arena.Reaches u.root 3 ∧
      ¬ SameBelow mixed.arena (libraryDifferences.apply.on mixed).2.arena u.root := by
  have indexed := mixed_loaded.indexed
  obtain ⟨result, changed, inside, lib, below⟩ :
      (match (libraryDifferences.apply.on mixed).1 with
        | .ok r => r == .applied 1
        | .error _ => false) = true ∧
      (∀ id < mixed.arena.size, (libraryDifferences.apply.on mixed).2.arena.node id ≠ mixed.arena.node id ↔ id = 3) ∧
      3 < mixed.arena.size ∧ ⟨"Lib.java", none, 6, .classpath⟩ ∈ mixed.units ∧
      3 ∈ (mixed.arena.tree 6).preorder := by decide +kernel
  have reached : mixed.arena.Reaches 6 3 := (mem_preorder_iff indexed.linked indexed.acyclic).mp below
  refine ⟨result, changed, _, lib, rfl, reached, fun same => ?_⟩
  exact (changed 3 inside).mpr rfl ((same 3).2 reached)

end Project

end JavaEdit
