import JavaEdit.Proofs.Project.Failure
import JavaEdit.Script.Load
import Mathlib.Data.List.TakeWhile

/-!
# Valid scripts

A check goes through a script once and lists what it finds; the transforms are made much later, by code that
looks at a script again. `Script.IsValid` says what a script has to be without either of them.
A script passes the check exactly if it is valid (`checked_eq_ok_iff`), and the two kinds of failure that are
the fault of a transform alone, whatever the project, are decided by the transform (`Transform.ends_apply_fault?`).
A valid script has no such transform (`valid_scripts_fail_only_in_the_project`).
-/

namespace JavaEdit

open List

variable {id text : String} {seen : List String} {t : Transform}

/-! ## Texts that say something -/

namespace Text

theorem trimBy_eq_nil_iff (p : Char → Bool) (cs : List Char) : trimBy p cs = [] ↔ ∀ c ∈ cs, p c := by
  rw [trimBy, reverse_eq_nil_iff, dropWhile_eq_nil_iff]
  simp only [mem_reverse]
  refine ⟨fun behind => ?_, fun all c mem => all c ((dropWhile_sublist _).subset mem)⟩
  cases front : cs.dropWhile p with
  | nil => exact dropWhile_eq_nil_iff.mp front
  | cons c rest =>
    -- the first character that is kept from the front is none of those at the end
    have kept := List.head?_dropWhile_not p cs
    rw [front] at behind kept
    simp only [List.head?_cons] at kept
    simp [behind c (.head _)] at kept

theorem isBlankText_iff (s : String) : isBlankText s ↔ trim s = "" := by
  rw [isBlankText, all_eq_true, ← trimBy_eq_nil_iff, trim, String.ofList_eq_empty_iff]

end Text

/-! ## Operators and their names -/

namespace BinaryOperator

/-- The texts that name an operator: its name in any case, or its symbol, with blanks around it. -/
def Names (text : String) (op : BinaryOperator) : Prop :=
  Text.sameLetters op.name (Text.trim text) = true ∨ op.symbol = Text.trim text

theorem mem_all (op : BinaryOperator) : op ∈ all := by
  cases op <;> decide

theorem spellings_apart : ∀ a ∈ all, ∀ b ∈ all, (Text.sameLetters a.name b.name → a = b) ∧
    (Text.sameLetters a.name b.symbol → a = b) ∧ (a.symbol = b.symbol → a = b) := by
  decide +kernel

theorem Names.unique {a b : BinaryOperator} (ha : Names text a) (hb : Names text b) : a = b := by
  obtain ⟨names, mixed, symbols⟩ := spellings_apart a (mem_all a) b (mem_all b)
  obtain ⟨-, mixed', -⟩ := spellings_apart b (mem_all b) a (mem_all a)
  rcases ha with name | symbol <;> rcases hb with name' | symbol'
  · refine names ?_
    simp only [Text.sameLetters, beq_iff_eq] at name name' ⊢
    exact name.trans name'.symm
  · exact mixed (symbol' ▸ name)
  · exact (mixed' (symbol ▸ name')).symm
  · exact symbols (symbol.trans symbol'.symm)

theorem read_eq_ok_iff {op : BinaryOperator} : read text = .ok op ↔ Names text op := by
  have found : ∀ a, all.find? (fun op => Text.sameLetters op.name (Text.trim text) || op.symbol == Text.trim text)
      = some a → Names text a := fun a first => by
    simpa [Names] using List.find?_some first
  unfold read
  dsimp only
  split
  · rename_i a first
    refine ⟨fun same => Except.ok.inj same ▸ found a first, fun names => ?_⟩
    rw [(found a first).unique names]
  · rename_i none
    refine ⟨nofun, fun names => absurd ?_ (List.find?_eq_none.mp none op (mem_all op))⟩
    rwa [Bool.or_eq_true, beq_iff_eq]

end BinaryOperator

/-! ## Valid scripts -/

/-- What a change must say. -/
def Operation.IsValid : Operation → Prop
  | replaceOperator old new => ∃ a b, BinaryOperator.Names old a ∧ BinaryOperator.Names new b ∧ a ≠ b
  | deleteMethod name => Text.trim name ≠ ""
  | addMembers code => Text.trim code ≠ ""
  | replaceBody method _ => Text.trim method ≠ ""

/-- What a transform must say, apart from its name. -/
structure Transform.IsValid (t : Transform) : Prop where
  className : (∃ old new, t.operation = .replaceOperator old new) ∨ ∃ name, t.className = some name ∧ Text.trim name ≠ ""
  operation : t.operation.IsValid

/-- What an expectation must say. -/
structure Expectation.IsValid (e : Expectation) : Prop where
  className : Text.trim e.className ≠ ""
  method : Text.trim e.method ≠ ""
  outcome : e.returns = none ∨ e.throws = none

/-- Scripts that make sense. -/
structure Script.IsValid (s : Script) : Prop where
  transforms : s.transforms ≠ []
  inputs : s.info.inputs ≠ []
  named : ∀ t ∈ s.transforms, Text.trim t.id ≠ ""
  distinct : (s.transforms.map fun t => t.id).Nodup
  changes : ∀ t ∈ s.transforms, t.IsValid
  expectations : ∀ e ∈ s.expectations, e.IsValid

theorem requireText_eq_nil_iff {issue : ScriptIssue} : requireText text issue = [] ↔ Text.trim text ≠ "" := by
  rw [requireText, Ne, ← Text.isBlankText_iff]
  split <;> simp [*]

theorem operatorIssues_eq_nil_iff {old new : String} : operatorIssues id old new = [] ↔
    ∃ a b, BinaryOperator.Names old a ∧ BinaryOperator.Names new b ∧ a ≠ b := by
  simp only [← BinaryOperator.read_eq_ok_iff]
  unfold operatorIssues
  split
  · rename_i a b readOld readNew
    simp [readOld, readNew]
  all_goals simp [*]

theorem Operation.issues_eq_nil_iff {operation : Operation} : operation.issues id = [] ↔ operation.IsValid := by
  cases operation with
  | replaceOperator => rw [issues, IsValid, operatorIssues_eq_nil_iff]
  | deleteMethod | addMembers | replaceBody => rw [issues, IsValid, requireText_eq_nil_iff]

theorem idIssues_eq_nil_iff : idIssues seen id = [] ↔ Text.trim id ≠ "" ∧ id ∉ seen := by
  rw [idIssues, Ne, ← Text.isBlankText_iff]
  cases Text.isBlankText id <;> by_cases used : id ∈ seen <;> simp [used]

theorem Transform.issues_eq_nil_iff : t.issues seen = [] ↔ (Text.trim t.id ≠ "" ∧ t.id ∉ seen) ∧ t.IsValid := by
  have classed : (if t.operation.needsClass && t.className.all Text.isBlankText then
      [ScriptIssue.missingIn t.id "class"] else []) = [] ↔
      (∃ old new, t.operation = .replaceOperator old new) ∨
        ∃ name, t.className = some name ∧ Text.trim name ≠ "" := by
    simp only [Ne, ← Text.isBlankText_iff]
    cases t.operation <;> cases t.className <;> simp [Operation.needsClass]
  unfold issues
  rw [append_eq_nil_iff, append_eq_nil_iff, idIssues_eq_nil_iff, classed, Operation.issues_eq_nil_iff, and_assoc]
  exact and_congr_right fun _ => ⟨fun ⟨className, operation⟩ => ⟨className, operation⟩, fun h => ⟨h.1, h.2⟩⟩

/-- The names in front of a transform are carried along, so that no name is used twice. -/
theorem transformIssues_eq_nil_iff {ts : List Transform} : transformIssues seen ts = [] ↔
    (∀ t ∈ ts, Text.trim t.id ≠ "" ∧ t.id ∉ seen ∧ t.IsValid) ∧ (ts.map fun t => t.id).Nodup := by
  induction ts generalizing seen with
  | nil => simp [transformIssues]
  | cons t ts ih =>
    rw [transformIssues, append_eq_nil_iff, Transform.issues_eq_nil_iff, ih]
    simp only [mem_cons, not_or, map_cons, nodup_cons, mem_map, not_exists, not_and, forall_eq_or_imp]
    constructor
    · rintro ⟨⟨⟨named, unseen⟩, valid⟩, rest, nodup⟩
      exact ⟨⟨⟨named, unseen, valid⟩, fun u mem =>
        ⟨(rest u mem).1, (rest u mem).2.1.2, (rest u mem).2.2⟩⟩,
        fun u mem => (rest u mem).2.1.1, nodup⟩
    · rintro ⟨⟨⟨named, unseen, valid⟩, rest⟩, apart, nodup⟩
      exact ⟨⟨⟨named, unseen⟩, valid⟩, fun u mem =>
        ⟨(rest u mem).1, ⟨apart u mem, (rest u mem).2.1⟩, (rest u mem).2.2⟩, nodup⟩

theorem Expectation.issues_eq_nil_iff {e : Expectation} : e.issues = [] ↔ e.IsValid := by
  have blank : ∀ (text : String) (issue : ExpectationIssue),
      (if Text.isBlankText text then [issue] else []) = [] ↔ Text.trim text ≠ "" := fun text issue => by
    rw [Ne, ← Text.isBlankText_iff]
    split <;> simp [*]
  have both : (if e.returns.isSome && e.throws.isSome then [ExpectationIssue.returnsAndThrows] else []) = [] ↔
      e.returns = none ∨ e.throws = none := by
    cases e.returns <;> cases e.throws <;> simp
  unfold issues
  rw [append_eq_nil_iff, append_eq_nil_iff, blank, blank, both]
  exact ⟨fun ⟨⟨className, method⟩, outcome⟩ => ⟨className, method, outcome⟩, fun h => ⟨⟨h.1, h.2⟩, h.3⟩⟩

theorem expectationIssues_eq_nil_iff {number : Nat} {es : List Expectation} :
    expectationIssues number es = [] ↔ ∀ e ∈ es, e.IsValid := by
  induction es generalizing number with
  | nil => simp [expectationIssues]
  | cons e es ih =>
    rw [expectationIssues, append_eq_nil_iff, map_eq_nil_iff, Expectation.issues_eq_nil_iff, ih, forall_mem_cons]

theorem Script.issues_eq_nil_iff {s : Script} : s.issues = [] ↔ s.IsValid := by
  have empty : ∀ {α : Type} (xs : List α) (issue : ScriptIssue),
      (if xs.isEmpty then [issue] else []) = [] ↔ xs ≠ [] := fun xs issue => by
    cases xs <;> simp
  unfold issues
  rw [append_eq_nil_iff, append_eq_nil_iff, append_eq_nil_iff, empty, empty,
    transformIssues_eq_nil_iff, expectationIssues_eq_nil_iff]
  constructor
  · rintro ⟨⟨⟨transforms, inputs⟩, each, distinct⟩, expectations⟩
    exact ⟨transforms, inputs, fun t mem => (each t mem).1, distinct, fun t mem => (each t mem).2.2, expectations⟩
  · intro h
    exact ⟨⟨⟨h.transforms, h.inputs⟩, fun t mem => ⟨h.named t mem, not_mem_nil, h.changes t mem⟩,
      h.distinct⟩, h.expectations⟩

theorem Script.checked_eq_ok_iff {s : Script} : s.checked = .ok s ↔ s.IsValid := by
  rw [← issues_eq_nil_iff, checked]
  split <;> simp_all

/-! ## Transforms that are at fault themselves -/

/-- Failures that no project is to blame for. -/
def TransformError.isOwnFault : TransformError → Bool
  | missingClass _ | unknownOperator _ => true
  | query _ | edit _ | fragment _ => false

namespace Transform

/-- What is wrong with a transform, whatever the project. -/
def fault? (t : Transform) : Option TransformError :=
  match t.operation with
  | .replaceOperator old new =>
    match BinaryOperator.read old, BinaryOperator.read new with
    | .error text, _ => some (.unknownOperator text)
    | .ok _, .error text => some (.unknownOperator text)
    | .ok _, .ok _ => none
  | _ => if t.className.isNone then some (.missingClass t.id) else none

theorem IsValid.fault?_eq_none (h : t.IsValid) : t.fault? = none := by
  obtain ⟨className, valid⟩ := h
  unfold fault?
  cases operation : t.operation with
  | replaceOperator old new =>
    rw [operation] at valid
    obtain ⟨a, b, old', new', -⟩ := valid
    rw [← BinaryOperator.read_eq_ok_iff] at old' new'
    simp [old', new']
  | deleteMethod | addMembers | replaceBody =>
    obtain ⟨name, named, -⟩ : ∃ name, t.className = some name ∧ Text.trim name ≠ "" := by
      simpa [operation] using className
    simp [named]

open Change

variable {p : Project} {good : NodeId → Project → Prop} {bad : TransformError → Project → Prop}

theorem ends_target_of (unnamed : t.className = none → bad (.missingClass t.id) p)
    (unknown : t.className.isNone = false → ∀ e, bad (.query e) p)
    (found : t.className.isNone = false → ∀ type, good type p) : Ends t.target p good bad := by
  unfold target
  split
  · exact unnamed ‹_›
  · rename_i name named
    rw [ends_bind, ends_get, ends_ofExcept]
    split
    · exact found (by simp [named]) _
    · exact unknown (by simp [named]) _

theorem ends_sweepRoots_of {good : List NodeId → Project → Prop} (unknown : ∀ e, bad (.query e) p)
    (found : ∀ roots, good roots p) : Ends t.sweepRoots p good bad := by
  unfold sweepRoots
  split
  · simp only [ends_bind, ends_get, ends_ofExcept, ends_pure]
    split
    · exact found _
    · exact unknown _
  · exact found _

theorem ends_apply_fault? (t : Transform) (p : Project) : Ends t.apply p (fun _ _ => t.fault? = none)
    fun e _ => t.fault? = if e.isOwnFault then some e else none := by
  -- of the changes to a class only the class can be at fault
  have classed : (∀ old new, t.operation ≠ .replaceOperator old new) →
      t.fault? = if t.className.isNone then some (.missingClass t.id) else none := by
    intro other
    unfold fault?
    cases operation : t.operation with
    | replaceOperator old new => exact absurd operation (other old new)
    | deleteMethod | addMembers | replaceBody => rfl
  have onTarget : ∀ {ε α : Type} {wrap : ε → TransformError} (action : NodeId → ExceptT ε (StateM Arena) α)
      (result : α → TransformResult), (∀ old new, t.operation ≠ .replaceOperator old new) →
      (∀ e, (wrap e).isOwnFault = false) →
      Ends (do
        let target ← t.target
        let x ← onArena wrap (action target)
        return result x) p (fun _ _ => t.fault? = none)
        fun e _ => t.fault? = if e.isOwnFault then some e else none := by
    intro ε α wrap action result other innocent
    rw [ends_bind]
    refine ends_target_of (fun unnamed => ?_) (fun named e => ?_) fun named type => ?_
    · simp [classed other, unnamed, TransformError.isOwnFault]
    · simp [classed other, named, TransformError.isOwnFault]
    · have none : t.fault? = .none := by simp [classed other, named]
      simp only [ends_bind, ends_onArena, ends_pure, none, innocent]
      unfold Ends
      split <;> simp
  unfold apply
  split
  · rename_i old new operation
    have own : t.fault? = match BinaryOperator.read old, BinaryOperator.read new with
        | .error text, _ => some (.unknownOperator text)
        | .ok _, .error text => some (.unknownOperator text)
        | .ok _, .ok _ => none := by
      unfold fault?
      rw [operation]
    rw [ends_bind, ends_ofExcept]
    split
    · rename_i op readOld
      rw [ends_bind, ends_ofExcept]
      split
      · rename_i op' readNew
        have none : t.fault? = .none := by rw [own, readOld, readNew]
        rw [ends_bind]
        refine ends_sweepRoots_of (fun e => by simp [none, TransformError.isOwnFault]) fun roots => ?_
        simpa only [ends_bind, ends_get, ends_modify, ends_pure] using none
      · rename_i text readNew
        rw [own, readOld, readNew]
        rfl
    · rename_i text readOld
      rw [own, readOld]
      rfl
  · rename_i name operation
    exact onTarget (fun target => Edit.deleteMethods target name) _ (by simp [operation]) fun _ => rfl
  · rename_i code operation
    exact onTarget (fun target => Fragment.addMissingCode target code) _ (by simp [operation]) fun _ => rfl
  · rename_i method body operation
    exact onTarget (fun target => Fragment.replaceMethodBody target method body) _ (by simp [operation]) fun _ => rfl

end Transform

/-- Transforms are made one after the other, each in what the last one left. -/
theorem run_applyAll_cons (t : Transform) (ts : List Transform) (p : Project) : ((applyAll (t :: ts)).run p).1 =
    ⟨t.id, (t.apply.on p).1⟩ :: ((applyAll ts).run (t.apply.on p).2).1 := rfl

theorem ids_applyAll (ts : List Transform) (p : Project) :
    ((applyAll ts).run p).1.map (fun o => o.id) = ts.map fun t => t.id := by
  induction ts generalizing p with
  | nil => rfl
  | cons t ts ih => rw [run_applyAll_cons, map_cons, map_cons, ih]

theorem fault_of_mem_applyAll {ts : List Transform} {p : Project} {o : TransformOutcome}
    (mem : o ∈ ((applyAll ts).run p).1) : ∃ t ∈ ts, match o.result with
      | .ok _ => t.fault? = none
      | .error e => t.fault? = if e.isOwnFault then some e else none := by
  induction ts generalizing p with
  | nil => cases mem
  | cons t ts ih =>
    rw [run_applyAll_cons] at mem
    rcases mem_cons.mp mem with rfl | later
    · refine ⟨t, .head _, ?_⟩
      have first := t.ends_apply_fault? p
      unfold Ends at first
      unfold Change.on
      generalize t.apply.run.run p = run at first ⊢
      obtain ⟨outcome, q⟩ := run
      cases outcome <;> exact first
    · obtain ⟨u, inRest, own⟩ := ih later
      exact ⟨u, .tail _ inRest, own⟩

/-- The check accepts exactly the valid scripts. When the transforms of such a script are made, in any project,
each has its outcome, in their order, and none fails for want of a class or of an operator. -/
theorem Script.valid_scripts_fail_only_in_the_project (s : Script) : (s.checked = .ok s ↔ s.IsValid) ∧
    ∀ p : Project, ((s.apply.run p).1.map fun o => o.id) = s.transforms.map (fun t => t.id) ∧
      (s.checked = .ok s → ∀ o ∈ (s.apply.run p).1,
        (∀ id, o.result ≠ .error (.missingClass id)) ∧ ∀ text, o.result ≠ .error (.unknownOperator text)) := by
  refine ⟨checked_eq_ok_iff, fun p => ⟨ids_applyAll s.transforms p, fun checked o member => ?_⟩⟩
  obtain ⟨t, inScript, own⟩ := fault_of_mem_applyAll member
  have none : t.fault? = .none := ((checked_eq_ok_iff.mp checked).changes t inScript).fault?_eq_none
  rw [none] at own
  constructor <;> intro x failed <;> simp [failed, TransformError.isOwnFault] at own

/-- Two transforms and an expectation. -/
def Script.sample : Script where
  info := { inputs := ["src"] }
  transforms := [⟨"minus", none, .replaceOperator " plus" "-"⟩, ⟨"drop", some "A", .deleteMethod "m"⟩]
  expectations := [⟨"A", "k", some (.integer 1), none, none⟩]

/-- The check accepts the sample. In a project without classes its second transform fails, but not for want of
the name of a class. -/
theorem Script.valid_scripts_fail_only_in_the_project_sample : sample.checked = .ok sample ∧ sample.IsValid ∧
      ((sample.apply.run .empty).1.map fun o => o.result.isOk) = [true, false] ∧
      ∀ o ∈ (sample.apply.run .empty).1,
        (∀ id, o.result ≠ .error (.missingClass id)) ∧ ∀ text, o.result ≠ .error (.unknownOperator text) := by
  have checked : sample.checked = .ok sample := by
    have none : sample.issues = [] := by decide +kernel
    rw [Script.checked, none]
  obtain ⟨valid, run⟩ := sample.valid_scripts_fail_only_in_the_project
  exact ⟨checked, valid.mp checked, by decide +kernel, (run .empty).2 checked⟩

end JavaEdit
