import JavaEdit.Parser.Grammar
import JavaEdit.Proofs.Arena.Grown
import JavaEdit.Proofs.Parser.Primitives

/-!
# Parsers own what they make

A parser that gets some detached nodes answers nodes that are detached again, and every other node
it made hangs below them. `Uses L p used` says this of a parser that uses up the nodes `used`; the
nodes it answers are those that its result holds (`Holds`). What else a parser keeps in order as it
makes nodes can be said in the same way, so `L` stands for any such account (`Ledger`). Parsers are
put together as their code is, so instance search finds its way through most rules: parsers that
only read are `Quiet` and can be passed over, the answers of the others go to what follows (`Keeps`),
and what a parser uses up is taken out of what is at hand (`Takes`).
-/

namespace JavaEdit.Parser

open Arena List

variable {α β γ : Type}

/-- A parser that leaves the arena as it is. -/
class Quiet (p : Parser α) : Prop where
  arena_eq : ∀ s, Ends p s (fun _ s' => s'.arena = s.arena) fun _ s' => s'.arena = s.arena

/-! ## Nodes at hand -/

/-- The initializers among some declarators. -/
def initializers (names : List (String × Option NodeId)) : List NodeId := names.filterMap Prod.snd

theorem initializers_cons (name : String) (i : Option NodeId) (names : List (String × Option NodeId)) :
    initializers ((name, i) :: names) = i.toList ++ initializers names := by
  cases i <;> rfl

/-- Results that hold nodes. -/
class Holds (α : Type) where
  ids : α → List NodeId

open Holds (ids)

instance : Holds NodeId := ⟨fun id => [id]⟩
instance : Holds (Option NodeId) := ⟨Option.toList⟩
instance : Holds (List NodeId) := ⟨fun ids => ids⟩
instance : Holds (Kind NodeId) := ⟨Kind.children⟩
instance : Holds (List NodeId × β) := ⟨Prod.fst⟩
instance : Holds (Modifiers × List NodeId) := ⟨Prod.snd⟩
instance : Holds (List (String × Option NodeId)) := ⟨initializers⟩

/-- The nodes `used` are among those at hand, besides the `rest`. -/
class Takes (used atHand : List NodeId) (rest : outParam (List NodeId)) : Prop where
  enough : ∀ y, used.count y + rest.count y ≤ atHand.count y

/-- The children of a payload. -/
class Parts (k : Kind NodeId) (parts : outParam (List NodeId)) : Prop where
  children_eq : k.children = parts

section Takes

variable {x : NodeId} {xs ys atHand mid rest : List NodeId}

instance : Takes [] atHand atHand := ⟨fun y => by simp⟩
instance : Takes xs xs [] := ⟨fun y => by simp⟩
instance : Takes xs (xs ++ atHand) atHand := ⟨fun y => by simp⟩

instance (priority := low) [h : Takes xs atHand rest] : Takes xs (ys ++ atHand) (ys ++ rest) where
  enough z := by
    have := h.enough z
    simp only [count_append]
    omega

instance [h : Takes xs atHand mid] [h' : Takes ys mid rest] : Takes (xs ++ ys) atHand rest where
  enough z := by
    have := h.enough z
    have := h'.enough z
    simp only [count_append]
    omega

instance (priority := low) [h : Takes [x] atHand mid] [h' : Takes xs mid rest] : Takes (x :: xs) atHand rest :=
  inferInstanceAs (Takes ([x] ++ xs) atHand rest)

instance : Takes (none : Option NodeId).toList atHand atHand := inferInstanceAs (Takes [] atHand atHand)
instance [h : Takes [x] atHand rest] : Takes (some x).toList atHand rest := h

instance {name : String} {i : Option NodeId} {names : List (String × Option NodeId)}
    [h : Takes (i.toList ++ initializers names) atHand rest] : Takes (initializers ((name, i) :: names)) atHand rest :=
  initializers_cons name i names ▸ h
instance : Takes (initializers []) atHand atHand := inferInstanceAs (Takes [] atHand atHand)

instance {k : Kind NodeId} [parts : Parts k xs] [h : Takes xs atHand rest] : Takes k.children atHand rest := by
  rw [parts.children_eq]
  exact h

end Takes

/-! ## Putting parsers together -/

/-- What parsers keep in order while they have some nodes at hand, and what is left when they fail. -/
structure Ledger where
  good : Arena → List NodeId → Arena → Prop
  bad : Arena → Arena → Prop
  failed {base a : Arena} {held : List NodeId} : good base held a → bad base a
  /-- Nodes at hand may be forgotten, and listed in another order. -/
  sub {base a : Arena} {held fewer : List NodeId} : good base held a → (∀ y, fewer.count y ≤ held.count y) →
    good base fewer a
  /-- A new node has a position, and takes its children out of what is at hand. -/
  alloc {base a : Arena} {held : List NodeId} {k : Kind NodeId} : good base (k.children ++ held) a →
    ∀ file start stop cs, good base (a.size :: held) (a.alloc k (.real file start stop) cs).2
  addComment {base a : Arena} {held : List NodeId} {id : NodeId} (c : Comment) : good base held a → id ∈ held →
    good base held (a.addComment id c)

variable {L : Ledger}

/-- A parser that uses up some of the nodes at hand and answers new detached ones. -/
class Keeps (L : Ledger) [Holds α] (p : Parser α) (atHand : List NodeId) : Prop where
  keeps : ∀ base held s, L.good base (atHand ++ held) s.arena →
    Ends p s (fun x s' => L.good base (ids x ++ held) s'.arena) fun _ s' => L.bad base s'.arena

/-- A parser that uses up exactly these nodes. -/
class Uses (L : Ledger) [Holds α] (p : Parser α) (used : outParam (List NodeId)) : Prop where
  uses : Keeps L p used

section Combining

variable [Holds α] [Holds β] {p q : Parser α} {k : α → Parser β} {atHand used rest : List NodeId}

/-- What comes behind a parser that makes nodes, some of them from those at hand. -/
theorem Keeps.behind (h : Keeps L p used) (takes : Takes used atHand rest)
    (next : ∀ x, Keeps L (k x) (ids x ++ rest)) : Keeps L (p >>= k) atHand where
  keeps base held s good := by
    have start : L.good base (used ++ (rest ++ held)) s.arena := by
      refine L.sub good fun y => ?_
      have := takes.enough y
      simp only [count_append]
      omega
    refine (h.keeps base (rest ++ held) s start).bind fun x s' good' => ?_
    exact (next x).keeps base held s' (by rw [append_assoc]; exact good')

instance [h : Uses L p used] [takes : Takes used atHand rest] : Keeps L p atHand where
  keeps base held s good := by
    refine h.uses.keeps base held s (L.sub good fun y => ?_)
    have := takes.enough y
    simp only [count_append]
    omega

/-- What comes behind a parser that only reads. -/
instance (priority := low) {p : Parser γ} {k : γ → Parser β} [h : Quiet p] [next : ∀ x, Keeps L (k x) atHand] :
    Keeps L (p >>= k) atHand where
  keeps base held s good := by
    rw [ends_bind]
    refine (h.arena_eq s).mono (fun x s' same => ?_) fun _ s' same => ?_
    · exact (next x).keeps base held s' (same ▸ good)
    · exact same ▸ L.failed good

instance [h : Uses L p used] [takes : Takes used atHand rest] [next : ∀ x, Keeps L (k x) (ids x ++ rest)] :
    Keeps L (p >>= k) atHand :=
  h.uses.behind takes next

/-- What follows a pair gets its parts. -/
instance {δ : Type} [Holds (γ × δ)] {p : Parser (γ × δ)} {k : γ × δ → Parser β} [h : Uses L p used]
    [takes : Takes used atHand rest] [next : ∀ x y, Keeps L (k (x, y)) (ids (x, y) ++ rest)] : Keeps L (p >>= k) atHand :=
  h.uses.behind takes fun (x, y) => next x y

theorem Keeps.seq {p : Parser γ} {k : γ → Parser β} [Quiet p] (next : ∀ x, Keeps L (k x) atHand) :
    Keeps L (p >>= k) atHand := inferInstance

theorem Keeps.step [Uses L p []] (next : ∀ x, Keeps L (k x) (ids x ++ atHand)) : Keeps L (p >>= k) atHand := inferInstance

instance {c : Prop} [Decidable c] [h : Keeps L p atHand] [h' : Keeps L q atHand] : Keeps L (if c then p else q) atHand := by
  split <;> assumption

theorem uses_pure {x : α} : Uses L (pure x) (ids x) := ⟨⟨fun _ _ _ good => ends_pure.mpr good⟩⟩

instance {id : NodeId} : Uses L (pure id) [id] := uses_pure
instance {id? : Option NodeId} : Uses L (pure id?) id?.toList := uses_pure
variable {ids : List NodeId}

instance : Uses L (pure ids) ids := uses_pure
instance {k : Kind NodeId} : Uses L (pure k) k.children := uses_pure
instance {x : γ} : Uses L (pure (ids, x)) ids := uses_pure
instance {ms : Modifiers} : Uses L (pure (ms, ids)) ids := uses_pure
instance {names : List (String × Option NodeId)} : Uses L (pure names) (initializers names) := uses_pure

instance {p : Parser NodeId} [h : Uses L p used] : Uses L (some <$> p) used :=
  ⟨⟨fun base held s good => ends_map.mpr (h.uses.keeps base held s good)⟩⟩

instance [h : Uses L p used] : Uses L (nested p) used := by
  refine ⟨⟨fun base held s good => ?_⟩⟩
  rw [ends_nested]
  split
  · exact L.failed good
  · exact h.uses.keeps base held { s with depth := s.depth + 1 } good

end Combining

/-! ## Parsers that only read, fail or make one node -/

section Primitives

variable [Holds α]

instance {p : Parser γ} {view : ParserState → γ} [Looks p view] : Quiet p := ⟨fun s => by simp⟩
instance : Quiet advance := ⟨fun s => by simp⟩
instance (text : String) : Quiet (eat text) := ⟨fun s => by simp⟩
instance (text : String) : Quiet (expect text) := ⟨fun s => by simp⟩
instance : Quiet closeAngle := ⟨fun s => by simp⟩
instance : Quiet identifier := ⟨fun s => by simp⟩
instance : Quiet takeComments := ⟨fun s => by simp⟩
instance (cause : Cause) : Quiet (fail cause : Parser γ) := ⟨fun s => by simp⟩
instance (what : Expected) : Quiet (unexpected what : Parser γ) := ⟨fun s => by simp⟩
instance (what : Unsupported) : Quiet (refuse what : Parser γ) := ⟨fun s => by simp⟩

/-- Two ways to go on, one of them behind a token. -/
theorem Keeps.eaten {text : String} {p q : Parser α} {atHand : List NodeId} (h : Keeps L p atHand) (h' : Keeps L q atHand) :
    Keeps L (eat text >>= fun found => if found then p else q) atHand := inferInstance

instance (cause : Cause) : Uses L (fail cause : Parser α) [] := ⟨⟨fun _ _ _ good => ends_fail.mpr (L.failed good)⟩⟩
instance (token : Token) (cause : Cause) : Uses L (failAt token cause : Parser α) [] :=
  ⟨⟨fun _ _ _ good => ends_failAt.mpr (L.failed good)⟩⟩
instance (what : Expected) : Uses L (unexpected what : Parser α) [] :=
  ⟨⟨fun _ _ _ good => ends_unexpected.mpr (L.failed good)⟩⟩
instance (what : Unsupported) : Uses L (refuse what : Parser α) [] :=
  ⟨⟨fun _ _ _ good => ends_refuse.mpr (L.failed good)⟩⟩

/-- A loop without steps. -/
theorem Uses.outOfSteps {used : List NodeId} : Uses L (fail .outOfSteps : Parser α) used := ⟨inferInstance⟩

/-- The end of a list. -/
theorem Uses.done {used : List NodeId} : Uses L (pure [] : Parser (List NodeId)) used := ⟨inferInstance⟩

instance (start : Token) (k : Kind NodeId) (cs : List Comment) : Uses L (makeCommented start k cs) k.children :=
  ⟨⟨fun _ _ _ good => ends_makeCommented.mpr (L.alloc good ..)⟩⟩

instance (start : Token) (k : Kind NodeId) : Uses L (make start k) k.children :=
  inferInstanceAs (Uses L (makeCommented start k []) k.children)

/-- Comments go to a node at hand, which is still there behind them. -/
instance {id : NodeId} {cs : List Comment} : Uses L (attachComments id cs >>= fun _ => pure id) [id] := by
  refine ⟨⟨fun _ _ s good => ?_⟩⟩
  simp only [ends_bind, ends_attachComments, ends_pure]
  generalize s.arena = a at good
  induction cs generalizing a with
  | nil => exact good
  | cons c cs ih => exact ih _ (L.addComment c good (.head _))

instance {separator : String} {item : Parser NodeId} [Uses L item []] (steps : Nat) :
    Uses L (separated separator item steps) [] := by
  induction steps with
  | zero => exact .outOfSteps
  | succ steps ih => rw [separated]; exact ⟨inferInstance⟩

end Primitives

/-! ## Readers with loops -/

theorem Quiet.bind {p : Parser α} {k : α → Parser β} [h : Quiet p] [next : ∀ x, Quiet (k x)] : Quiet (p >>= k) where
  arena_eq s := by
    refine (h.arena_eq s).bind fun x s' same => ?_
    exact ((next x).arena_eq s').mono (fun _ _ eq => eq.trans same) fun _ _ eq => eq.trans same

theorem Quiet.ite {c : Prop} [Decidable c] {p q : Parser α} [h : Quiet p] [h' : Quiet q] :
    Quiet (if c then p else q) := by
  split <;> assumption

attribute [local instance] Quiet.bind Quiet.ite

instance (steps : Nat) : Quiet (dottedRest steps) := by
  induction steps with
  | zero => exact inferInstanceAs (Quiet (fail .outOfSteps))
  | succ steps ih => rw [dottedRest]; infer_instance

instance (steps : Nat) : Quiet (qualifiedName steps) := by unfold qualifiedName; infer_instance

instance (steps : Nat) (count : UInt8) : Quiet (dimensions steps count) := by
  induction steps generalizing count with
  | zero => exact inferInstanceAs (Quiet (fail .outOfSteps))
  | succ steps ih => rw [dimensions]; infer_instance

instance : Quiet jumpLabel := by unfold jumpLabel; infer_instance

instance : Quiet atRecord := by unfold atRecord; infer_instance

instance : Quiet refusePermits := by unfold refusePermits; infer_instance

instance (steps : Nat) : Quiet (importRest steps) := by
  induction steps with
  | zero => exact inferInstanceAs (Quiet (fail .outOfSteps))
  | succ steps ih => rw [importRest]; infer_instance

instance (steps : Nat) : Quiet (importLine steps) := by unfold importLine; infer_instance

instance (steps more : Nat) : Quiet (importLines steps more) := by
  induction more with
  | zero => exact inferInstanceAs (Quiet (fail .outOfSteps))
  | succ more ih => rw [importLines]; infer_instance

instance (steps : Nat) : Quiet (packageLine steps) := by unfold packageLine; infer_instance

instance : Quiet finish := by unfold finish; infer_instance

end JavaEdit.Parser
