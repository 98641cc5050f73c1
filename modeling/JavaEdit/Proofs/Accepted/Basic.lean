import JavaEdit.Proofs.Layout.Programs
import JavaEdit.Proofs.Reading.Basic
import JavaEdit.Proofs.Source.Genuine

/-!
# What parsers accept

A parser that succeeds on genuine tokens answers trees of the grammar. `Accepts p s post` says that
a run of `p` from `s`, if it does not fail, keeps what it found and ends as `post` says; nothing is
said about failures. `Sound r` is the statement about a set of rules that each rule's proof assumes
of the rules it calls: every goal is answered by a tree of the form that belongs to it.
-/

namespace JavaEdit

open Arena List

variable {s : ParserState} {separator : Char}

/-! ## Trees below nodes -/

/-- The tree below a node satisfies `P`. -/
def Arena.TreeAt (a : Arena) (P : Page → Prop) (id : NodeId) : Prop := Rooted a id ∧ P (a.commented id)

section TreeAt

variable {a b : Arena} {P Q : Page → Prop} {id : NodeId} {ids : List NodeId}

theorem Arena.TreeAt.extends (h : a.TreeAt P id) (grown : Extends a b) : b.TreeAt P id := by
  obtain ⟨rooted, same⟩ := h.1.extends grown
  exact ⟨rooted, same ▸ h.2⟩

theorem Arena.TreeAt.mono (h : a.TreeAt P id) (weaker : ∀ t, P t → Q t) : a.TreeAt Q id := ⟨h.1, weaker _ h.2⟩

/-- The trees below some nodes satisfy `P`. -/
def Arena.TreesAt (a : Arena) (P : Page → Prop) (ids : List NodeId) : Prop := ∀ id ∈ ids, a.TreeAt P id

theorem Arena.TreesAt.extends (h : a.TreesAt P ids) (grown : Extends a b) : b.TreesAt P ids :=
  fun id mem => (h id mem).extends grown

theorem Arena.TreesAt.nil : a.TreesAt P [] := nofun

theorem Arena.TreesAt.cons (first : a.TreeAt P id) (others : a.TreesAt P ids) :
    a.TreesAt P (id :: ids) := fun other mem =>
  (mem_cons.mp mem).elim (fun same => same ▸ first) (others other)

theorem Arena.TreesAt.single (h : a.TreeAt P id) : a.TreesAt P [id] := .cons h .nil

theorem Arena.TreesAt.append {more : List NodeId} (h : a.TreesAt P ids) (h' : a.TreesAt P more) :
    a.TreesAt P (ids ++ more) := fun id mem =>
  (mem_append.mp mem).elim (h id) (h' id)

theorem Arena.TreesAt.mono (h : a.TreesAt P ids) (weaker : ∀ t, P t → Q t) : a.TreesAt Q ids :=
  fun id mem => (h id mem).mono weaker

theorem Arena.TreesAt.rooted (h : a.TreesAt P ids) : ∀ id ∈ ids, Rooted a id := fun id mem => (h id mem).1

/-- The trees below the nodes of a list. -/
theorem Arena.TreesAt.each (h : a.TreesAt P ids) : ∀ t ∈ ids.map a.commented, P t := by
  simp only [mem_map, forall_exists_index, and_imp, forall_apply_eq_imp_iff₂]
  exact fun id mem => (h id mem).2

theorem Arena.TreesAt.optional {id : Option NodeId} (h : a.TreesAt P id.toList) : ∀ t ∈ id.map a.commented, P t := by
  cases id with
  | none => nofun
  | some id =>
    rintro t ⟨⟩
    exact (h id (by simp)).2

end TreeAt

/-! ## Genuine states -/

/-- All tokens ahead are genuine. -/
def ParserState.Genuine (s : ParserState) : Prop := ∀ t ∈ s.rest, t.Genuine

theorem genuine_endToken : Parser.endToken.Genuine := ⟨nofun, by simp [Parser.endToken], nofun⟩

theorem ParserState.Genuine.tokenAt (h : s.Genuine) (n : Nat) : (Parser.tokenAt s.rest n).Genuine := by
  unfold Parser.tokenAt
  cases found : s.rest[n]? with
  | some t => exact h t (mem_of_getElem? found)
  | none =>
    rw [Option.getD_none, getLastD_eq_getLast?]
    cases last : s.rest.getLast? with
    | some t => exact h t (mem_of_getLast? last)
    | none => exact genuine_endToken

theorem ParserState.Genuine.token (h : s.Genuine) : s.token.Genuine := h.tokenAt 0

theorem ParserState.Genuine.advanced (h : s.Genuine) : s.advanced.Genuine := by
  unfold ParserState.advanced
  split
  · rename_i token next ts rest
    intro t mem
    exact h t (by rw [rest]; exact .tail _ mem)
  · exact h

/-- Both halves of an operator are operators. -/
theorem ParserState.Genuine.split (genuine : s.Genuine) : s.split.Genuine := by
  unfold ParserState.split
  split
  · rename_i token ts rest
    split
    · rename_i angle
      rw [Bool.and_eq_true, Bool.and_eq_true, beq_iff_eq] at angle
      have whole := genuine token (by simp [rest])
      have halves : ∀ t : Token, t.kind = .operator → (∀ c ∈ t.comments, c.IsWritten) →
          t.Genuine := fun t operator written =>
        ⟨by rw [operator]; nofun, by rw [operator]; exact fun real => real.elim nofun nofun, written⟩
      exact forall_mem_cons.mpr ⟨halves _ angle.1.1 whole.comments,
        forall_mem_cons.mpr ⟨halves _ angle.1.1 nofun, fun t mem => genuine t (by simp [rest, mem])⟩⟩
    · exact genuine
  · exact genuine

theorem ParserState.Genuine.uncommented (h : s.Genuine) : s.uncommented.Genuine := by
  unfold ParserState.uncommented
  split
  · rename_i token ts rest
    have first := h token (by simp [rest])
    exact forall_mem_cons.mpr ⟨⟨first.identifier, first.number, nofun⟩, fun t mem => h t (by simp [rest, mem])⟩
  · exact h

theorem kept_uncommented (s : ParserState) : Kept s s.uncommented := by
  unfold ParserState.uncommented
  split
  · exact ⟨rfl, rfl, .refl _⟩
  · exact .refl s

namespace Parser

variable {text : String}

/-! ## Runs -/

/-- A run from genuine tokens fails, or keeps what it found and ends as `post` says. -/
def Accepts {α : Type} (p : Parser α) (s : ParserState) (post : α → ParserState → Prop) : Prop :=
  s.Genuine → Ends p s (fun x s' => s'.Genuine ∧ Kept s s' ∧ post x s') fun _ _ => True

section Running

variable {α β : Type} {p q : Parser α} {k : α → Parser β} {s : ParserState}
  {mid : α → ParserState → Prop} {post : β → ParserState → Prop}

theorem Accepts.bind (h : Accepts p s mid)
    (next : ∀ x s', Kept s s' → mid x s' → Accepts (k x) s' post) : Accepts (p >>= k) s post := by
  intro genuine
  refine (h genuine).bind fun x s' ⟨genuine', kept, result⟩ => ?_
  exact (next x s' kept result genuine').imp fun _ _ ⟨g, further, result⟩ => ⟨g, kept.trans further, result⟩

theorem Accepts.mono {post' : β → ParserState → Prop} {p : Parser β} (h : Accepts p s post)
    (weaker : ∀ x s', Kept s s' → post x s' → post' x s') : Accepts p s post' := fun genuine =>
  (h genuine).imp fun _ _ ⟨g, kept, result⟩ => ⟨g, kept, weaker _ _ kept result⟩

/-- Nothing follows a parser that always fails. -/
theorem Accepts.absurd (h : Accepts p s fun _ _ => False) : Accepts (p >>= k) s post := h.bind nofun

/-- The result of a run, given another form. -/
theorem Accepts.map {f : α → β} (h : Accepts p s mid)
    (weaker : ∀ x s', Kept s s' → mid x s' → post (f x) s') : Accepts (f <$> p) s post := by
  intro genuine
  rw [ends_map]
  exact (h genuine).imp fun _ _ ⟨g, kept, result⟩ => ⟨g, kept, weaker _ _ kept result⟩

theorem accepts_pure {x : β} (h : post x s) : Accepts (pure x) s post := fun genuine => ⟨genuine, .refl s, h⟩

theorem Accepts.genuinely {p : Parser β} (h : s.Genuine → Accepts p s post) : Accepts p s post :=
  fun genuine => h genuine genuine

/-- Two ways to one continuation. -/
theorem Accepts.either {c : Prop} [Decidable c] (mid : α → ParserState → Prop)
    (hp : c → Accepts p s mid) (hq : ¬ c → Accepts q s mid)
    (next : ∀ x s', Kept s s' → mid x s' → Accepts (k x) s' post) :
    Accepts (if c then p >>= k else q >>= k) s post := by
  split
  · exact (hp ‹c›).bind next
  · exact (hq ‹¬ c›).bind next

theorem Accepts.unless {c : Prop} [Decidable c] {p q : Parser β} (refused : Accepts p s post)
    (h : ¬ c → Accepts q s post) : Accepts (if c then p else q) s post := by
  split
  · exact refused
  · exact h ‹¬ c›

theorem accepts_nested {p : Parser β} (h : Accepts p { s with depth := s.depth + 1 }
      fun x s' => post x { s' with depth := s'.depth - 1 }) : Accepts (nested p) s post := by
  intro genuine
  rw [ends_nested]
  split
  · trivial
  · refine (h genuine).imp fun x s' ⟨g, kept, result⟩ => ⟨g, ⟨?_, kept.typeNames_eq, kept.grown⟩, result⟩
    rw [kept.depth_eq]
    rfl

end Running

section Failing

variable {α : Type} {s : ParserState} {post : α → ParserState → Prop}

@[simp] theorem accepts_fail {cause : Cause} : Accepts (fail cause : Parser α) s post := fun _ => trivial

@[simp] theorem accepts_failAt {token : Token} {cause : Cause} : Accepts (failAt token cause : Parser α) s post :=
  fun _ => trivial

@[simp] theorem accepts_unexpected {what : Expected} : Accepts (unexpected what : Parser α) s post := fun _ => trivial

@[simp] theorem accepts_refuse {what : Unsupported} : Accepts (refuse what : Parser α) s post := fun _ => trivial

end Failing

@[simp] theorem accepts_look {α β : Type} {p : Parser α} {view : ParserState → α} [Looks p view] {f : α → Parser β}
    {s : ParserState} {post : β → ParserState → Prop} : Accepts (p >>= f) s post ↔ Accepts (f (view s)) s post := by
  unfold Accepts
  rw [ends_bind, ends_look]

section Stepping

variable {α β : Type} {s : ParserState} {post : β → ParserState → Prop}

theorem Accepts.after {s' : ParserState} {p : Parser β} (kept : Kept s s') (h : Accepts p s' post)
    (genuine : s'.Genuine) : Ends p s' (fun x s'' => s''.Genuine ∧ Kept s s'' ∧ post x s'') fun _ _ => True :=
  (h genuine).imp fun _ _ ⟨g, further, result⟩ => ⟨g, kept.trans further, result⟩

theorem accepts_advance {f : Token → Parser β} (next : Accepts (f s.token) s.advanced post) :
    Accepts (advance >>= f) s post := by
  intro genuine
  rw [ends_bind, ends_advance]
  exact next.after (kept_advanced s) genuine.advanced

theorem accepts_eaten {f : Bool → Parser β} (eaten : s.token.is text → Accepts (f true) s.advanced post)
    (other : s.token.is text = false → Accepts (f false) s post) : Accepts (eat text >>= f) s post := by
  intro genuine
  rw [ends_bind, ends_eat]
  split
  · exact (eaten ‹_›).after (kept_advanced s) genuine.advanced
  · exact other (Bool.eq_false_iff.mpr ‹_›) genuine

theorem accepts_eating : Accepts (eat text) s fun _ _ => True := by
  rw [← bind_pure (eat text)]
  exact accepts_eaten (fun _ => accepts_pure trivial) fun _ => accepts_pure trivial

/-- Two ways to go on, one of them behind a token. -/
theorem accepts_eat {p q : Parser β} (eaten : s.token.is text → Accepts p s.advanced post)
    (other : s.token.is text = false → Accepts q s post) :
    Accepts (eat text >>= fun found => if found then p else q) s post :=
  accepts_eaten eaten other

/-- Two ways to one continuation, one of them behind a token. -/
theorem Accepts.eatEither (mid : α → ParserState → Prop) {p q : Parser α} {k : α → Parser β}
    (hp : Accepts p s.advanced mid) (hq : Accepts q s mid)
    (next : ∀ x s', Extends s.arena s'.arena → mid x s' → Accepts (k x) s' post) :
    Accepts (eat text >>= fun found => if found then p >>= k else q >>= k) s post :=
  accepts_eat (fun _ => hp.bind fun x s' kept => next x s' kept.grown)
    fun _ => hq.bind fun x s' kept => next x s' kept.grown

theorem accepts_expect {f : Unit → Parser β}
    (next : Accepts (f ()) s.advanced post) : Accepts (expect text >>= f) s post := by
  intro genuine
  rw [ends_bind, ends_expect]
  split
  · exact next.after (kept_advanced s) genuine.advanced
  · trivial

theorem accepts_identifier {f : String → Parser β} (next : ∀ n, isIdentifier n → Accepts (f n) s.advanced post) :
    Accepts (identifier >>= f) s post := by
  intro genuine
  rw [ends_bind, ends_identifier]
  split
  · rename_i isName
    refine (next _ ?_).after (kept_advanced s) genuine.advanced
    exact genuine.token.identifier (beq_iff_eq.mp isName)
  · trivial

theorem accepts_takeComments {f : List Comment → Parser β}
    (next : ∀ cs, (∀ c ∈ cs, c.IsWritten) → Accepts (f cs) s.uncommented post) :
    Accepts (takeComments >>= f) s post := by
  intro genuine
  rw [ends_bind, ends_takeComments]
  refine (next _ ?_).after (kept_uncommented s) genuine.uncommented
  cases rest : s.rest with
  | nil => nofun
  | cons token ts => exact (genuine token (by simp [rest])).comments

end Stepping

section Making

variable {s : ParserState} {start : Token} {kind : Kind NodeId} {cs : List Comment}
  {P : Page → Prop}

theorem accepts_makeCommented (rooted : ∀ c ∈ kind.children, Rooted s.arena c)
    (h : P (.node cs (kind.map s.arena.commented))) : Accepts (makeCommented start kind cs) s fun id s' =>
      s'.arena.TreeAt P id ∧ s.arena.size ≤ id ∧ s'.rest = s.rest := by
  intro genuine
  have shown := Shows.alloc rooted rfl (.real s.file start.start s.lastStop) cs
  exact ⟨genuine, ⟨rfl, rfl, extends_alloc ..⟩, ⟨shown.1, shown.2 ▸ h⟩, Nat.le_refl _, rfl⟩

theorem accepts_commented (rooted : ∀ c ∈ kind.children, Rooted s.arena c) (h : P (.node cs (kind.map s.arena.commented))) :
    Accepts (makeCommented start kind cs) s fun id s' => s'.arena.TreeAt P id :=
  (accepts_makeCommented rooted h).mono fun _ _ _ made => made.1

theorem accepts_make (rooted : ∀ c ∈ kind.children, Rooted s.arena c) (h : P (.node [] (kind.map s.arena.commented))) :
    Accepts (make start kind) s fun id s' => s'.arena.TreeAt P id := accepts_commented rooted h

end Making

/-! ## Lists and names -/

theorem accepts_separated {P : Page → Prop} {separator : String} {item : Parser NodeId}
    (h : ∀ s, Accepts item s fun id s' => s'.arena.TreeAt P id) (steps : Nat) :
    Accepts (separated separator item steps) s fun ids s' => ids ≠ [] ∧ s'.arena.TreesAt P ids := by
  induction steps generalizing s with
  | zero => exact accepts_fail
  | succ steps ih =>
    refine (h s).bind fun id s' _ first => accepts_eat (fun _ => ?_) fun _ => ?_
    · refine ih.bind fun ids s'' kept' ⟨_, others⟩ => accepts_pure ⟨by simp, ?_⟩
      exact .cons (first.extends kept'.grown) others
    · exact accepts_pure ⟨by simp, .single first⟩

theorem accepts_dottedRest (steps : Nat) : Accepts (dottedRest steps) s fun parts _ => ∀ n ∈ parts, isIdentifier n := by
  induction steps generalizing s with
  | zero => exact accepts_fail
  | succ steps ih =>
    rw [dottedRest]
    simp only [accepts_look]
    split
    · rename_i more
      rw [Bool.and_eq_true, beq_iff_eq] at more
      refine .genuinely fun genuine => accepts_advance (accepts_advance ?_)
      have known : isIdentifier s.advanced.token.text := by
        rw [s.token_advanced]
        exact (genuine.tokenAt 1).identifier more.2
      refine ih.bind fun parts s' _ others => accepts_pure fun n mem => ?_
      exact (mem_cons.mp mem).elim (fun same => same ▸ known) (others n)
    · exact accepts_pure (forall_mem_nil _)

end Parser

theorem Text.splitChars_append {part : List Char} (none : separator ∉ part)
    (cs : List Char) : Text.splitChars separator (part ++ separator :: cs) = part :: Text.splitChars separator cs := by
  induction part with
  | nil => simp [Text.splitChars]
  | cons c part ih =>
    rw [mem_cons, not_or] at none
    have other : (c == separator) = false := by simpa using Ne.symm none.1
    rw [cons_append, Text.splitChars, ih none.2, other]
    rfl

theorem Text.splitChars_eq {part : List Char} (none : separator ∉ part) : Text.splitChars separator part = [part] := by
  induction part with
  | nil => rfl
  | cons c part ih =>
    rw [mem_cons, not_or] at none
    have other : (c == separator) = false := by simpa using Ne.symm none.1
    rw [Text.splitChars, ih none.2, other]
    rfl

theorem Text.splitChars_intercalate (part : List Char) (parts : List (List Char))
    (none : ∀ p ∈ part :: parts, separator ∉ p) :
    Text.splitChars separator ([separator].intercalate (part :: parts)) = part :: parts := by
  induction parts generalizing part with
  | nil => rw [intercalate_singleton, splitChars_eq (none part (by simp))]
  | cons next parts ih =>
    rw [intercalate_cons_cons, append_assoc, singleton_append, splitChars_append (none part (by simp)),
      ih next fun p mem => none p (.tail _ mem)]

theorem isNamePart_of_isIdentifier {n : String} (h : isIdentifier n) :
    n.toList ≠ [] ∧ ∀ c ∈ n.toList, Lexer.isNamePart c := by
  obtain ⟨c, cs, chars, -, parts⟩ := Lexer.exists_of_isName (isName_of_isIdentifier h)
  exact chars ▸ ⟨cons_ne_nil _ _, parts⟩

theorem point_not_mem {n : String} (h : isIdentifier n) : '.' ∉ n.toList := fun point =>
  absurd ((isNamePart_of_isIdentifier h).2 _ point) (by decide)

theorem isDotted_intercalate {first : String} {parts : List String}
    (h : isIdentifier first) (others : ∀ n ∈ parts, isIdentifier n) :
    isDotted (".".intercalate (first :: parts)) := by
  have each : ∀ n ∈ first :: parts, isIdentifier n := fun n mem =>
    (mem_cons.mp mem).elim (fun same => same ▸ h) (others n)
  have cut : Text.split '.' (".".intercalate (first :: parts)) = first :: parts := by
    unfold Text.split
    rw [String.toList_intercalate, map_cons]
    rw [show ".".toList = ['.'] from rfl, Text.splitChars_intercalate]
    · simp
    · intro p mem
      rw [← map_cons, mem_map] at mem
      obtain ⟨n, inside, rfl⟩ := mem
      exact point_not_mem (each n inside)
  unfold isDotted
  rw [cut, all_eq_true]
  exact each

namespace Parser

theorem accepts_qualifiedName (steps : Nat) : Accepts (qualifiedName steps) s fun n _ => isDotted n := by
  refine accepts_identifier fun _ known => (accepts_dottedRest steps).bind ?_
  exact fun _ s' _ others => accepts_pure (isDotted_intercalate known others)

end Parser

/-! ## The rules -/

/-- What is known of every node that was read: its comments can be read, a literal has a value that
a text denotes, and no `else` stands behind a branch that would have taken it. -/
def Made (t : Page) : Prop :=
  (∀ c ∈ t.label, c.IsWritten) ∧
    match t.kind with
    | .literal value => value.IsDenoted
    | .ifElse _ thenBranch (some _) => Layout.endsWithOpenIf thenBranch = false
    | _ => True

/-- Expressions that were read. -/
abbrev IsValue : Page → Prop := IsExpression Made .operand

namespace Parser

/-- What a goal takes for granted. -/
def Goal.Asks : Goal → ParserState → Prop
  | .typeDeclaration _ comments ms annotations, s =>
    (∀ c ∈ comments, c.IsWritten) ∧ ms.Canonical ∧ s.arena.TreesAt (IsNote Made .use) annotations
  | _, _ => True

def Goal.Answers (goal : Goal) (s : ParserState) (id : NodeId) (s' : ParserState) : Prop :=
  match goal with
  | .expression | .conditional | .operation _ | .unary => s'.arena.TreeAt IsValue id
  | .type => s'.arena.TreeAt (IsType .plain) id
  | .annotationUse => s'.arena.TreeAt (IsNote Made .use) id
  | .block => s'.arena.TreeAt (IsStatement Made .body) id ∧ s.arena.size ≤ id
  | .statement =>
    s'.arena.TreeAt (IsStatement Made .branch) id ∧
      (Layout.endsWithOpenIf (s'.arena.commented id) = true → s'.token.is "else" = false)
  | .typeDeclaration .. => s'.arena.TreeAt (fun t => ∀ owner, IsDeclaration Made owner t) id

/-- Rules that answer every goal by what belongs to it. -/
def Sound (r : Rules) : Prop := ∀ goal s, goal.Asks s → Accepts (r.parse goal) s (goal.Answers s)

end Parser

end JavaEdit
