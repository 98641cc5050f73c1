import JavaEdit.Proofs.Arena.Shown
import JavaEdit.Proofs.Parser.Primitives
import JavaEdit.Proofs.Source.Lexing

/-!
# Reading words

What a parser does depends on the words ahead and not on the places they stand at. `At s ws` says
that the words `ws` are ahead, up to the end of the text. A run that goes well keeps the arena it
found and ends in front of certain words with a certain result; the only other outcome that
`Goes` admits is that a limit is reached, on steps or, at depths that are `deep`, on nesting. `Reads` is
the case in which the words that are left are known.
-/

namespace JavaEdit

variable {s : ParserState}

/-! ## Words -/

namespace Token

@[simp] theorem kind_plain (t : Token) : t.plain.kind = t.kind := rfl

@[simp] theorem text_plain (t : Token) : t.plain.text = t.text := rfl

@[simp] theorem comments_plain (t : Token) : t.plain.comments = t.comments := rfl

@[simp] theorem is_plain (t : Token) (text : String) : t.plain.is text = t.is text := rfl

@[simp] theorem isPrimitive_plain (t : Token) : t.plain.isPrimitive = t.isPrimitive := rfl

variable {t : Token} {a b : String}

theorem is_iff : t.is a ↔ (t.kind = .operator ∨ t.kind = .keyword) ∧ t.text = a := by simp [Token.is]

/-- A word is only one text. -/
theorem is_eq_false (is : t.is a) (other : a ≠ b) : t.is b = false := by
  rw [Bool.eq_false_iff]
  exact fun is' => other ((is_iff.mp is).2.symm.trans (is_iff.mp is').2)

theorem is_of_identifier (h : t.kind = .identifier) (a : String) : t.is a = false := by simp [Token.is, h]

theorem kind_ne_eof_of_is (is : t.is a) : t.kind ≠ .eof := by
  rcases (is_iff.mp is).1 with kind | kind <;> rw [kind] <;> nofun

end Token

theorem Parser.tokenAt_plain (ts : List Token) (n : Nat) :
    tokenAt (ts.map Token.plain) n = (tokenAt ts n).plain := tokenAt_map rfl ts n

namespace ParserState

variable {ws : List Token}

/-- The words ahead, with the end of the text. -/
def words (s : ParserState) : List Token := s.rest.map Token.plain

/-- The words ahead are `ws`, and then the text ends. -/
def At (s : ParserState) (ws : List Token) : Prop := s.words = ws ++ [Parser.endToken]

/-- The first word, or the end of the text. -/
def firstWord (ws : List Token) : Token := ws.headD Parser.endToken

@[simp] theorem firstWord_nil : firstWord [] = Parser.endToken := rfl

@[simp] theorem firstWord_cons (w : Token) (ws : List Token) : firstWord (w :: ws) = w := rfl

theorem At.token (h : s.At ws) : s.token.plain = firstWord ws := by
  unfold At words at h
  unfold ParserState.token Parser.tokenAt
  cases tokens : s.rest with
  | nil =>
    rw [tokens] at h
    simp at h
  | cons t ts =>
    rw [tokens] at h
    cases ws <;> simp_all

theorem At.is (h : s.At ws) (text : String) : s.token.is text = (firstWord ws).is text := by
  rw [← h.token, Token.is_plain]

theorem At.kind (h : s.At ws) : s.token.kind = (firstWord ws).kind := by
  rw [← h.token, Token.kind_plain]

theorem At.text (h : s.At ws) : s.token.text = (firstWord ws).text := by
  rw [← h.token, Token.text_plain]

/-- Words further ahead. -/
theorem At.tokenAt (h : s.At ws) (n : Nat) :
    (Parser.tokenAt s.rest n).plain = Parser.tokenAt (ws ++ [Parser.endToken]) n := by
  rw [← Parser.tokenAt_plain]
  exact congrArg (fun ts => Parser.tokenAt ts n) h

theorem At.is_tokenAt (h : s.At ws) (n : Nat) (text : String) :
    (Parser.tokenAt s.rest n).is text = (Parser.tokenAt (ws ++ [Parser.endToken]) n).is text := by
  rw [← h.tokenAt, Token.is_plain]

theorem At.kind_tokenAt (h : s.At ws) (n : Nat) :
    (Parser.tokenAt s.rest n).kind = (Parser.tokenAt (ws ++ [Parser.endToken]) n).kind := by
  rw [← h.tokenAt, Token.kind_plain]

theorem At.plain_rest (h : s.At ws) : s.rest.map Token.plain = ws ++ [Parser.endToken] := h

theorem At.rest_eq {w : Token} (h : s.At (w :: ws)) : ∃ token ts, s.rest = token :: ts ∧ token.plain = w ∧
      ts.map Token.plain = ws ++ [Parser.endToken] := by
  unfold At words at h
  rw [List.cons_append] at h
  obtain ⟨token, ts, rest, first, others⟩ := List.map_eq_cons_iff.mp h
  exact ⟨token, ts, rest, first, others⟩

theorem At.advanced {w : Token} (h : s.At (w :: ws)) : s.advanced.At ws := by
  obtain ⟨token, ts, rest, -, others⟩ := h.rest_eq
  unfold At words ParserState.advanced
  rw [rest]
  cases ts with
  | nil => simp at others
  | cons t ts => exact others

end ParserState

open ParserState (firstWord)

/-! ## Runs that go well -/

/-- What a parser leaves as it was. -/
structure Kept (s s' : ParserState) : Prop where
  depth_eq : s'.depth = s.depth
  typeNames_eq : s'.typeNames = s.typeNames
  grown : Arena.Extends s.arena s'.arena

theorem Kept.refl (s : ParserState) : Kept s s := ⟨rfl, rfl, .refl _⟩

theorem Kept.trans {s' s'' : ParserState} (h : Kept s s') (h' : Kept s' s'') : Kept s s'' where
  depth_eq := h'.depth_eq.trans h.depth_eq
  typeNames_eq := h'.typeNames_eq.trans h.typeNames_eq
  grown := h.grown.trans h'.grown

theorem kept_advanced (s : ParserState) : Kept s s.advanced := ⟨rfl, rfl, .refl _⟩

theorem kept_split (s : ParserState) : Kept s s.split := by
  unfold ParserState.split
  split
  · split
    · exact ⟨rfl, rfl, .refl _⟩
    · exact .refl s
  · exact .refl s

/-- The limits of the parser, of which nesting counts if it may be too deep. The number of steps is never reached
where a text is read (`Parser.readWith_ne_outOfSteps`), so no rule has to count them. -/
def AtLimit (deep : Prop) (e : ParseError) : Prop := deep ∧ e.cause = .nestingTooDeep ∨ e.cause = .outOfSteps

/-- The run of a parser ends with a result, words ahead and an arena as `out` says, or at a limit. -/
def Goes {α : Type} (p : Parser α) (s : ParserState) (out : α → List Token → Arena → Prop)
    (deep : Nat → Prop := fun _ => True) : Prop :=
  Ends p s (fun x s' => Kept s s' ∧ out x s'.words s'.arena) fun e _ => AtLimit (deep s.depth) e

/-- The run of a parser reads the words up to `rest` with a result as `out` says, or ends at a limit. -/
def Reads {α : Type} (p : Parser α) (s : ParserState) (rest : List Token)
    (out : Arena → α → Prop) (deep : Nat → Prop := fun _ => True) : Prop :=
  Goes p s (fun x ws a => ws = rest ++ [Parser.endToken] ∧ out a x) deep

/-- Nesting may be too deep at the limit. -/
class Limited (deep : Nat → Prop) : Prop where
  deep_of_le : ∀ depth, nestingLimit ≤ depth → deep depth

instance : Limited fun _ => True := ⟨fun _ _ => trivial⟩

instance : Limited (nestingLimit ≤ ·) := ⟨fun _ => id⟩

open Parser

section Running

variable {deep : Nat → Prop} {α β : Type} {p : Parser α} {f : α → Parser β} {rest : List Token}
    {mid : α → List Token → Arena → Prop} {out : β → List Token → Arena → Prop}

theorem Goes.after {s' : ParserState} {p : Parser β} (kept : Kept s s') (h : Goes p s' out deep) :
    Ends p s' (fun x s'' => Kept s s'' ∧ out x s''.words s''.arena) fun e _ => AtLimit (deep s.depth) e := by
  rw [← kept.depth_eq]
  exact h.imp fun _ _ ⟨further, result⟩ => ⟨kept.trans further, result⟩

theorem Goes.bind (h : Goes p s mid deep)
    (next : ∀ x s', Kept s s' → mid x s'.words s'.arena → Goes (f x) s' out deep) : Goes (p >>= f) s out deep :=
  Ends.bind h fun x s' ⟨kept, result⟩ => (next x s' kept result).after kept

variable {result : Arena → α → Prop}

theorem Reads.bind (h : Reads p s rest result deep)
    (next : ∀ x s', Kept s s' → s'.At rest → result s'.arena x → Goes (f x) s' out deep) : Goes (p >>= f) s out deep :=
  Goes.bind h fun x s' kept ⟨at', result⟩ => next x s' kept at' result

theorem Goes.mono {out' : β → List Token → Arena → Prop} {p : Parser β} (h : Goes p s out deep)
    (weaker : ∀ x ws a, out x ws a → out' x ws a) : Goes p s out' deep :=
  Ends.imp h fun _ _ ⟨kept, result⟩ => ⟨kept, weaker _ _ _ result⟩

theorem goes_outOfSteps : Goes (fail .outOfSteps : Parser α) s mid deep := .inr rfl

theorem goes_pure {x : α} (h : mid x s.words s.arena) : Goes (pure x) s mid deep := ⟨.refl s, h⟩

theorem reads_pure {x : α} (ahead : s.At rest)
    (h : result s.arena x) : Reads (pure x) s rest result deep :=
  goes_pure ⟨ahead, h⟩

/-- Two parsers to choose from, with the same one behind them. -/
theorem Goes.either {c : Prop} [Decidable c] {q : Parser α} (h : Goes ((if c then p else q) >>= f) s out deep) :
    Goes (if c then p >>= f else q >>= f) s out deep := by
  split
  · rename_i chosen
    rwa [if_pos chosen] at h
  · rename_i chosen
    rwa [if_neg chosen] at h

theorem goes_nested [Limited deep] {p : Parser β}
    (h : Goes p { s with depth := s.depth + 1 } out fun depth => deep (depth - 1)) : Goes (nested p) s out deep := by
  unfold Goes
  rw [ends_nested]
  split
  · exact .inl ⟨Limited.deep_of_le _ ‹_›, rfl⟩
  · refine Ends.imp h fun x s' ⟨kept, result⟩ => ⟨⟨?_, kept.typeNames_eq, kept.grown⟩, result⟩
    show s'.depth - 1 = s.depth
    rw [kept.depth_eq]
    rfl

/-- The same words are ahead one level deeper. -/
theorem goes_deeper [Limited deep] {p : Parser β} {ws : List Token} (ahead : s.At ws)
    (next : ∀ s', s'.At ws → Goes p s' out fun depth => deep (depth - 1)) : Goes (nested p) s out deep :=
  goes_nested (next _ ahead)

end Running

namespace Parser

variable {deep : Nat → Prop} {text : String}

theorem goes_look {α β : Type} {p : Parser α} {view : ParserState → α} [Looks p view] {f : α → Parser β}
    {out : β → List Token → Arena → Prop} : Goes (p >>= f) s out deep ↔ Goes (f (view s)) s out deep := by
  unfold Goes
  rw [ends_bind, ends_look]

section Stepping

variable {β : Type} {w : Token} {ws : List Token} {out : β → List Token → Arena → Prop}

theorem goes_advance {f : Token → Parser β} (ahead : s.At (w :: ws))
    (next : ∀ t s', Kept s s' → s'.At ws → t.plain = w → Goes (f t) s' out deep) : Goes (advance >>= f) s out deep := by
  unfold Goes
  rw [ends_bind, ends_advance]
  exact (next s.token s.advanced (kept_advanced s) ahead.advanced ahead.token).after (kept_advanced s)

theorem goes_eat {f : Bool → Parser β} (ahead : s.At (w :: ws))
    (same : w.is text) (next : ∀ s', Kept s s' → s'.At ws → Goes (f true) s' out deep) :
    Goes (eat text >>= f) s out deep := by
  unfold Goes
  rw [ends_bind, ends_eat, ahead.is, ParserState.firstWord_cons, same, if_pos rfl]
  exact (next s.advanced (kept_advanced s) ahead.advanced).after (kept_advanced s)

theorem goes_eat_not {f : Bool → Parser β} (ahead : s.At ws)
    (other : (firstWord ws).is text = false) (next : Goes (f false) s out deep) : Goes (eat text >>= f) s out deep := by
  unfold Goes
  rw [ends_bind, ends_eat, ahead.is, other, if_neg (by simp)]
  exact next

/-- A token that may stand in front. -/
theorem goes_eat_if {f : Bool → Parser β} {found : Bool} (ahead : s.At ((if found then [w] else []) ++ ws))
    (same : w.is text) (other : (firstWord ws).is text = false)
    (next : ∀ s', Kept s s' → s'.At ws → Goes (f found) s' out deep) : Goes (eat text >>= f) s out deep := by
  cases found with
  | true => exact goes_eat ahead same next
  | false => exact goes_eat_not ahead other (next s (.refl s) ahead)

theorem goes_expect {f : Unit → Parser β} (ahead : s.At (w :: ws))
    (same : w.is text) (next : ∀ s', Kept s s' → s'.At ws → Goes (f ()) s' out deep) :
    Goes (expect text >>= f) s out deep := by
  unfold Goes
  rw [ends_bind, ends_expect, ahead.is, ParserState.firstWord_cons, same, if_pos rfl]
  exact (next s.advanced (kept_advanced s) ahead.advanced).after (kept_advanced s)

theorem reads_expect (ahead : s.At (w :: ws)) (same : w.is text) : Reads (expect text) s ws (fun _ _ => True) deep := by
  unfold Reads Goes
  rw [ends_expect, ahead.is, ParserState.firstWord_cons, same, if_pos rfl]
  exact ⟨kept_advanced s, ahead.advanced, trivial⟩

theorem goes_identifier {f : String → Parser β} (ahead : s.At (w :: ws)) (name : w.kind = .identifier)
    (next : ∀ s', Kept s s' → s'.At ws → Goes (f w.text) s' out deep) : Goes (identifier >>= f) s out deep := by
  unfold Goes
  rw [ends_bind, ends_identifier, ahead.kind, ahead.text, ParserState.firstWord_cons, name, if_pos (by decide)]
  exact (next s.advanced (kept_advanced s) ahead.advanced).after (kept_advanced s)

theorem reads_make {start : Token} {k : Kind NodeId} {shown : Kind (Tree (List Comment))}
    (ahead : s.At ws) (rooted : ∀ c ∈ k.children, s.arena.Rooted c) (same : k.map s.arena.commented = shown) :
    Reads (make start k) s ws (fun a id => a.Shows id (.node [] shown)) deep :=
  ⟨⟨rfl, rfl, Arena.extends_alloc ..⟩, ahead, Arena.Shows.alloc rooted same ..⟩

end Stepping

end Parser

end JavaEdit
