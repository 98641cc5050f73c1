import JavaEdit.Parser.Grammar
import JavaEdit.Proofs.Arena.Grown
import JavaEdit.Proofs.Arena.Shown
import JavaEdit.Proofs.Parser.Primitives
import JavaEdit.Proofs.Source.Tiling

/-!
# Parsers see words

A parser looks at the kinds and texts of tokens. Where the tokens stand, which comments are in front
of them and what the file is called goes into positions, comments and errors, and nowhere else does it
matter: on texts with the same words a parser makes nodes with the same payloads and indices
(`readWith_of_words`). Every rule is like this because its parts are, so most of the rules are passed
over by instance search.
-/

namespace JavaEdit

open List

variable {a b : Arena} {t t' : Token} {β : Type}

/-! ## Arenas with the same payloads -/

namespace Arena

/-- Arenas with the same payloads at the same indices. -/
structure Alike (a b : Arena) : Prop where
  size : b.size = a.size
  kind : ∀ id, b.kind id = a.kind id

namespace Alike

variable {c : Arena}

theorem refl (a : Arena) : a.Alike a := ⟨rfl, fun _ => rfl⟩

theorem symm (h : a.Alike b) : b.Alike a := ⟨h.size.symm, fun id => (h.kind id).symm⟩

theorem trans (h : a.Alike b) (h' : b.Alike c) : a.Alike c :=
  ⟨h'.size.trans h.size, fun id => (h'.kind id).trans (h.kind id)⟩

theorem unfold (h : a.Alike b) (fuel : Nat) (id : NodeId) : b.unfold fuel id = a.unfold fuel id := by
  induction fuel generalizing id with
  | zero => rfl
  | succ fuel ih =>
    rw [Arena.unfold, Arena.unfold, h.kind]
    congr 2
    funext child
    exact ih child

theorem tree (h : a.Alike b) (id : NodeId) : b.tree id = a.tree id := by
  rw [Arena.tree, Arena.tree, h.size, h.unfold]

theorem bare (h : a.Alike b) (id : NodeId) : b.bare id = a.bare id := by
  rw [Arena.bare, Arena.bare, h.tree]

theorem alloc (h : a.Alike b) (k : Kind NodeId) (pos pos' : Position) (cs cs' : List Comment) :
    (a.alloc k pos cs).2.Alike (b.alloc k pos' cs').2 where
  size := by rw [size_alloc, size_alloc, h.size]
  kind id := by rw [kind_alloc, kind_alloc, h.size, h.kind]

theorem addComment (a : Arena) (id : NodeId) (c : Comment) : a.Alike (a.addComment id c) :=
  ⟨size_modify .., fun other => (node_addComment a id other c).1⟩

theorem addComments (a : Arena) (id : NodeId) (cs : List Comment) :
    a.Alike (cs.foldl (fun a c => a.addComment id c) a) := by
  induction cs generalizing a with
  | nil => exact .refl a
  | cons c cs ih => exact (addComment a id c).trans (ih _)

end Alike

/-- The same nodes are made of trees that differ in comments only. -/
theorem Plants.alike {a' b' : Arena} {ts us : List (Tree (List Comment))} {ids ids' : List NodeId}
    (h : Plants a ts ids b) (h' : Plants a' us ids' b') (alike : a.Alike a')
    (same : us.map Tree.bare = ts.map Tree.bare) : ids' = ids ∧ b.Alike b' := by
  induction h generalizing a' b' us ids' with
  | nil =>
    cases h' with
    | nil => exact ⟨rfl, alike⟩
    | cons => cases same
  | @cons _ _ _ k kind _ _ cs _ shape _ parts others =>
    cases h' with
    | nil => cases same
    | @cons _ _ _ k' kind' _ _ cs' parts' shape' others' =>
      obtain ⟨first, rest⟩ := cons.inj same
      rw [Tree.bare_node, Tree.bare_node] at first
      have kinds : kind'.map Tree.bare = kind.map Tree.bare := congrArg Tree.kind first
      have children := congrArg Kind.children kinds
      rw [Kind.children_map, Kind.children_map] at children
      obtain ⟨made, alike'⟩ := parts parts' alike children
      have shapes := congrArg Kind.shape kinds
      rw [Kind.shape_map, Kind.shape_map, ← shape, ← shape'] at shapes
      obtain rfl := Kind.eq_of_shape_eq shapes made
      obtain ⟨more, alike''⟩ := others others' (alike'.alloc ..) rest
      exact ⟨by rw [more, alike'.size], alike''⟩

theorem Alike.copy (h : a.Alike b) (id : NodeId) :
    (b.copy id).1 = (a.copy id).1 ∧ (a.copy id).2.Alike (b.copy id).2 := by
  have same : (b.commented id).bare = (a.commented id).bare := by
    rw [commented, commented, h.tree, Tree.bare_mapLabels, Tree.bare_mapLabels]
  obtain ⟨roots, alike⟩ := (plants_plant (a.commented id) (.nil _)).alike (plants_plant (b.commented id) (.nil _)) h
    (by rw [map_singleton, map_singleton, same])
  exact ⟨(cons.inj roots).1, alike⟩

end Arena

/-! ## Words -/

namespace Token

def bare (t : Token) : Token := word t.kind t.text

theorem map_bare_plain (ts : List Token) : (ts.map plain).map bare = ts.map bare := List.map_map ..

/-- Tokens of the same kind with the same text. -/
structure Alike (t t' : Token) : Prop where
  kind : t'.kind = t.kind
  text : t'.text = t.text

theorem alike_of_bare (h : t'.bare = t.bare) : t.Alike t' :=
  ⟨show t'.bare.kind = t.bare.kind from h ▸ rfl, show t'.bare.text = t.bare.text from h ▸ rfl⟩

namespace Alike

theorem bare (h : t.Alike t') : t'.bare = t.bare := by
  rw [Token.bare, Token.bare, h.kind, h.text]

/-- What depends on kinds and texts only. -/
theorem apply (h : t.Alike t') (f : Token → β) (words : ∀ t, f t.bare = f t) : f t' = f t := by
  rw [← words t', ← words t, h.bare]

theorem is (h : t.Alike t') : t'.is = t.is := h.apply Token.is fun _ => rfl

theorem isPrimitive (h : t.Alike t') : t'.isPrimitive = t.isPrimitive := h.apply Token.isPrimitive fun _ => rfl

end Alike

end Token

namespace Parser

variable (ts : List Token)

theorem tokenAt_bare (n : Nat) : tokenAt (ts.map Token.bare) n = (tokenAt ts n).bare := tokenAt_map rfl ts n

/-- What depends on kinds and texts does not depend on places. -/
theorem apply_plain {f : List Token → β} (words : ∀ ts, f (ts.map Token.bare) = f ts) :
    f (ts.map Token.plain) = f ts := by
  rw [← words, Token.map_bare_plain, words]

theorem scanDotted_bare : ∀ ts : List Token, scanDotted (ts.map Token.bare) = scanDotted ts
  | [] | [_] => rfl
  | dot :: name :: ts => by
    show (if (dot.is "." && name.kind == .identifier) = true
      then scanDotted (ts.map Token.bare) + 2 else 0) = _
    rw [scanDotted_bare ts]
    rfl

theorem scanDimensions_bare : ∀ ts : List Token, scanDimensions (ts.map Token.bare) = scanDimensions ts
  | [] | [_] => rfl
  | opening :: closing :: ts => by
    show (if (opening.is "[" && closing.is "]") = true
      then scanDimensions (ts.map Token.bare) + 2 else 0) = _
    rw [scanDimensions_bare ts]
    rfl

theorem scanArguments_bare (depth : Int) : scanArguments depth (ts.map Token.bare) = scanArguments depth ts := by
  induction ts generalizing depth with
  | nil => rfl
  | cons t ts ih =>
    rw [map_cons, scanArguments, scanArguments]
    simp only [ih]
    rfl

theorem scanType_bare : scanType (ts.map Token.bare) = scanType ts := by
  unfold scanType
  simp only [tokenAt_bare, ← map_drop, scanDotted_bare, scanArguments_bare, scanDimensions_bare]
  rfl

theorem closesBeforeArrow_bare (depth : Nat) :
    closesBeforeArrow depth (ts.map Token.bare) = closesBeforeArrow depth ts := by
  induction ts generalizing depth with
  | nil => rfl
  | cons t ts ih =>
    simp only [map_cons, closesBeforeArrow, ih, tokenAt_bare]
    rfl

theorem castAhead_bare : castAhead (ts.map Token.bare) = castAhead ts := by
  unfold castAhead
  simp only [← map_drop, scanType_bare, tokenAt_bare, closesBeforeArrow_bare]
  rfl

theorem declarationAhead_bare : declarationAhead (ts.map Token.bare) = declarationAhead ts := by
  unfold declarationAhead
  simp only [scanType_bare, tokenAt_bare]
  rfl

theorem forEachAhead_bare : forEachAhead (ts.map Token.bare) = forEachAhead ts := by
  have behind : (ts.map Token.bare).dropWhile (fun t => t.is "final") =
      (ts.dropWhile fun t => t.is "final").map Token.bare := dropWhile_map ..
  unfold forEachAhead
  simp only [behind, scanType_bare, tokenAt_bare]
  rfl

theorem stepsFor_bare : stepsFor (ts.map Token.bare) = stepsFor ts := by
  unfold stepsFor weight
  rw [foldl_map, length_map]
  rfl

end Parser

/-! ## States -/

namespace ParserState

/-- States with the same words ahead, in the same place of the grammar, and with the same payloads. -/
structure Alike (s s' : ParserState) : Prop where
  words : s'.rest.map Token.bare = s.rest.map Token.bare
  depth : s'.depth = s.depth
  typeNames : s'.typeNames = s.typeNames
  arena : s.arena.Alike s'.arena

namespace Alike

variable {s s' : ParserState}

theorem apply (h : s.Alike s') (f : List Token → β) (words : ∀ ts, f (ts.map Token.bare) = f ts) :
    f s'.rest = f s.rest := by
  rw [← words s'.rest, ← words s.rest, h.words]

theorem tokenAt (h : s.Alike s') (n : Nat) : (Parser.tokenAt s.rest n).Alike (Parser.tokenAt s'.rest n) := by
  refine Token.alike_of_bare ?_
  rw [← Parser.tokenAt_bare, ← Parser.tokenAt_bare, h.words]

theorem withArena (h : s.Alike s') {a' : Arena} (alike : a.Alike a') :
    { s with arena := a }.Alike { s' with arena := a' } :=
  ⟨h.words, h.depth, h.typeNames, alike⟩

/-- The lists of tokens ahead are empty at the same time. -/
theorem cases (h : s.Alike s') : (s.rest = [] ∧ s'.rest = []) ∨
    ∃ t ts t' ts', s.rest = t :: ts ∧ s'.rest = t' :: ts' ∧ t.Alike t' ∧ ts'.map Token.bare = ts.map Token.bare := by
  have words := h.words
  cases left : s.rest with
  | nil =>
    rw [left] at words
    exact .inl ⟨rfl, map_eq_nil_iff.mp words⟩
  | cons t ts =>
    rw [left] at words
    obtain ⟨t', ts', right, first, others⟩ := map_eq_cons_iff.mp words
    exact .inr ⟨t, ts, t', ts', rfl, right, Token.alike_of_bare first, others⟩

theorem advanced (h : s.Alike s') : s.advanced.Alike s'.advanced := by
  refine ⟨?_, h.depth, h.typeNames, h.arena⟩
  have words := h.words
  unfold ParserState.advanced
  rcases h.cases with ⟨left, right⟩ | ⟨t, ts, t', ts', left, right, -, others⟩
  · rw [left, right]
  · rw [left, right] at words ⊢
    cases ts with
    | nil =>
      rw [map_eq_nil_iff.mp others] at words ⊢
      exact words
    | cons u us =>
      obtain ⟨u', us', rfl, -, -⟩ := map_eq_cons_iff.mp others
      exact others

theorem uncommented (h : s.Alike s') : s.uncommented.Alike s'.uncommented := by
  unfold ParserState.uncommented
  rcases h.cases with ⟨left, right⟩ | ⟨t, ts, t', ts', left, right, first, others⟩
  · rw [left, right]
    exact h
  · rw [left, right]
    refine ⟨?_, h.depth, h.typeNames, h.arena⟩
    show Token.bare { t' with comments := [] } :: ts'.map Token.bare = _
    rw [others]
    exact congrArg (· :: ts.map Token.bare) first.bare

theorem split (h : s.Alike s') : s.split.Alike s'.split := by
  unfold ParserState.split
  rcases h.cases with ⟨left, right⟩ | ⟨t, ts, t', ts', left, right, first, others⟩
  · rw [left, right]
    exact h
  · rw [left, right]
    dsimp only
    rw [first.kind, first.text]
    split
    · refine ⟨?_, h.depth, h.typeNames, h.arena⟩
      -- the two halves are made of the kind and the text of the whole
      show (Parser.splitAngle t').1.bare :: (Parser.splitAngle t').2.bare :: ts'.map Token.bare = _
      rw [others, first.apply (fun t => (Parser.splitAngle t).1.bare) fun _ => rfl,
        first.apply (fun t => (Parser.splitAngle t).2.bare) fun _ => rfl]
      rfl
    · exact h

end Alike

end ParserState

/-! ## Parsers -/

namespace Parser

variable {α : Type} {annotations : List NodeId} {cs cs' : List Comment} {ms : Modifiers}
    {name text : String} {start start' : Token} {steps : Nat}

/-- Where the first parser succeeds, the second succeeds on the same words, with the same result and
in front of the same words. -/
class Agrees (p q : Parser α) : Prop where
  agrees : ∀ s s' : ParserState, s.Alike s' →
    Ends p s (fun x t => Ends q s' (fun x' t' => x' = x ∧ t.Alike t') fun _ _ => False) fun _ _ => True

/-- What does not depend on comments and places. -/
abbrev Steady (p : Parser α) : Prop := Agrees p p

instance {x : α} : Steady (pure x) := ⟨fun _ _ alike => ⟨rfl, alike⟩⟩

variable {p : Parser α} {q : Parser α}

theorem Agrees.bind {k l : α → Parser β} (hp : Agrees p q) (hk : ∀ x, Agrees (k x) (l x)) :
    Agrees (p >>= k) (q >>= l) where
  agrees s s' alike := by
    rw [ends_bind]
    refine (hp.agrees s s' alike).mono (fun x t ends => ?_) fun _ _ => id
    simp only [ends_bind]
    unfold Ends at ends
    split at ends
    · rename_i x' t' run
      obtain ⟨rfl, alike'⟩ := ends
      refine ((hk x').agrees t t' alike').mono (fun y u ends => ?_) fun _ _ => id
      unfold Ends
      rw [run]
      exact ends
    · exact ends.elim

instance {k l : α → Parser β} [hp : Agrees p q] [hk : ∀ x, Agrees (k x) (l x)] :
    Agrees (p >>= k) (q >>= l) := hp.bind hk

/-- What follows a pair gets its parts. -/
instance {γ : Type} {p q : Parser (α × γ)} {k l : α × γ → Parser β} [hp : Agrees p q]
    [hk : ∀ x y, Agrees (k (x, y)) (l (x, y))] : Agrees (p >>= k) (q >>= l) := hp.bind fun (x, y) => hk x y

instance {f : α → β} [Agrees p q] : Agrees (f <$> p) (f <$> q) := by
  rw [map_eq_pure_bind, map_eq_pure_bind]
  infer_instance

theorem Agrees.ite {c : Prop} [Decidable c] {p' q' : Parser α} (hp : Agrees p p') (hq : Agrees q q') :
    Agrees (if c then p else q) (if c then p' else q') := by
  split <;> assumption

instance {c : Prop} [Decidable c] {p' q' : Parser α} [hp : Agrees p p'] [hq : Agrees q q'] :
    Agrees (if c then p else q) (if c then p' else q') := hp.ite hq

/-! ### Looking -/

variable {view : ParserState → α}

theorem Agrees.look [Looks p view] (f : List Token → α)
    (words : ∀ ts, f (ts.map Token.bare) = f ts) (same : ∀ s, view s = f s.rest) : Steady p where
  agrees s s' alike := by
    rw [ends_look, ends_look, same, same]
    exact ⟨alike.apply f words, alike⟩

/-- A look at one token. -/
theorem Agrees.lookAt [Looks p view] (n : Nat) (f : Token → α)
    (words : ∀ t, f t.bare = f t) (same : ∀ s, view s = f (tokenAt s.rest n)) : Steady p :=
  .look (fun ts => f (tokenAt ts n)) (fun ts => by rw [tokenAt_bare, words]) same

instance : Steady (atToken text) := .lookAt 0 (·.is text) (fun _ => rfl) fun _ => rfl
instance {texts : List String} : Steady (atAny texts) := .lookAt 0 (texts.any ·.is) (fun _ => rfl) fun _ => rfl
instance {n : Nat} : Steady (aheadIs n text) := .lookAt n (·.is text) (fun _ => rfl) fun _ => rfl
instance : Steady atEnd := .lookAt 0 (·.kind == .eof) (fun _ => rfl) fun _ => rfl
instance : Steady atIdentifier := .lookAt 0 (·.kind == .identifier) (fun _ => rfl) fun _ => rfl
instance {word : String} : Steady (atWord word) :=
  .lookAt 0 (fun t => t.kind == .identifier && t.text == word) (fun _ => rfl) fun _ => rfl
instance : Steady atLambda := .look _ (fun ts => closesBeforeArrow_bare ts 0) fun _ => rfl
instance : Steady atLocalDeclaration := .look _ declarationAhead_bare fun _ => rfl
instance : Steady atForEach := .look _ forEachAhead_bare fun _ => rfl
instance : Steady atCast := .look _ castAhead_bare fun _ => rfl

theorem Agrees.peekAt {n : Nat} {k l : Token → Parser α} (h : ∀ t t', t.Alike t' → Agrees (k t) (l t')) :
    Agrees (Parser.peekAt n >>= k) (Parser.peekAt n >>= l) where
  agrees s s' alike := by
    exact (h _ _ (alike.tokenAt n)).agrees s s' alike

theorem Agrees.peek {k l : Token → Parser α} (h : ∀ t t', t.Alike t' → Agrees (k t) (l t')) :
    Agrees (Parser.peek >>= k) (Parser.peek >>= l) := .peekAt h

instance {k l : Token → Parser α} [h : ∀ t t', Agrees (k t) (l t')] :
    Agrees (peek >>= k) (peek >>= l) := .peek fun t t' _ => h t t'

theorem Agrees.get {k l : ParserState → Parser α} (h : ∀ s s', s.Alike s' → Agrees (k s) (l s')) :
    Agrees (MonadState.get >>= k) (MonadState.get >>= l) where
  agrees s s' alike := (h s s' alike).agrees s s' alike

theorem Agrees.changing {f : ParserState → ParserState} (h : ∀ s s', s.Alike s' → (f s).Alike (f s')) :
    Agrees (modify f : Parser PUnit) (modify f) where
  agrees s s' alike := ⟨rfl, h s s' alike⟩

instance {id : NodeId} : Steady (kindOf id) where
  agrees _ _ alike := ⟨alike.arena.kind id, alike⟩

/-! ### Failing -/

instance {cause cause' : Cause} : Agrees (failAt t cause : Parser α) (failAt t' cause') := ⟨fun _ _ _ => trivial⟩
instance {cause : Cause} : Agrees (fail cause : Parser α) (fail cause) := ⟨fun _ _ _ => trivial⟩
instance {what : Expected} : Agrees (unexpected what : Parser α) (unexpected what) := ⟨fun _ _ _ => trivial⟩
instance {what : Unsupported} : Agrees (refuse what : Parser α) (refuse what) := ⟨fun _ _ _ => trivial⟩

/-! ### Reading -/

theorem Agrees.advance {k l : Token → Parser α} (h : ∀ t t', t.Alike t' → Agrees (k t) (l t')) :
    Agrees (Parser.advance >>= k) (Parser.advance >>= l) where
  agrees s s' alike := by
    simp only [ends_bind, ends_advance]
    exact (h _ _ (alike.tokenAt 0)).agrees s.advanced s'.advanced alike.advanced

instance {k l : Token → Parser α} [h : ∀ t t', Agrees (k t) (l t')] :
    Agrees (advance >>= k) (advance >>= l) := .advance fun t t' _ => h t t'

/-- The comments in front of a token go into nodes only. -/
theorem Agrees.takeComments {k l : List Comment → Parser α} (h : ∀ cs cs', Agrees (k cs) (l cs')) :
    Agrees (Parser.takeComments >>= k) (Parser.takeComments >>= l) where
  agrees s s' alike := by
    simp only [ends_bind, ends_takeComments]
    exact (h _ _).agrees s.uncommented s'.uncommented alike.uncommented

instance {k l : List Comment → Parser α} [h : ∀ cs cs', Agrees (k cs) (l cs')] :
    Agrees (takeComments >>= k) (takeComments >>= l) := .takeComments h

instance : Steady (eat text) := by unfold eat; infer_instance
instance : Steady (expect text) := by unfold expect; infer_instance

instance : Steady identifier := by
  refine .bind inferInstance fun _ => ?_
  split
  · refine .advance fun t t' same => ?_
    rw [same.text]
    infer_instance
  · infer_instance

instance : Steady closeAngle where
  agrees s s' alike := by
    have closing : Steady (expect ">") := inferInstance
    rw [ends_closeAngle]
    exact (closing.agrees _ _ alike.split).mono (fun _ _ => ends_closeAngle.mpr) fun _ _ => id

theorem Agrees.loop {p q : Nat → Parser α} (none : p 0 = fail .outOfSteps)
    (round : ∀ steps, Agrees (p steps) (q steps) → Agrees (p (steps + 1)) (q (steps + 1))) : Agrees (p steps) (q steps) := by
  induction steps with
  | zero => exact ⟨fun _ _ _ => none ▸ trivial⟩
  | succ steps ih => exact round steps ih

instance : Steady (dottedRest steps) := .loop rfl fun steps _ => by
  refine .bind inferInstance fun _ => .peekAt fun t t' same => ?_
  rw [same.kind]
  split
  · refine .advance fun _ _ _ => .advance fun t t' same => ?_
    rw [same.text]
    infer_instance
  · infer_instance

instance : Steady (qualifiedName steps) := by unfold qualifiedName; infer_instance

/-! ### Making -/

instance {kind : Kind NodeId} : Agrees (makeCommented start kind cs) (makeCommented start' kind cs') where
  agrees _ _ alike := ⟨alike.arena.size, alike.withArena (alike.arena.alloc ..)⟩

instance {kind : Kind NodeId} : Agrees (make start kind) (make start' kind) := by unfold make; infer_instance

instance {id : NodeId} : Steady (copy id) where
  agrees _ _ alike := ⟨(alike.arena.copy id).1, alike.withArena (alike.arena.copy id).2⟩

instance {id : NodeId} : Agrees (attachComments id cs) (attachComments id cs') where
  agrees s s' alike := by
    refine ⟨rfl, alike.withArena ?_⟩
    exact (Arena.Alike.addComments s.arena id cs).symm.trans
      (alike.arena.trans (Arena.Alike.addComments s'.arena id cs'))

instance [hp : Agrees p q] : Agrees (nested p) (nested q) where
  agrees s s' alike := by
    simp only [ends_nested, alike.depth]
    split
    · trivial
    · have deeper : ParserState.Alike { s with depth := s.depth + 1 } { s' with depth := s.depth + 1 } :=
        ⟨alike.words, rfl, alike.typeNames, alike.arena⟩
      refine (hp.agrees _ _ deeper).mono (fun x t ends => ?_) fun _ _ => id
      refine ends.mono (fun x' t' same => ⟨same.1, ?_⟩) fun _ _ => id
      obtain ⟨-, words, depth, typeNames, arena⟩ := same
      exact ⟨words, congrArg (· - 1) depth, typeNames, arena⟩

instance {separator : String} {item item' : Parser α} [Agrees item item'] :
    Agrees (separated separator item steps) (separated separator item' steps) :=
  .loop rfl fun _ _ => by rw [separated, separated]; infer_instance

/-! ## Rules -/

set_option synthInstance.maxSize 3000

/-- Goals that differ in places and comments only. -/
inductive Goal.Alike : Goal → Goal → Prop
  | same (goal : Goal) : Alike goal goal
  | typeDeclaration (start start' : Token) (cs cs' : List Comment) (ms : Modifiers) (annotations : List NodeId) :
      Alike (.typeDeclaration start cs ms annotations) (.typeDeclaration start' cs' ms annotations)

/-- Rules whose parsers see words only. -/
class SeesWords (r : Rules) : Prop where
  parse : ∀ {goal goal'}, goal.Alike goal' → Agrees (r.parse goal) (r.parse goal')

variable {r : Rules} [h : SeesWords r]

instance {goal : Goal} : Steady (r.parse goal) := h.parse (.same goal)
instance : Agrees (r.parse (.typeDeclaration start cs ms annotations))
      (r.parse (.typeDeclaration start' cs' ms annotations)) :=
  h.parse (.typeDeclaration start start' cs cs' ms annotations)

/-! ### Types -/

instance : Steady (type r) := h.parse (.same _)
instance : Steady (expression r) := h.parse (.same _)
instance : Steady (typeList r) := by unfold typeList; infer_instance
instance : Steady (typeArgument r) := by unfold typeArgument; infer_instance
instance {allowDiamond : Bool} : Steady (typeArguments r allowDiamond) := by unfold typeArguments; infer_instance

instance {count : UInt8} : Steady (dimensions steps count) := by
  induction steps generalizing count with
  | zero => exact inferInstanceAs (Steady (fail _))
  | succ steps ih => rw [dimensions]; infer_instance

instance {allowDiamond withDimensions : Bool} : Steady (typeReference r allowDiamond withDimensions) := by
  refine .peek fun t t' same => .bind inferInstance fun _ => ?_
  dsimp only
  rw [same.isPrimitive, same.kind]
  split
  · infer_instance
  · split
    · refine .advance fun u u' same => ?_
      rw [same.text]
      infer_instance
    · split <;> infer_instance

instance : Steady (typeParameter r) := by unfold typeParameter; infer_instance
instance : Steady (typeParameters r) := by unfold typeParameters; infer_instance

/-! ### Expressions -/

instance : Steady (assignment r) := by
  refine .peek fun _ _ _ => .bind inferInstance fun _ => .peek fun t t' same => ?_
  rw [same.apply assignmentOperator? fun _ => rfl]
  split <;> infer_instance

instance : Steady (conditional r) := by unfold conditional; infer_instance

instance {operator : BinaryOperator} : Steady (rightOperand r operator) := by unfold rightOperand; infer_instance

instance {least : Nat} {left : NodeId} :
    Agrees (operators r start least steps left) (operators r start' least steps left) := by
  induction steps generalizing left with
  | zero => exact inferInstanceAs (Steady (fail _))
  | succ steps ih =>
    refine .peek fun t t' same => ?_
    rw [same.apply binaryOperator? fun _ => rfl]
    split <;> infer_instance

instance {least : Nat} : Steady (operation r least) := by unfold operation; infer_instance
instance : Steady (arguments r) := by unfold arguments; infer_instance
instance : Steady (parenthesized r) := by unfold parenthesized; infer_instance

instance {extra : UInt8} : Steady (sizes r steps extra) := by
  induction steps generalizing extra with
  | zero => exact inferInstanceAs (Steady (fail _))
  | succ steps ih => rw [sizes]; infer_instance

instance : Steady (creation r) := by unfold creation; infer_instance

instance : Steady (nameOrCall r) := by
  refine .peek fun _ _ _ => .bind inferInstance fun _ => ?_
  split
  · infer_instance
  · refine .advance fun t t' same => ?_
    rw [same.text]
    infer_instance

instance : Steady (selfReference r) := by
  refine .advance fun t t' same => ?_
  rw [same.text]
  infer_instance

theorem agrees_keywordExpression (same : t.Alike t') : Agrees (keywordExpression r t) (keywordExpression r t') := by
  unfold keywordExpression
  rw [same.text, same.isPrimitive]
  infer_instance

instance : Steady (primary r) := by
  refine .peek fun t t' same => ?_
  rw [same.apply literalValue? fun _ => rfl, same.kind, same.text]
  have keyword := agrees_keywordExpression (r := r) same
  split
  · infer_instance
  · infer_instance
  · split <;> infer_instance

instance {target : NodeId} : Agrees (memberAccess r start target) (memberAccess r start' target) := by
  unfold memberAccess; infer_instance

instance {target : NodeId} : Agrees (suffixes r start steps target) (suffixes r start' steps target) := by
  induction steps generalizing target with
  | zero => exact inferInstanceAs (Steady (fail _))
  | succ steps ih =>
    refine .bind inferInstance fun _ => .ite inferInstance (.bind inferInstance fun _ => .ite inferInstance ?_)
    refine .bind inferInstance fun _ => .ite (.advance fun t t' same => ?_) inferInstance
    rw [same.text]
    infer_instance

instance : Steady (cast r) := by unfold cast; infer_instance

instance {operator : UnaryOperator} : Steady (leadingOperator r operator) := by
  refine .advance fun _ _ _ => .peek fun t t' same => ?_
  rw [same.apply leastValue? fun _ => rfl]
  split <;> infer_instance

instance : Steady (unary r) := by
  refine .peek fun t t' same => ?_
  rw [same.kind, same.text]
  split <;> infer_instance

/-! ### Statements -/

instance {found : Modifiers} : Steady (modifiersFrom r steps found annotations) := by
  induction steps generalizing found annotations with
  | zero => exact inferInstanceAs (Steady (fail _))
  | succ steps ih =>
    refine .peek fun t t' same => ?_
    rw [same.is, same.kind, same.text]
    split
    · infer_instance
    · split <;> infer_instance

instance : Steady (modifiers r) := by unfold modifiers; infer_instance
instance : Steady (elementValue r) := by unfold elementValue; infer_instance

instance : Steady (annotationArgument r) := by
  refine .peek fun t t' same => ?_
  rw [same.kind]
  infer_instance

instance : Steady (annotationUse r) := by unfold annotationUse; infer_instance

instance : Steady (declarators r steps name) := by
  induction steps generalizing name with
  | zero => exact inferInstanceAs (Steady (fail _))
  | succ steps ih => rw [declarators]; infer_instance

variable {names : List (String × Option NodeId)}

instance {declared : NodeId} {isFirst : Bool} :
    Agrees (makeLocals start ms declared cs isFirst names) (makeLocals start' ms declared cs' isFirst names) := by
  induction names generalizing cs cs' isFirst with
  | nil => exact inferInstanceAs (Steady (pure _))
  | cons first rest ih => rw [makeLocals, makeLocals]; infer_instance

instance : Agrees (localVariables r start cs) (localVariables r start' cs') := by unfold localVariables; infer_instance

instance : Steady (blockStatement r) := by unfold blockStatement; infer_instance

instance : Steady (blockStatements r steps) := .loop rfl fun _ _ => by rw [blockStatements]; infer_instance

instance : Steady (block r) := by unfold block; infer_instance
instance : Steady (forEach r) := by unfold forEach; infer_instance
instance : Steady (expressionItem r) := by unfold expressionItem; infer_instance
instance : Steady (forInit r) := by unfold forInit; infer_instance

instance : Steady (forStatement r) := by
  refine .bind inferInstance fun _ => .bind inferInstance fun _ => .ite inferInstance ?_
  exact .bind inferInstance fun _ => .bind inferInstance fun _ => .bind inferInstance fun _ => inferInstance

instance : Steady (catchClause r) := by unfold catchClause; infer_instance

instance : Steady (catchClauses r steps) := .loop rfl fun _ _ => by rw [catchClauses]; infer_instance

instance : Steady (tryStatement r) := by unfold tryStatement; infer_instance

instance : Agrees (expressionStatement r start) (expressionStatement r start') := by
  unfold expressionStatement; infer_instance

instance : Steady jumpLabel := by
  refine .bind inferInstance fun _ => ?_
  split
  · refine .advance fun t t' same => ?_
    rw [same.text]
    infer_instance
  · infer_instance

instance : Agrees (statementKind r start) (statementKind r start') := by
  -- one step for each keyword
  repeat refine .bind inferInstance fun _ => .ite inferInstance ?_
  infer_instance

instance : Steady (statement r) := by unfold statement; infer_instance

/-! ### Declarations -/

instance : Steady (parameter r) := by unfold parameter; infer_instance
instance : Steady (parameters r) := by unfold parameters; infer_instance
instance : Steady (throwsClause r) := by unfold throwsClause; infer_instance

instance {ids : List NodeId} : Steady (ids.mapM copy) := by
  induction ids with
  | nil => exact inferInstanceAs (Steady (pure _))
  | cons id rest ih => rw [mapM_cons]; infer_instance

instance {declared : NodeId} {isFirst : Bool} :
    Agrees (makeFields start ms declared annotations cs isFirst names)
      (makeFields start' ms declared annotations cs' isFirst names) := by
  induction names generalizing cs cs' isFirst with
  | nil => exact inferInstanceAs (Steady (pure _))
  | cons first rest ih => rw [makeFields, makeFields]; dsimp only; infer_instance

variable {typeParams : List NodeId}

instance : Agrees (constructor r start cs ms annotations typeParams)
      (constructor r start' cs' ms annotations typeParams) := by
  refine .peek fun t t' same => .get fun s s' alike => ?_
  rw [same.text, alike.typeNames]
  infer_instance

instance {returned : NodeId} :
    Agrees (method r start cs ms annotations typeParams returned name)
      (method r start' cs' ms annotations typeParams returned name) := by
  unfold method; infer_instance

instance : Steady atRecord := by
  refine .bind inferInstance fun _ => .peekAt fun t t' same => ?_
  rw [same.kind]
  infer_instance

instance : Steady (member r) := by unfold member; infer_instance

instance : Steady (members r steps) := .loop rfl fun _ _ => by rw [members]; infer_instance

instance : Steady (typeBody r name) := by
  refine .bind (.changing fun s s' alike => ?_) fun _ => .bind inferInstance fun _ => .bind inferInstance fun _ =>
    .advance fun _ _ _ => .bind (.changing fun s s' alike => ?_) fun _ => inferInstance
  · exact ⟨alike.words, alike.depth, congrArg (name :: ·) alike.typeNames, alike.arena⟩
  · exact ⟨alike.words, alike.depth, congrArg List.tail alike.typeNames, alike.arena⟩

instance : Steady refusePermits := by unfold refusePermits; infer_instance

instance : Agrees (classDeclaration r start cs ms annotations) (classDeclaration r start' cs' ms annotations) := by
  unfold classDeclaration; infer_instance

instance : Agrees (interfaceDeclaration r start cs ms annotations)
      (interfaceDeclaration r start' cs' ms annotations) := by
  unfold interfaceDeclaration; dsimp only; infer_instance

instance : Agrees (typeDeclaration r start cs ms annotations) (typeDeclaration r start' cs' ms annotations) := by
  unfold typeDeclaration; infer_instance

instance : Steady (importRest steps) := .loop rfl fun _ _ => by rw [importRest]; infer_instance

instance : Steady (importLine steps) := by unfold importLine; infer_instance

instance {more : Nat} : Steady (importLines steps more) := .loop rfl fun _ _ => by rw [importLines]; infer_instance

instance : Steady (topLevelTypes r steps) := .loop rfl fun _ _ => by rw [topLevelTypes]; infer_instance

instance : Steady (packageLine steps) := by unfold packageLine; infer_instance

instance : Steady (compilationUnit r) := by
  -- the node of the unit is made in place
  have made : ∀ package imports types stop stop' cs cs', Agrees (do
      let s ← get
      let (id, arena) := s.arena.alloc (.compilationUnit package imports types) (.real s.file .start stop) cs
      set { s with arena }
      return id : Parser NodeId) (do
      let s ← get
      let (id, arena) := s.arena.alloc (.compilationUnit package imports types) (.real s.file .start stop') cs'
      set { s with arena }
      return id) := by
    intro package imports types stop stop' cs cs'
    exact ⟨fun _ _ alike => ⟨alike.arena.size, alike.withArena (alike.arena.alloc ..)⟩⟩
  refine .bind inferInstance fun _ => ?_
  split <;> infer_instance

instance {goal : Goal} : Steady (rule r goal) := by
  cases goal <;> (rw [rule]; infer_instance)

omit h in
theorem seesWords_grammar (steps : Nat) : SeesWords ⟨steps, grammar steps⟩ := by
  induction steps with
  | zero => exact ⟨fun _ => ⟨fun _ _ _ => trivial⟩⟩
  | succ steps ih =>
    refine ⟨fun alike => ?_⟩
    cases alike with
    | same => exact inferInstanceAs (Steady (rule _ _))
    | typeDeclaration start start' cs cs' ms annotations =>
      exact inferInstanceAs (Agrees (typeDeclaration _ start cs ms annotations)
        (typeDeclaration _ start' cs' ms annotations))

instance : Steady finish := by unfold finish; infer_instance

/-! ## Texts -/

omit h in
variable {entry : Rules → Parser α}

/-- A text with the words of one that is accepted is accepted, and gives the same payloads. -/
theorem readWith_of_words (sees : ∀ r, SeesWords r → Steady (entry r))
    {file file' text' : String} {ts ts' : List Token} (tokens : tokenize file text = .ok ts)
    (tokens' : tokenize file' text' = .ok ts') (words : ts'.map Token.bare = ts.map Token.bare)
    {x : α} (read : readWith entry a file text = (.ok x, b)) :
    ∃ b', readWith entry a file' text' = (.ok x, b') ∧ b.Alike b' := by
  have steps : stepsFor ts' = stepsFor ts := by rw [← stepsFor_bare ts', words, stepsFor_bare]
  have alike : ParserState.Alike ⟨file, ts, 0, 0, [], a⟩ ⟨file', ts', 0, 0, [], a⟩ := ⟨words, rfl, rfl, .refl a⟩
  obtain ⟨_, s, same, rfl, run⟩ := run_of_readWith read
  cases same.symm.trans tokens
  have both := ((sees _ (seesWords_grammar (stepsFor ts))).agrees _ _ alike).of_ok run
  obtain ⟨x', s', run', rfl, -, -, -, arena⟩ := both.exists_ok fun _ _ => False.elim
  refine ⟨s'.arena, ?_, arena⟩
  unfold readWith
  rw [tokens']
  dsimp only
  rw [steps, run']

omit h in
theorem readWith_of_file (sees : ∀ r, SeesWords r → Steady (entry r))
    {file : String} {x : α} (read : readWith entry a file text = (.ok x, b)) (file' : String) :
    ∃ b', readWith entry a file' text = (.ok x, b') ∧ b.Alike b' := by
  obtain ⟨ts, -, tokens, -⟩ := run_of_readWith read
  obtain ⟨ts', tokens', plain⟩ := tokenize_of_lexes (lexes_of_tokenize tokens) file'
  refine readWith_of_words sees tokens tokens' ?_ read
  rw [← Token.map_bare_plain ts', plain, Token.map_bare_plain]

end Parser

end JavaEdit
