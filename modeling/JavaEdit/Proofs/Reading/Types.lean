import JavaEdit.Proofs.Scanning.Types

/-!
# Reading types

The words of a type are read as the type. Its closing angle brackets may be part of an operator
that closes outer brackets as well, as in `List<List<T>>`; the parser takes such an operator apart
bracket by bracket. What is left behind a type is therefore described up to the way in which the
outer brackets are spread over operators (`Closers`).
-/

namespace JavaEdit.Parser

open Layout List
open ParserState (firstWord)

variable {allowDiamond withDimensions : Bool} {dims : UInt8} {follow : Token → Prop}
    {item : Parser NodeId} {k n steps : Nat} {name separator : String} {r : Rules}
    {rest tail ws : List Token} {s : ParserState} {slot : TypeSlot} {t : Page} {ts : List Page}

/-- A type by its name, its arguments and its dimensions. -/
abbrev classType (name : String) (ts : List Page) (dims : UInt8) : Page := .node [] (.typeReference name ts false dims)

/-! ## Closing brackets -/

/-- Operators that close `n` angle brackets together. -/
inductive Closers : Nat → List Token → Prop
  | none : Closers 0 []
  | one {n : Nat} {ws : List Token} : Closers n ws → Closers (n + 1) (sign ">" :: ws)
  | two {n : Nat} {ws : List Token} : Closers n ws → Closers (n + 2) (sign ">>" :: ws)
  | three {n : Nat} {ws : List Token} : Closers n ws → Closers (n + 3) (sign ">>>" :: ws)

theorem closers_angles (n : Nat) : Closers n (angles n) := by
  induction n using angles.induct with
  | case1 => exact .none
  | case2 => exact .one .none
  | case3 => exact .two .none
  | case4 n ih => exact .three ih

theorem Closers.eq_nil (h : Closers 0 ws) : ws = [] := by
  cases h
  rfl

theorem Closers.first (h : Closers n ws) (rest : List Token) :
    firstWord (ws ++ rest) ∈ [sign ">", sign ">>", sign ">>>"] ∨ n = 0 ∧ ws = [] := by
  cases h <;> simp

/-- What is left behind a result: `k` closing brackets in front of other words. -/
def Leaves {α : Type} (k : Nat) (rest : List Token) (out : Arena → α → Prop) (x : α)
    (ws : List Token) (a : Arena) : Prop :=
  (∃ cs, Closers k cs ∧ ws = cs ++ rest ++ [endToken]) ∧ out a x

/-- A longer operator loses its first character. -/
theorem goes_closeAngle_split {w : Token}
    (ahead : s.At (w :: ws)) (operator : w.kind = .operator) (silent : w.comments = [])
    (long : 1 < w.text.length) (bracket : w.text.toList.head? = some '>') :
    Reads closeAngle s (sign (String.ofList (w.text.toList.drop 1)) :: ws) fun _ _ => True := by
  obtain ⟨token, ts, rest, first, others⟩ := ahead.rest_eq
  subst first
  rw [Token.kind_plain] at operator
  rw [Token.comments_plain] at silent
  rw [Token.text_plain] at long bracket ⊢
  have halves := (ParserState.split_cons rest).trans (if_pos (by simp [operator, long, bracket]))
  have split : s.split.At (sign ">" :: sign (String.ofList (token.text.toList.drop 1)) :: ws) := by
    unfold ParserState.At ParserState.words
    simp only [halves, splitAngle, map_cons, others, Token.plain, operator, silent]
    rfl
  have read : Reads (expect ">") s.split (sign (String.ofList (token.text.toList.drop 1)) :: ws) fun _ _ => True :=
    reads_expect split (by decide)
  unfold Reads Goes
  rw [ends_closeAngle]
  exact read.after (kept_split s)

theorem goes_closeAngle (closers : Closers (n + 1) ws) (ahead : s.At (ws ++ rest)) :
    Goes closeAngle s (Leaves n rest fun _ _ => True) := by
  generalize count : n + 1 = m at closers
  cases closers with
  | none => exact absurd count (by omega)
  | @one n' ws others =>
    obtain rfl : n = n' := by omega
    obtain ⟨token, ts, tokens, first, -⟩ := ahead.rest_eq
    have short : ¬ (1 < token.text.length) := by
      rw [← Token.text_plain, first]
      decide
    have whole := (ParserState.split_cons tokens).trans (if_neg (by simp [short]))
    have read : Reads (expect ">") s (ws ++ rest) fun _ _ => True :=
      reads_expect ahead (by decide)
    unfold Goes
    rw [ends_closeAngle, whole]
    exact read.mono fun _ _ _ ⟨left, _⟩ => ⟨⟨ws, others, left⟩, trivial⟩
  | @two n' ws others =>
    obtain rfl : n = n' + 1 := by omega
    exact (goes_closeAngle_split ahead rfl rfl (by decide) (by decide)).mono
      fun _ _ _ ⟨left, _⟩ => ⟨⟨sign ">" :: ws, .one others, left⟩, trivial⟩
  | @three n' ws others =>
    obtain rfl : n = n' + 2 := by omega
    exact (goes_closeAngle_split ahead rfl rfl (by decide) (by decide)).mono
      fun _ _ _ ⟨left, _⟩ => ⟨⟨sign ">>" :: ws, .two others, left⟩, trivial⟩

/-! ## Lists -/

/-- A parser reads the words of a node and leaves the brackets that are not its own. Where there
are none of these, a word follows that `follow` allows. -/
def ReadsNode (p : Parser NodeId) (follow : Token → Prop) (t : Page) : Prop :=
  ∀ s k ws rest, Closers ((phrase t).closing + k) ws → s.At ((phrase t).before ++ ws ++ rest) →
    (k = 0 → follow (firstWord rest)) → Goes p s (Leaves k rest fun a id => a.Shows id t)

theorem goes_separated {follow : Page → Token → Prop} (some : ts ≠ [])
    (each : ∀ t ∈ ts, ReadsNode item (follow t) t) (goesOn : ∀ t ∈ ts, follow t (sign separator))
    (apart : ∀ w ∈ [sign ">", sign ">>", sign ">>>"], w.is separator = false)
    (closers : Closers ((Phrase.joined (sign separator) (ts.map phrase)).2 + k) ws)
    (ahead : s.At ((Phrase.joined (sign separator) (ts.map phrase)).1 ++ ws ++ rest))
    (ends : k = 0 → (firstWord rest).is separator = false ∧ ∀ t ∈ ts, follow t (firstWord rest)) :
    Goes (separated separator item steps) s (Leaves k rest fun a ids => a.ShowsAll ids ts) := by
  induction ts generalizing s steps with
  | nil => exact absurd rfl some
  | cons t ts ih =>
    obtain _ | steps := steps
    · exact goes_outOfSteps
    cases ts with
    | nil =>
      -- the last one, which the brackets follow
      refine (each t (by simp) s k ws rest closers ahead fun zero =>
        (ends zero).2 t (by simp)).bind ?_
      rintro x s1 kept ⟨⟨cs, left, words⟩, shown⟩
      have stops : (firstWord (cs ++ rest)).is separator = false := by
        rcases left.first rest with bracket | ⟨rfl, rfl⟩
        · exact apart _ bracket
        · exact (ends rfl).1
      refine goes_eat_not words stops ?_
      exact goes_pure ⟨⟨cs, left, words⟩, .cons shown (.nil _)⟩
    | cons u ts =>
      have first := each t (by simp) s 0 (angles (phrase t).closing)
        (sign separator :: ((Phrase.joined (sign separator) ((u :: ts).map phrase)).1 ++ ws ++ rest))
        (closers_angles _) (by simpa [Phrase.joined, Phrase.words] using ahead) fun _ => goesOn t (by simp)
      refine first.bind ?_
      rintro x s1 kept ⟨⟨cs, closed, left⟩, shown⟩
      obtain rfl := closed.eq_nil
      refine goes_eat left (by simp) fun _ kept2 ahead2 => ?_
      refine Goes.bind (ih (by simp) (fun t mem => each t (.tail _ mem)) (fun t mem => goesOn t (.tail _ mem))
        closers ahead2 fun zero => ⟨(ends zero).1, fun t mem => (ends zero).2 t (.tail _ mem)⟩)
        fun xs s3 kept3 read => ?_
      exact goes_pure ⟨read.1, .cons ((shown.extends kept2.grown).extends kept3.grown) read.2⟩

theorem listed_cons (separator : Token) (p q : Phrase) (ps : List Phrase) : Phrase.listed separator (p :: q :: ps) =
      p.words ++ separator :: Phrase.listed separator (q :: ps) := by
  simp [Phrase.listed, Phrase.joined]

/-- Nodes with separators between them that share no brackets with what follows. -/
theorem reads_listed (some : ts ≠ [])
    (each : ∀ t ∈ ts, ∀ s rest, s.At ((phrase t).words ++ rest) → follow (firstWord rest) →
      Reads item s rest fun a id => a.Shows id t) (goesOn : follow (sign separator))
    (ahead : s.At (Phrase.listed (sign separator) (ts.map phrase) ++ rest))
    (ends : follow (firstWord rest)) (apart : (firstWord rest).is separator = false) :
    Reads (separated separator item steps) s rest fun a ids => a.ShowsAll ids ts := by
  induction ts generalizing s steps with
  | nil => exact absurd rfl some
  | cons t ts ih =>
    obtain _ | steps := steps
    · exact goes_outOfSteps
    cases ts with
    | nil =>
      refine Reads.bind (each t (by simp) s rest ahead ends) fun x s1 kept1 ahead1 shown => ?_
      exact goes_eat_not ahead1 apart (reads_pure ahead1 (.cons shown (.nil _)))
    | cons u ts =>
      rw [map_cons, map_cons, listed_cons, append_assoc] at ahead
      refine Reads.bind (each t (by simp) s _ ahead goesOn) fun x s1 kept1 ahead1 shown => ?_
      refine goes_eat ahead1 (by simp) fun _ kept2 ahead2 => ?_
      refine Reads.bind (ih (by simp) (fun t mem => each t (.tail _ mem)) ahead2) fun xs _ kept3 ahead3 shownAll => ?_
      exact reads_pure ahead3 (.cons ((shown.extends kept2.grown).extends kept3.grown) shownAll)

/-! ## Names and dimensions -/

theorem reads_dottedRest {parts : List String} (names : ∀ q ∈ parts, isIdentifier q)
    (ahead : s.At ((parts.flatMap fun q => [sign ".", nameWord q]) ++ rest)) (ends : (firstWord rest).is "." = false) :
    Reads (dottedRest steps) s rest fun _ found => found = parts := by
  induction parts generalizing s steps with
  | nil =>
    obtain _ | steps := steps
    · exact goes_outOfSteps
    rw [dottedRest]
    unfold Reads
    rw [goes_look, goes_look, ahead.is]
    simp only [flatMap_nil, nil_append, ends, Bool.false_and, Bool.false_eq_true, if_false]
    exact reads_pure ahead rfl
  | cons q parts ih =>
    obtain _ | steps := steps
    · exact goes_outOfSteps
    have identifier := kind_nameWord_of_isIdentifier (names q (by simp))
    have second : (tokenAt s.rest 1).kind = .identifier := by
      rw [ahead.kind_tokenAt 1]
      exact identifier
    rw [dottedRest]
    unfold Reads
    rw [goes_look, goes_look, ahead.is, second]
    refine goes_advance ahead fun _ _ _ ahead1 _ => ?_
    refine goes_advance ahead1 fun _ _ _ ahead2 word => ?_
    refine Reads.bind (ih (fun q mem => names q (.tail _ mem)) ahead2) fun found _ _ ahead3 same => ?_
    refine reads_pure ahead3 ?_
    rw [same, ← Token.text_plain, word, text_nameWord]

theorem reads_qualifiedName {n : String} (isName : isDotted n)
    (ahead : s.At (dotted n ++ rest)) (ends : (firstWord rest).is "." = false) :
    Reads (qualifiedName steps) s rest fun _ found => found = n := by
  obtain ⟨p, ps, whole, parts, first, names⟩ := dotted_parts isName
  rw [parts] at ahead
  refine goes_identifier ahead (kind_nameWord_of_isIdentifier first) fun _ _ ahead1 => ?_
  refine Reads.bind (reads_dottedRest names ahead1 ends) fun found _ _ ahead2 same => reads_pure ahead2 ?_
  rw [same, whole, text_nameWord]

theorem count_succ {count : UInt8} (small : count.toNat < 255) :
    ¬ (count == 255) ∧ (count + 1).toNat = count.toNat + 1 := by
  constructor
  · rw [beq_iff_eq]
    rintro rfl
    exact absurd small (by simp)
  · rw [UInt8.toNat_add]
    simp
    omega

theorem reads_dimensions {count : UInt8} (small : count.toNat + n ≤ 255)
    (ahead : s.At ((List.replicate n [sign "[", sign "]"]).flatten ++ rest)) (ends : (firstWord rest).is "[" = false) :
    Reads (dimensions steps count) s rest fun _ found => found = count + UInt8.ofNat n := by
  induction n generalizing s steps count with
  | zero =>
    obtain _ | steps := steps
    · exact goes_outOfSteps
    rw [dimensions]
    unfold Reads
    rw [goes_look, goes_look, ahead.is]
    simp only [replicate_zero, flatten_nil, nil_append, ends, Bool.false_and, Bool.false_eq_true, if_false]
    exact reads_pure ahead (by simp)
  | succ n ih =>
    obtain _ | steps := steps
    · exact goes_outOfSteps
    have second : (tokenAt s.rest 1).is "]" := by
      rw [ahead.is_tokenAt 1]
      rfl
    rw [dimensions]
    unfold Reads
    rw [goes_look, goes_look, ahead.is, second]
    refine goes_advance ahead fun _ _ _ ahead1 _ => ?_
    refine goes_advance ahead1 fun _ _ _ ahead2 _ => ?_
    obtain ⟨notFull, next⟩ := count_succ (by omega : count.toNat < 255)
    rw [if_neg notFull]
    refine (ih (by omega : (count + 1).toNat + n ≤ 255) ahead2).mono fun found ws a ⟨left, same⟩ => ⟨left, ?_⟩
    rw [same, UInt8.add_assoc, UInt8.add_comm 1, UInt8.ofNat_add]
    rfl

/-! ## Type arguments -/

/-- The words a type may be followed by, where its dimensions are its own or not. -/
structure FollowsType (withDimensions : Bool) (t : Page) (w : Token) : Prop where
  noPoint : w.is "." = false
  noBracket : withDimensions = true → w.is "[" = false
  noAngle : isTypeName t = true → w.is "<" = false

theorem followsType_comma : FollowsType withDimensions t (sign ",") :=
  ⟨by decide, fun _ => by decide, fun _ => by decide⟩

theorem first_type (h : IsType slot t) :
    ∃ w more, (phrase t).before = w :: more ∧ (∀ text ∈ ["@", "<", ">"], w.is text = false) ∧
      (t.variant = .typeReference → w.is "?" = false) := by
  have reference : ∀ (name : String) (arguments : List Page) (diamond : Bool) (dims : UInt8),
      ∃ tail, (phrase (.node [] (.typeReference name arguments diamond dims))).before = dotted name ++ tail := by
    intro name arguments diamond dims
    rw [before_node]
    show ∃ tail, (typePhrase name (arguments.map phrase) diamond dims).1 = dotted name ++ tail
    unfold typePhrase
    dsimp only
    split
    · exact ⟨_, rfl⟩
    · exact ⟨_, by rw [append_assoc, append_assoc]⟩
  have named : ∀ name, isDotted name → ∀ arguments diamond dims, ∃ w more,
      (phrase (.node [] (.typeReference name arguments diamond dims))).before = w :: more ∧
      (∀ text ∈ ["@", "<", ">"], w.is text = false) ∧ w.is "?" = false := by
    intro name isName arguments diamond dims
    obtain ⟨tail, front⟩ := reference name arguments diamond dims
    obtain ⟨p, ps, -, parts, first, -⟩ := dotted_parts isName
    rw [front, parts]
    exact ⟨nameWord p, _, rfl, fun text _ => is_nameWord first text, is_nameWord first _⟩
  cases h with
  | @primitive _ name dims known _ =>
    have keyword : ∀ n ∈ Token.primitives, dotted n = [nameWord n] ∧
        (∀ text ∈ ["@", "<", ">"], (nameWord n).is text = false) ∧ (nameWord n).is "?" = false := by decide
    obtain ⟨single, other, wild⟩ := keyword name known
    obtain ⟨tail, front⟩ := reference name [] false dims
    rw [front, single]
    exact ⟨_, _, rfl, other, fun _ => wild⟩
  | named isName | diamond isName =>
    obtain ⟨w, more, words, other, wild⟩ := named _ isName _ _ _
    exact ⟨w, more, words, other, fun _ => wild⟩
  | unbounded | bounded _ =>
    exact ⟨sign "?", _, rfl, by decide, nofun⟩

theorem joined_front (separator : Token) (p : Phrase) (ps : List Phrase) :
    ∃ tail, (Phrase.joined separator (p :: ps)).1 = p.before ++ tail := by
  cases ps with
  | nil => exact ⟨[], (append_nil _).symm⟩
  | cons q ps => exact ⟨_, append_assoc ..⟩

theorem goes_typeArguments (some : ts ≠ []) (types : ∀ t ∈ ts, IsType .argument t)
    (each : ∀ t ∈ ts, ReadsNode (typeArgument r) (· = sign ",") t)
    (closers : Closers ((Phrase.angled (ts.map phrase)).2 + k) ws)
    (ahead : s.At ((Phrase.angled (ts.map phrase)).1 ++ ws ++ rest)) : Goes (typeArguments r allowDiamond) s
      (Leaves k rest fun a found => a.ShowsAll found.1 ts ∧ found.2 = false) := by
  refine goes_eat ahead rfl fun s1 _ ahead1 => ?_
  have ahead1 : s1.At ((Phrase.joined (sign ",") (ts.map phrase)).1 ++ ws ++ rest) := ahead1
  rw [if_pos rfl, goes_look, ahead1.is]
  -- no diamond: an argument comes next
  have notDiamond : (firstWord ((Phrase.joined (sign ",") (ts.map phrase)).1 ++ ws ++ rest)).is ">" = false := by
    obtain ⟨t, others, rfl⟩ := exists_cons_of_ne_nil some
    obtain ⟨tail, front⟩ := joined_front (sign ",") (phrase t) (others.map phrase)
    obtain ⟨w, more, words, other, -⟩ := first_type (types t (by simp))
    rw [map_cons, front, words]
    exact other ">" (by simp)
  rw [notDiamond, Bool.and_false, if_neg (by simp)]
  have count : (Phrase.angled (ts.map phrase)).2 + k = (Phrase.joined (sign ",") (ts.map phrase)).2 + (k + 1) := by
    simp only [Phrase.angled]
    omega
  rw [count] at closers
  refine Goes.bind (goes_separated some each (fun _ _ => rfl) (by decide) closers ahead1
    fun zero => absurd zero (by omega)) ?_
  rintro found s2 kept2 ⟨⟨cs, left, words⟩, shown⟩
  refine (goes_closeAngle left words).bind fun _ s3 kept3 closed => ?_
  exact goes_pure ⟨closed.1, shown.extends kept3.grown, rfl⟩

/-! ## Type references -/

theorem goes_finishType {start : Token} {ids : List NodeId} {diamond : Bool}
    (own : withDimensions = false → dims = 0)
    {cs : List Token} (closers : Closers k cs) (ahead : s.At (bracketWords dims ++ (cs ++ rest)))
    (ends : withDimensions → (firstWord (cs ++ rest)).is "[" = false) (shown : s.arena.ShowsAll ids ts) :
    Goes ((if withDimensions then dimensions r.steps 0 else pure 0) >>= fun dims =>
        make start (.typeReference name ids diamond dims)) s
      (Leaves k rest fun a id => a.Shows id (.node [] (.typeReference name ts diamond dims))) := by
  have read : Reads (if withDimensions then dimensions r.steps 0 else pure 0) s (cs ++ rest)
      fun _ found => found = dims := by
    cases withDimensions with
    | false =>
      rw [own rfl] at ahead ⊢
      exact reads_pure ahead rfl
    | true =>
      have small : (0 : UInt8).toNat + dims.toNat ≤ 255 := by
        have := dims.toNat_lt
        simp
        omega
      refine (reads_dimensions small ahead (ends rfl)).mono fun found ws a ⟨left, same⟩ => ⟨left, ?_⟩
      rw [same]
      simp
  refine Reads.bind read fun found _ kept1 ahead1 same => ?_
  subst same
  refine Goes.mono (reads_make ahead1 (shown.extends kept1.grown).1 ?_)
    fun id ws a ⟨left, shows⟩ => ⟨⟨cs, closers, left⟩, shows⟩
  exact congrArg (Kind.typeReference name · diamond found) (shown.extends kept1.grown).2

/-- What follows a type is no bracket, if it is a closing angle bracket or a word that may follow. -/
theorem FollowsType.behind {cs : List Token}
    (h : k = 0 → FollowsType withDimensions t (firstWord rest)) (closers : Closers k cs) :
    FollowsType withDimensions t (firstWord (cs ++ rest)) := by
  rcases closers.first rest with bracket | ⟨zero, rfl⟩
  · have signs : ∀ w ∈ [sign ">", sign ">>", sign ">>>"],
        w.is "." = false ∧ w.is "[" = false ∧ w.is "<" = false := by decide
    obtain ⟨point, opening, angle⟩ := signs _ bracket
    exact ⟨point, fun _ => opening, fun _ => angle⟩
  · exact h zero

/-- The type arguments in the words of a class type, and the number of brackets they end with. -/
def argumentPart (ts : List Page) : List Token × Nat :=
  if ts.isEmpty then ([], 0) else Phrase.angled (ts.map phrase)

/-- What stands behind the type arguments of a class type: brackets that close them and others, or
brackets that close them, and then dimensions. -/
inductive ArgumentTail (ts : List Page) (dims : UInt8) (k : Nat) (rest : List Token) :
    List Token → Prop
  | brackets {ws : List Token} : dims = 0 → Closers ((argumentPart ts).2 + k) ws →
      ArgumentTail ts dims k rest (ws ++ rest)
  | dimensions {ws : List Token} : Closers k ws →
      ArgumentTail ts dims k rest (angles (argumentPart ts).2 ++ (bracketWords dims ++ (ws ++ rest)))

theorem typePhrase_named (name : String) (ts : List Page) (dims : UInt8) : typePhrase name (ts.map phrase) false dims =
      if dims = 0 then (dotted name ++ (argumentPart ts).1, (argumentPart ts).2)
      else (dotted name ++ (argumentPart ts).1 ++ angles (argumentPart ts).2 ++ bracketWords dims, 0) := by
  unfold typePhrase argumentPart
  rw [isEmpty_map]
  simp only [Bool.false_eq_true, if_false, beq_iff_eq]

theorem before_namedType (name : String) (ts : List Page) (dims : UInt8) : (phrase (classType name ts dims)).before =
      if dims = 0 then dotted name ++ (argumentPart ts).1
      else dotted name ++ (argumentPart ts).1 ++ angles (argumentPart ts).2 ++ bracketWords dims := by
  rw [before_node]
  show (typePhrase name (ts.map phrase) false dims).1 = _
  rw [typePhrase_named]
  split <;> rfl

theorem closing_namedType (name : String) (ts : List Page) (dims : UInt8) : (phrase (classType name ts dims)).closing =
      if dims = 0 then (argumentPart ts).2 else 0 := by
  rw [closing_node]
  show (typePhrase name (ts.map phrase) false dims).2 = _
  rw [typePhrase_named]
  split <;> rfl

theorem namedType_words (rest : List Token) (closers : Closers ((phrase (classType name ts dims)).closing + k) ws) :
    ∃ tail, ArgumentTail ts dims k rest tail ∧
      (phrase (classType name ts dims)).before ++ ws ++ rest =
        dotted name ++ ((argumentPart ts).1 ++ tail) := by
  rw [closing_namedType] at closers
  rw [before_namedType]
  by_cases none : dims = 0
  · rw [if_pos none] at closers ⊢
    exact ⟨_, .brackets none closers, by simp⟩
  · rw [if_neg none, Nat.zero_add] at closers
    rw [if_neg none]
    exact ⟨_, .dimensions closers, by simp⟩

theorem ArgumentTail.nil (h : ArgumentTail [] dims k rest tail) :
    ∃ cs, Closers k cs ∧ tail = bracketWords dims ++ (cs ++ rest) := by
  cases h with
  | @brackets ws none closers =>
    subst none
    exact ⟨ws, by simpa [argumentPart] using closers, rfl⟩
  | @dimensions ws closers => exact ⟨ws, closers, rfl⟩

theorem goes_argumentPart (types : ∀ t ∈ ts, IsType .argument t)
    (each : ∀ t ∈ ts, ReadsNode (typeArgument r) (· = sign ",") t)
    (h : ArgumentTail ts dims k rest tail) (ahead : s.At ((argumentPart ts).1 ++ tail))
    (noAngle : ts = [] → (firstWord tail).is "<" = false) : Goes (typeArguments r allowDiamond) s fun found ws a =>
      (∃ cs, Closers k cs ∧ ws = bracketWords dims ++ (cs ++ rest) ++ [endToken]) ∧
        a.ShowsAll found.1 ts ∧ found.2 = false := by
  cases ts with
  | nil =>
    obtain ⟨cs, closers, rfl⟩ := h.nil
    exact goes_eat_not ahead (noAngle rfl) (goes_pure ⟨⟨cs, closers, ahead⟩, .nil _, rfl⟩)
  | cons t ts =>
    cases h with
    | brackets none closers =>
      subst none
      refine (goes_typeArguments (by simp) types each closers (by simpa [argumentPart] using ahead)).mono ?_
      exact fun found ws a ⟨left, shown⟩ => ⟨left, shown⟩
    | @dimensions ws closers =>
      have closed := closers_angles ((argumentPart (t :: ts)).2 + 0)
      refine (goes_typeArguments (by simp) types each closed (by simpa [argumentPart] using ahead)).mono ?_
      rintro found vs a ⟨⟨cs, nothing, left⟩, shown⟩
      obtain rfl := nothing.eq_nil
      exact ⟨⟨ws, closers, left⟩, shown⟩

theorem firstWord_brackets (dims : UInt8) (rest : List Token) : firstWord (bracketWords dims ++ rest) = sign "[" ∨
      dims = 0 ∧ bracketWords dims ++ rest = rest := by
  by_cases none : dims = 0
  · subst none
    exact .inr ⟨rfl, rfl⟩
  · obtain ⟨m, count⟩ : ∃ m, dims.toNat = m + 1 := by
      refine ⟨dims.toNat - 1, ?_⟩
      have : dims.toNat ≠ 0 := fun zero => none (UInt8.toNat_inj.mp zero)
      omega
    unfold bracketWords
    rw [count]
    exact .inl rfl

theorem goes_className (isName : isDotted name)
    {out : NodeId → List Token → Arena → Prop} (ahead : s.At (dotted name ++ tail))
    (noPoint : (firstWord tail).is "." = false)
    (next : ∀ s', Kept s s' → s'.At tail → Goes (typeArguments r allowDiamond >>= fun found =>
        (if withDimensions then dimensions r.steps 0 else pure 0) >>= fun dims =>
          make s.token (.typeReference name found.1 found.2 dims)) s' out) :
    Goes (typeReference r allowDiamond withDimensions) s out := by
  obtain ⟨p, ps, -, parts, first, -⟩ := dotted_parts isName
  have identifier : s.token.kind = .identifier := by
    rw [ahead.kind, parts]
    exact kind_nameWord_of_isIdentifier first
  have notAnnotation : s.token.is "@" = false := Token.is_of_identifier identifier _
  have notPrimitive : s.token.isPrimitive = false := by simp [Token.isPrimitive, identifier]
  unfold typeReference
  rw [goes_look, goes_look, notAnnotation, if_neg (by simp)]
  simp only [notPrimitive, identifier, beq_self_eq_true, if_true, Bool.false_eq_true, if_false]
  refine Reads.bind (reads_qualifiedName isName ahead noPoint) fun found s' kept ahead' same => ?_
  subst same
  have rest := next s' kept ahead'
  cases withDimensions <;> exact rest

/-- A type reference is read, with its dimensions or without. -/
abbrev ReadsReference (r : Rules) (allowDiamond withDimensions : Bool) (t : Page) : Prop :=
  ReadsNode (typeReference r allowDiamond withDimensions) (FollowsType withDimensions t) t

theorem goes_namedType (isName : isDotted name) (types : ∀ t ∈ ts, IsType .argument t)
    (each : ∀ t ∈ ts, ReadsNode (typeArgument r) (· = sign ",") t) (own : withDimensions = false → dims = 0) :
    ReadsReference r allowDiamond withDimensions (classType name ts dims) := by
  intro s k ws rest closers ahead follow
  obtain ⟨tail, behind, words⟩ := namedType_words rest closers
  rw [words] at ahead
  have noPoint : (firstWord ((argumentPart ts).1 ++ tail)).is "." = false := by
    cases ts with
    | nil =>
      obtain ⟨cs, left, rfl⟩ := behind.nil
      show (firstWord (bracketWords dims ++ (cs ++ rest))).is "." = false
      rcases firstWord_brackets dims (cs ++ rest) with bracket | ⟨-, nothing⟩
      · rw [bracket]
        decide
      · rw [nothing]
        exact (FollowsType.behind follow left).noPoint
    | cons t ts =>
      show (sign "<").is "." = false
      decide
  have noAngle : ts = [] → (firstWord tail).is "<" = false := by
    rintro rfl
    obtain ⟨cs, left, rfl⟩ := behind.nil
    rcases firstWord_brackets dims (cs ++ rest) with bracket | ⟨rfl, nothing⟩
    · rw [bracket]
      decide
    · rw [nothing]
      refine (FollowsType.behind follow left).noAngle ?_
      have reserved : ∀ n ∈ Token.primitives, isDotted n = false := by decide
      have notReserved : name ∉ Token.primitives := fun mem => by
        rw [reserved name mem] at isName
        cases isName
      simpa [isTypeName, Tree.kind] using notReserved
  refine goes_className isName ahead noPoint fun _ _ ahead1 => ?_
  refine Goes.bind (goes_argumentPart types each behind ahead1 noAngle)
    fun found s2 kept2 ⟨⟨cs, left, words2⟩, shown, plain⟩ => ?_
  rw [plain]
  exact goes_finishType own left words2 (FollowsType.behind follow left).noBracket shown

theorem goes_primitiveType (known : name ∈ Token.primitives) (own : withDimensions = false → dims = 0) :
    ReadsReference r allowDiamond withDimensions (classType name [] dims) := by
  have keyword : ∀ n ∈ Token.primitives, dotted n = [nameWord n] ∧
      (nameWord n).is "@" = false ∧ (nameWord n).isPrimitive := by decide
  obtain ⟨single, notAnnotation, isPrimitive⟩ := keyword name known
  intro s k ws rest closers ahead follow
  obtain ⟨tail, behind, words⟩ := namedType_words rest closers
  obtain ⟨cs, left, rfl⟩ := behind.nil
  rw [words, single] at ahead
  unfold typeReference
  rw [goes_look, goes_look, ahead.is, if_neg (by simpa using notAnnotation)]
  have primitive : s.token.isPrimitive := by
    rw [← Token.isPrimitive_plain, ahead.token]
    exact isPrimitive
  simp only [primitive, if_true]
  refine goes_advance ahead fun token _ _ ahead1 word => ?_
  have text : token.text = name := by
    rw [← Token.text_plain, word, text_nameWord]
  rw [text]
  exact Goes.either (goes_finishType own left ahead1 (FollowsType.behind follow left).noBracket (.nil _))

theorem ReadsNode.nested {p : Parser NodeId} (h : ReadsNode p follow t) : ReadsNode (Parser.nested p) follow t :=
  fun _ k ws rest closers ahead next => goes_nested (h _ k ws rest closers ahead next)

theorem ReadsNode.reads {p : Parser NodeId} (h : ReadsNode p follow t)
    (ahead : s.At ((phrase t).words ++ rest)) (next : follow (firstWord rest)) :
    Reads p s rest fun a id => a.Shows id t := by
  refine (h s 0 _ rest (closers_angles _) ahead fun _ => next).mono ?_
  rintro id ws a ⟨⟨cs, nothing, left⟩, shown⟩
  obtain rfl := nothing.eq_nil
  exact ⟨left, shown⟩

/-- What the parsers for types do with the words of a type, depending on where it stands. -/
def ReadsType (slot : TypeSlot) (t : Page) : Prop :=
  ∀ n, match slot with
    | .plain => ReadsNode (grammar n .type) (FollowsType true t) t
    | .argument => ReadsNode (typeArgument ⟨n, grammar n⟩) (· = sign ",") t
    | .created => ∀ s rest, s.At ((phrase t).words ++ rest) → FollowsType false t (firstWord rest) →
        Reads (typeReference ⟨n, grammar n⟩ true false) s rest fun a id => a.Shows id t

theorem readsType_reference (isType : IsType slot (classType name ts dims)) (own : slot = .created → dims = 0)
    (h : ∀ m allowDiamond withDimensions, (withDimensions = false → dims = 0) →
      ReadsReference ⟨m, grammar m⟩ allowDiamond withDimensions (classType name ts dims)) :
    ReadsType slot (classType name ts dims) := by
  intro n
  obtain ⟨w, more, words, -, notWild⟩ := first_type isType
  have plain : ReadsNode (grammar n .type) (FollowsType true (classType name ts dims)) (classType name ts dims) := by
    cases n with
    | zero => exact fun _ _ _ _ _ _ _ => goes_outOfSteps
    | succ m => exact (h m false true (by simp)).nested
  cases slot with
  | plain => exact plain
  | argument =>
    intro s k ws rest closers ahead next
    have notWild : s.token.is "?" = false := by
      rw [ahead.is, words]
      exact notWild rfl
    unfold typeArgument
    rw [goes_look, notWild, if_neg (by simp)]
    exact plain s k ws rest closers ahead fun zero => next zero ▸ followsType_comma
  | created =>
    intro s rest ahead next
    exact (h n true false fun _ => own rfl).reads ahead next

/-- A class type whose arguments are left out. -/
theorem readsType_diamond (isName : isDotted name) : ReadsType .created (.node [] (.typeReference name [] true 0)) := by
  intro n s rest ahead next
  have words : (phrase (.node [] (.typeReference name [] true 0))).words = dotted name ++ [sign "<", sign ">"] := by
    show dotted name ++ [sign "<"] ++ [sign ">"] = _
    rw [append_assoc]
    rfl
  rw [words, append_assoc] at ahead
  refine goes_className isName ahead rfl fun s1 _ ahead1 => ?_
  have brackets : Reads (typeArguments ⟨n, grammar n⟩ true) s1 rest fun _ found => found = ([], true) := by
    refine goes_eat ahead1 (by decide) fun s2 kept2 ahead2 => ?_
    rw [if_pos rfl, goes_look, ahead2.is, if_pos (by rfl)]
    exact goes_advance ahead2 fun _ _ _ ahead3 _ => reads_pure ahead3 rfl
  refine Reads.bind brackets fun found s2 kept2 ahead2 same => ?_
  subst same
  exact reads_make ahead2 (by simp [Kind.children]) rfl

theorem readsType_unbounded : ReadsType .argument (.node [] (.wildcardType none true)) := by
  intro n s k ws rest closers ahead next
  have closers : Closers (0 + k) ws := closers
  rw [Nat.zero_add] at closers
  have noBound : ∀ text ∈ ["extends", "super"], (firstWord (ws ++ rest)).is text = false := by
    have signs : ∀ w ∈ [sign ">", sign ">>", sign ">>>", sign ","],
        ∀ text ∈ ["extends", "super"], w.is text = false := by decide
    rcases closers.first rest with bracket | ⟨zero, rfl⟩
    · exact signs _ (mem_append_left [sign ","] bracket)
    · exact signs _ (by simp [next zero])
  unfold typeArgument
  rw [goes_look, ahead.is, if_pos (by rfl)]
  refine goes_advance ahead fun _ _ _ ahead1 _ => ?_
  refine goes_eat_not ahead1 (noBound "extends" (by simp)) ?_
  refine goes_eat_not ahead1 (noBound "super" (by simp)) ?_
  refine (reads_make ahead1 (by simp [Kind.children]) rfl).mono ?_
  exact fun id vs a read => ⟨⟨ws, closers, read.1⟩, read.2⟩

theorem readsType_bounded {bound : Page} {upper : Bool} (h : ReadsType .plain bound) :
    ReadsType .argument (.node [] (.wildcardType (some bound) upper)) := by
  intro n s k ws rest closers ahead next
  have closers : Closers ((phrase bound).closing + k) ws := by
    exact closers
  have words : (phrase (.node [] (.wildcardType (some bound) upper))).before =
      sign "?" :: nameWord (if upper then "extends" else "super") :: (phrase bound).before := by
    rfl
  rw [words] at ahead
  unfold typeArgument
  rw [goes_look, ahead.is, if_pos (by rfl)]
  refine goes_advance ahead fun start _ _ ahead1 _ => ?_
  have finish : ∀ s2, s2.At ((phrase bound).before ++ ws ++ rest) →
      Goes (type ⟨n, grammar n⟩ >>= fun id => make start (.wildcardType (some id) upper)) s2
        (Leaves k rest fun a id => a.Shows id (.node [] (.wildcardType (some bound) upper))) := by
    intro s2 ahead2
    refine Goes.bind (h n s2 k ws rest closers ahead2 fun zero => ?_) fun id s3 kept3 ⟨⟨cs, left, words3⟩, shown⟩ => ?_
    · rw [next zero]
      exact followsType_comma
    · refine Goes.mono (reads_make words3 (by simpa [Kind.children] using shown.1) ?_)
        fun id vs a ⟨left3, shows⟩ => ⟨⟨cs, left, left3⟩, shows⟩
      exact congrArg (fun t => Kind.wildcardType (some t) upper) shown.2
  cases upper with
  | true =>
    refine goes_eat ahead1 (by decide) fun s2 kept2 ahead2 => ?_
    exact finish s2 ahead2
  | false =>
    refine goes_eat_not ahead1 (by rfl) ?_
    refine goes_eat ahead1 (by decide) fun s2 kept2 ahead2 => ?_
    exact finish s2 ahead2

theorem readsType_of_isType (h : IsType slot t) : ReadsType slot t := by
  induction h with
  | primitive known own =>
    exact readsType_reference (.primitive known own) own fun _ _ _ => goes_primitiveType known
  | named isName types own ih =>
    refine readsType_reference (.named isName types own) own fun m _ _ => ?_
    exact goes_namedType isName types fun t mem => ih t mem m
  | diamond isName => exact readsType_diamond isName
  | unbounded => exact readsType_unbounded
  | bounded _ ih => exact readsType_bounded ih

end JavaEdit.Parser
