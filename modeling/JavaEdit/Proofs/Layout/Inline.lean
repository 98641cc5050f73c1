import JavaEdit.Proofs.Layout.Forms

/-!
# Tokens of types and expressions

The text of a type or an expression is made of the words of its phrase (`spells_type`,
`spells_expression`), provided that what follows it does not run into its last word. A type may be
followed by angle brackets, which run together with those it ends with.
-/

namespace JavaEdit.Layout

open Lexer List

variable {c : Char} {cs rest : List Char} {depth : Nat} {more ws : List Token} {n text : String}
    {op : UnaryOperator} {p : Char → Bool} {slot : TypeSlot} {t : Page} {ts : List Page}
    {value : Literal}

/-- In front of what starts as `stop` says, the characters `cs` are the tokens `ws`. -/
def Spells (base : List Char → List Token → Prop) (stop : Char → Bool) (cs : List Char) (ws : List Token) : Prop :=
  ∀ rest more, Heads stop rest → LexesOn base rest more → LexesOn base (cs ++ rest) (ws ++ more)

variable {base : List Char → List Token → Prop}

/-! ## First characters -/

/-- Some characters, of which the first satisfies `p`. -/
def Starts (p : Char → Bool) (cs : List Char) : Prop := ∃ c tail, cs = c :: tail ∧ p c = true

theorem Starts.append (h : Starts p cs) (rest : List Char) : Starts p (cs ++ rest) := by
  obtain ⟨c, tail, rfl, first⟩ := h
  exact ⟨c, tail ++ rest, rfl, first⟩

theorem Starts.mono {q : Char → Bool} (h : Starts p cs) (implies : ∀ c, p c → q c) : Starts q cs := by
  obtain ⟨c, tail, same, first⟩ := h
  exact ⟨c, tail, same, implies c first⟩

theorem Starts.heads (h : Starts p cs) : Heads p cs := by
  obtain ⟨c, tail, rfl, first⟩ := h
  exact .cons first

/-! ## Angle brackets -/

/-- Closing angle brackets as characters. -/
def closers (n : Nat) : List Char := List.replicate n '>'

/-- What may follow a closing angle bracket or the name of a type. -/
def endsType (c : Char) : Bool := !isNamePart c && c != '>' && c != '='

theorem apart_of_endsType {op : String} (known : op ∈ [">", ">>", ">>>"])
    (stop : Heads endsType rest) : Heads (fun c => !joins op c) rest := by
  have joining : ∀ op ∈ [">", ">>", ">>>"], op ≠ "." ∧ ∀ x ∈ joining op, x = '>' ∨ x = '=' := by
    decide
  obtain ⟨notPoint, signs⟩ := joining op known
  refine stop.mono fun c ends => ?_
  simp only [endsType, Bool.and_eq_true, bne_iff_ne] at ends
  refine not_joins notPoint fun joined => ?_
  rcases signs c joined with same | same
  · exact ends.1.2 same
  · exact ends.2 same

theorem spells_angles (n : Nat) : Spells base endsType (closers n) (angles n) := by
  intro rest more stop h
  induction n using angles.induct with
  | case1 => exact h
  | case2 => exact h.operator ">" (by decide) (apart_of_endsType (by simp) stop)
  | case3 => exact h.operator ">>" (by decide) (apart_of_endsType (by simp) stop)
  | case4 n ih =>
    -- three brackets at a time; a fourth one does not join them
    refine ih.operator ">>>" (by decide) ?_
    cases n with
    | zero => exact apart_of_endsType (by simp) stop
    | succ n =>
      show Heads _ ('>' :: (closers n ++ rest))
      rw [heads_cons]
      decide

/-! ## Names -/

/-- What may follow a name. -/
def endsName (c : Char) : Bool := !isNamePart c

theorem spells_name (name : isName n) : Spells base endsName n.toList [nameWord n] :=
  fun _ _ stop h => h.name n name stop

theorem starts_name (name : isName n) : Starts isNameStart n.toList := by
  obtain ⟨c, cs, chars, start, -⟩ := exists_of_isName name
  exact ⟨c, cs, chars, start⟩

theorem isNamePart_of_isName (name : isName n) : ∀ c ∈ n.toList, isNamePart c := by
  obtain ⟨c, cs, chars, -, parts⟩ := exists_of_isName name
  rwa [chars]

theorem isName_of_called (h : isIdentifier n = true ∨ n = "this" ∨ n = "super") : isName n := by
  rcases h with identifier | rfl | rfl
  · exact isName_of_isIdentifier identifier
  · decide
  · decide

theorem joining_apart : ∀ op ∈ Token.operators, ∀ c ∈ joining op, isNameStart c = false := by
  decide +kernel

theorem apart_of_isNameStart {op : String} (known : op ∈ Token.operators) (h : isNameStart c) : (!joins op c) := by
  have notDigit : c.isDigit = false := by
    rw [← Bool.not_eq_true]
    intro digit
    have letter := isLetter_of_isDigit digit
    simp only [isNameStart, letter, Bool.false_or, Bool.or_eq_true, beq_iff_eq] at h
    rcases h with rfl | rfl <;> cases digit
  have notJoining : c ∉ joining op := fun mem => by
    rw [joining_apart op known c mem] at h
    cases h
  simp [joins, notDigit, notJoining]

theorem spells_dotted (h : isDotted n) : Spells base endsName n.toList (dotted n) := by
  have parts : ∀ parts : List (List Char), parts ≠ [] → (∀ p ∈ parts, isIdentifier (String.ofList p)) →
      Spells base endsName (['.'].intercalate parts)
        (((parts.map String.ofList).map nameWord).intersperse (sign ".")) := by
    intro parts
    induction parts with
    | nil => exact fun none => absurd rfl none
    | cons p parts ih =>
      intro _ names
      have first : Spells base _ _ _ := spells_name (isName_of_isIdentifier (names p (by simp)))
      rw [String.toList_ofList] at first
      cases parts with
      | nil =>
        rw [intercalate_singleton]
        exact first
      | cons q parts =>
        intro rest more stop lexed
        have others := ih (by simp) (fun p mem => names p (.tail _ mem)) rest more stop lexed
        have next := isName_of_isIdentifier (names q (by simp))
        obtain ⟨tail, starts⟩ : ∃ tail, ['.'].intercalate (q :: parts) ++ rest = q ++ tail := by
          cases parts with
          | nil => exact ⟨rest, by rw [intercalate_singleton]⟩
          | cons r parts => exact ⟨_, by rw [intercalate_cons_cons, append_assoc,
              append_assoc]⟩
        have point := ((starts_name next).append tail).heads.mono fun _ =>
          apart_of_isNameStart (show "." ∈ Token.operators by decide)
        rw [String.toList_ofList, ← starts] at point
        rw [intercalate_cons_cons, append_assoc, append_assoc]
        exact first _ _ (by rw [singleton_append, heads_cons]; decide) (others.operator "." (by decide) point)
  have split := parts (Text.splitChars '.' n.toList) (Text.splitChars_ne_nil _ _) ?_
  · rw [Text.intercalate_splitChars] at split
    exact split
  · intro p mem
    simp only [isDotted, Text.split, all_eq_true, mem_map] at h
    exact h _ ⟨p, mem, rfl⟩

theorem starts_dotted (h : isDotted n) : Starts isNameStart n.toList := by
  obtain ⟨part, more, parts⟩ := exists_cons_of_ne_nil (Text.splitChars_ne_nil '.' n.toList)
  simp only [isDotted, Text.split, all_eq_true, mem_map] at h
  have first := starts_name (isName_of_isIdentifier (h (String.ofList part) ⟨part, by simp [parts], rfl⟩))
  rw [String.toList_ofList] at first
  rw [← Text.intercalate_splitChars '.' n.toList, parts]
  cases more with
  | nil => rwa [intercalate_singleton]
  | cons next more =>
    exact first.append _

/-! ## Lists -/

theorem spells_joined {stop : Char → Bool} {separator : String} {mark : Token}
    (between : ∀ rest more, LexesOn base rest more → LexesOn base (separator.toList ++ rest) (mark :: more))
    (stops : ∀ rest, Heads stop (separator.toList ++ rest)) (depth n : Nat) (ts : List Page) (some : ts ≠ [])
    (front : ∀ t ∈ ts, Spells base stop ((piece t).text depth).toList (phrase t).words)
    (last : ∀ t ∈ ts, Spells base stop (((piece t).text depth).toList ++ closers n)
      ((phrase t).before ++ angles ((phrase t).closing + n))) :
    Spells base stop ((separator.intercalate ((ts.map piece).map fun p => p.text depth)).toList ++ closers n)
      ((Phrase.joined mark (ts.map phrase)).1 ++ angles ((Phrase.joined mark (ts.map phrase)).2 + n)) := by
  rw [String.toList_intercalate]
  induction ts with
  | nil => exact absurd rfl some
  | cons t ts ih =>
    cases ts with
    | nil =>
      simp only [map_cons, map_nil, intercalate_singleton]
      exact last t (by simp)
    | cons u ts =>
      have others := ih (by simp) (fun t mem => front t (.tail _ mem))
        fun t mem => last t (.tail _ mem)
      intro rest more ends h
      have whole := front t (by simp) _ _ (stops _) (between _ _ (others rest more ends h))
      simpa only [map_cons, intercalate_cons_cons, Phrase.joined, append_assoc, cons_append] using whole

theorem starts_list (depth : Nat) (t : Page) (ts : List Page) (first : Starts p ((piece t).text depth).toList) :
    Starts p (Piece.list ((t :: ts).map piece) depth).toList := by
  rw [Piece.list, String.toList_intercalate]
  cases ts with
  | nil => simpa using first
  | cons u ts =>
    exact first.append _

theorem spells_brackets (n : UInt8) (h : LexesOn base rest more) :
    LexesOn base ((brackets n).toList ++ rest) (bracketWords n ++ more) := by
  unfold brackets bracketWords
  induction n.toNat with
  | zero => exact h
  | succ n ih =>
    rw [replicate_succ, replicate_succ, String.toList_join, flatMap_cons,
      flatten_cons, append_assoc, append_assoc, ← String.toList_join]
    exact (ih.lone "]" (by decide)).lone "[" (by decide)

theorem toList_brackets_zero : (brackets 0).toList = [] := rfl

theorem toList_brackets {n : UInt8} (some : n ≠ 0) : ∃ tail, (brackets n).toList = '[' :: tail := by
  obtain ⟨m, count⟩ : ∃ m, n.toNat = m + 1 :=
    ⟨n.toNat - 1, by
      have : n.toNat ≠ 0 := fun zero => some (UInt8.toNat_inj.mp zero)
      omega⟩
  unfold brackets
  rw [count, replicate_succ, String.toList_join]
  exact ⟨_, rfl⟩

/-! ## Types -/

theorem spells_typeText {name : String} {dims : UInt8} (list : String) (ws : List Token)
    (closing : Nat) (nameSpells : Spells base endsName name.toList (dotted name))
    (opens : Heads (fun c => c == '<') list.toList)
    (listSpells : ∀ n, Spells base endsType (list.toList ++ closers n) (ws ++ angles (closing + n))) (n : Nat) :
    Spells base endsType ((name ++ list ++ brackets dims).toList ++ closers n) ((if dims == 0 then dotted name ++ ws
        else dotted name ++ ws ++ angles closing ++ bracketWords dims) ++
        angles ((if dims == 0 then closing else 0) + n)) := by
  intro rest more stop h
  -- what follows the name opens type arguments or dimensions, or ends the type
  have behind : ∀ tail, Heads endsName tail → Heads endsName (list.toList ++ tail) := by
    intro tail ends
    cases chars : list.toList with
    | nil => exact ends
    | cons c cs =>
      rw [chars, heads_cons, beq_iff_eq] at opens
      rw [cons_append, heads_cons, opens]
      decide
  have closed : Heads endsName (closers n ++ rest) := by
    cases n with
    | zero => exact stop.mono fun c ends => by simp_all [endsType, endsName]
    | succ n =>
      show Heads _ ('>' :: _)
      rw [heads_cons]
      decide
  simp only [String.toList_append, append_assoc]
  by_cases none : dims = 0
  · subst none
    have lexed := nameSpells _ _ (behind _ closed) (by
      simpa only [append_assoc] using listSpells n rest more stop h)
    simpa only [beq_self_eq_true, if_true, append_assoc, toList_brackets_zero, nil_append] using lexed
  · have dimensions := spells_brackets dims (spells_angles n rest more stop h)
    obtain ⟨tail, bracketed⟩ := toList_brackets none
    have stopType : Heads endsType ((brackets dims).toList ++ (closers n ++ rest)) := by
      rw [bracketed, cons_append, heads_cons]
      decide
    have stopName : Heads endsName ((brackets dims).toList ++ (closers n ++ rest)) := by
      rw [bracketed, cons_append, heads_cons]
      decide
    have arguments := listSpells 0 _ _ stopType dimensions
    rw [closers, replicate_zero, append_nil] at arguments
    have lexed := nameSpells _ _ (behind _ stopName) arguments
    simpa [none] using lexed

theorem primitives_are_names : ∀ n ∈ Token.primitives, isName n ∧ dotted n = [nameWord n] := by
  decide

theorem between_commas (rest : List Char) (more : List Token) (h : LexesOn base rest more) :
    LexesOn base (", ".toList ++ rest) (sign "," :: more) :=
  h.space.lone "," (by decide)

theorem starts_type (h : IsType slot t) (depth : Nat) :
    Starts (fun c => isNameStart c || c == '?') ((piece t).text depth).toList := by
  have named : ∀ {name list : String} {dims : UInt8}, Starts isNameStart name.toList →
      Starts (fun c => isNameStart c || c == '?') (name ++ list ++ brackets dims).toList := by
    intro name list dims first
    rw [String.toList_append, String.toList_append, append_assoc]
    exact (first.mono fun c start => by simp [start]).append _
  cases h with
  | primitive known _ =>
    exact named (starts_name (primitives_are_names _ known).1)
  | named isName _ _ | diamond isName =>
    exact named (starts_dotted isName)
  | unbounded =>
    exact ⟨'?', [], show "?".toList = _ from by decide, by decide⟩
  | bounded _ =>
    show Starts _ ("?" ++ _ ++ _).toList
    rw [String.toList_append, String.toList_append, append_assoc]
    exact Starts.append ⟨'?', [], by decide, by decide⟩ _

theorem typePhrase_eq (name : String) (arguments : List Phrase) (diamond : Bool) (dims : UInt8) :
    typePhrase name arguments diamond dims =
      let list := if diamond then ([sign "<"], 1)
        else if arguments.isEmpty then ([], 0) else Phrase.angled arguments
      (if dims == 0 then dotted name ++ list.1
        else dotted name ++ list.1 ++ angles list.2 ++ bracketWords dims,
       if dims == 0 then list.2 else 0) := by
  cases none : dims == 0 with
  | true => simp only [typePhrase, none, if_true]
  | false => simp only [typePhrase, none, Bool.false_eq_true, if_false]

theorem spells_angled (some : ts ≠ []) (depth : Nat)
    (first : ∀ t ∈ ts, Starts (fun c => isNameStart c || c == '?') ((piece t).text depth).toList)
    (each : ∀ t ∈ ts, ∀ n, Spells base endsType (((piece t).text depth).toList ++ closers n)
      ((phrase t).before ++ angles ((phrase t).closing + n))) (n : Nat) :
    Spells base endsType (("<" ++ Piece.list (ts.map piece) depth ++ ">").toList ++ closers n)
      ((Phrase.angled (ts.map phrase)).1 ++ angles ((Phrase.angled (ts.map phrase)).2 + n)) := by
  have list := spells_joined between_commas (fun rest => by simp; decide) depth (n + 1) ts some
    (fun t mem => by simpa [closers, Phrase.words] using each t mem 0) (fun t mem => each t mem (n + 1))
  -- the list starts with a name or a question mark, which `<` does not run into
  have apart : Starts (fun c => !joins "<" c) (Piece.list (ts.map piece) depth).toList := by
    obtain ⟨t, ts, rfl⟩ := exists_cons_of_ne_nil some
    refine (starts_list depth t ts (first t (by simp))).mono fun c start => ?_
    rcases Bool.or_eq_true .. ▸ start with name | mark
    · exact apart_of_isNameStart (by decide) name
    · rw [beq_iff_eq.mp mark]
      decide
  intro rest more stop h
  have lexed := (list rest more stop h).operator "<" (by decide) (by
    rw [append_assoc]
    exact (apart.append _).heads)
  simpa [Phrase.angled, Piece.list, sign, closers, replicate_succ, Nat.add_assoc, Nat.add_comm 1 n] using lexed

theorem spells_type (h : IsType slot t) (depth : Nat) : ∀ n,
    Spells base endsType (((piece t).text depth).toList ++ closers n)
      ((phrase t).before ++ angles ((phrase t).closing + n)) := by
  induction h with
  | @primitive slot name dims known _ =>
    obtain ⟨isName, single⟩ := primitives_are_names name known
    intro n
    show Spells base _ _ ((typePhrase name [] false dims).1 ++ angles ((typePhrase name [] false dims).2 + n))
    rw [typePhrase_eq]
    exact spells_typeText "" [] 0 (single ▸ spells_name isName) (by simp) (by simpa using spells_angles) n
  | @named slot name arguments dims isName types _ ih =>
    intro n
    rw [piece_node, phrase_node]
    show Spells base _ _ ((typePhrase name (arguments.map phrase) false dims).1
      ++ angles ((typePhrase name (arguments.map phrase) false dims).2 + n))
    rw [typePhrase_eq]
    cases arguments with
    | nil => exact spells_typeText "" [] 0 (spells_dotted isName) (by simp) (by simpa using spells_angles) n
    | cons first others =>
      exact spells_typeText ("<" ++ Piece.list ((first :: others).map piece) depth ++ ">") _ _
        (spells_dotted isName) (by simp) (spells_angled (by simp) depth
          (fun t mem => starts_type (types t mem) depth) ih) n
  | @diamond name isName =>
    intro n
    refine spells_typeText "<>" [sign "<"] 1 (spells_dotted isName) (by simp) (fun n => ?_) n
    intro rest more stop h
    have closed := spells_angles (1 + n) rest more stop h
    have lexed := closed.operator "<" (by decide) (by
      rw [closers, Nat.add_comm, replicate_succ, cons_append, heads_cons]
      decide)
    simpa [sign, closers, Nat.add_comm 1 n, replicate_succ] using lexed
  | unbounded =>
    intro n rest more stop h
    have lexed := (spells_angles n rest more stop h).lone "?" (by decide)
    simpa [text_node, before_node, closing_node, nodeText, nodePhrase, inlinePart, inlinePhrase,
      Kind.map, sign] using lexed
  | @bounded bound upper _ ih =>
    intro n rest more stop h
    have inner := (ih n rest more stop h).space
    have keyword := inner.name (if upper then "extends" else "super")
      (by cases upper <;> decide) (by rw [heads_cons]; decide)
    have lexed := keyword.space.lone "?" (by decide)
    cases upper <;> simpa [text_node, before_node, closing_node, nodeText, nodePhrase, inlinePart,
      inlinePhrase, Kind.map, sign, nameWord] using lexed

theorem spells_typeWords (h : IsType slot t) (depth : Nat) :
    Spells base endsType ((piece t).text depth).toList (phrase t).words := by
  simpa [closers, Phrase.words] using spells_type h depth 0

/-! ## Expressions -/

/-- What may follow every expression. -/
def separates (c : Char) : Bool := " ),;[]".toList.contains c

/-- What may follow an expression: a separator; behind a primary expression a point, and behind
what can be assigned to a sign. -/
inductive Follows (t : Page) : List Char → Prop
  | separator {rest : List Char} : Heads separates rest → Follows t rest
  | point {rest : List Char} : 15 ≤ precedence t.kind → Pointed t rest → Follows t ('.' :: rest)
  | update {c : Char} {rest : List Char} : t.kind.isTarget = true → c = '+' ∨ c = '-' →
      Follows t (c :: rest)

theorem eq_of_separates (h : separates c) : c = ' ' ∨ c = ')' ∨ c = ',' ∨ c = ';' ∨ c = '[' ∨ c = ']' := by
  simpa [separates] using h

theorem endsName_of_separates (h : separates c) : endsName c := by
  rcases eq_of_separates h with rfl | rfl | rfl | rfl | rfl | rfl <;> decide

theorem endsType_of_separates (h : separates c) : endsType c := by
  rcases eq_of_separates h with rfl | rfl | rfl | rfl | rfl | rfl <;> decide

theorem precedence_of_isTarget {α : Type} {k : Kind α} (h : k.isTarget) : precedence k = 15 := by
  cases k <;> simp_all [Kind.isTarget, precedence]

/-- No name goes on behind an expression. -/
theorem Follows.nameEnds (h : Follows t rest) : Heads endsName rest := by
  cases h with
  | separator separated => exact separated.mono fun c => endsName_of_separates
  | point => exact .cons (by decide)
  | update _ signs =>
    rw [heads_cons]
    rcases signs with rfl | rfl <;> decide

/-- Only separators follow what is not a primary expression. -/
theorem Follows.separated (h : Follows t rest) (loose : precedence t.kind < 15) : Heads separates rest := by
  cases h with
  | separator separated => exact separated
  | point tight _ => exact absurd tight (by omega)
  | update target _ => exact absurd (precedence_of_isTarget target) (by omega)

theorem Follows.endsBefore (h : Follows (.node [] (.literal value)) rest) : value.EndsBefore rest := by
  cases h with
  | separator separated =>
    have names : Heads endsName rest := separated.mono fun c => endsName_of_separates
    cases value with
    | int v =>
      simp only [Literal.EndsBefore]
      split
      · refine separated.mono fun c separator => ?_
        rcases eq_of_separates separator with rfl | rfl | rfl | rfl | rfl | rfl <;> decide
      · cases rest with
        | nil => rfl
        | cons c rest =>
          rw [heads_cons] at separated
          rcases eq_of_separates separated with rfl | rfl | rfl | rfl | rfl | rfl <;> rfl
    | long _ | char _ | float _ => trivial
    | double _ | boolean _ | null => exact names
    | string _ =>
      refine separated.mono fun c separator => ?_
      rcases eq_of_separates separator with rfl | rfl | rfl | rfl | rfl | rfl <;> decide
  | point _ pointed =>
    cases value with
    | int v =>
      obtain ⟨positive, apart⟩ := pointed
      simp [Literal.EndsBefore, positive, endsInteger, apart]
    | long _ | char _ | float _ => trivial
    | double _ | boolean _ | null | string _ => exact .cons (by decide)
  | update target _ => exact absurd target (by simp [Tree.kind, Kind.isTarget])

/-- Whether a fraction starts is seen at the name behind a point. -/
theorem pointed_append (h : Pointed t cs) (rest : List Char) : Pointed t (cs ++ rest) := by
  unfold Pointed at h ⊢
  split at h
  · cases cs with
    | nil => exact absurd h.2 (by simp [startsFraction])
    | cons c cs => exact h
  · trivial

/-- What the text of an expression starts with. -/
def opens (c : Char) : Bool := isNameStart c || c.isDigit || "\"'(!~+-".toList.contains c

/-- The text of a node, with what may follow it. -/
def LexesAs (base : List Char → List Token → Prop) (t : Page) (depth : Nat) : Prop :=
  ∀ rest more, Follows t rest → LexesOn base rest more →
    LexesOn base (((piece t).text depth).toList ++ rest) ((phrase t).words ++ more)

theorem lexes_point (name : isIdentifier n) (lexed : LexesOn base (n.toList ++ rest) more) :
    LexesOn base ('.' :: (n.toList ++ rest)) (sign "." :: more) :=
  lexed.operator "." (by decide) (((starts_name (isName_of_isIdentifier name)).append rest).heads.mono
    fun _ => apart_of_isNameStart (by decide))

theorem heads_arguments (h : p '(') : Heads p ((argumentText (ts.map piece) depth).toList ++ rest) := by
  simpa [argumentText] using h

section

variable (lexed : LexesOn base rest more)
include lexed

theorem lexes_close : LexesOn base (')' :: rest) (sign ")" :: more) :=
  lexed.lone ")" (by decide)

theorem lexes_operand (h : LexesAs base t depth) (least : Nat)
    (follows : least ≤ precedence t.kind → Follows t rest) :
    LexesOn base (((piece t).operand least depth).toList ++ rest) ((phrase t).operand least ++ more) := by
  unfold Piece.operand Phrase.operand
  rw [tree_piece, tree_phrase]
  split
  · have inner := h _ _ (.separator (.cons (by decide))) (lexes_close lexed)
    simpa [sign] using inner.lone "(" (by decide)
  · rename_i tight
    exact h _ _ (follows (by omega)) lexed

theorem lexes_between (h : LexesAs base t depth) (least : Nat) (op : String) (known : op ∈ Token.operators) :
    LexesOn base (((piece t).operand least depth).toList ++ ' ' :: (op.toList ++ ' ' :: rest))
      ((phrase t).operand least ++ sign op :: more) :=
  lexes_operand (lexed.spaced op known).space h least fun _ => .separator (.cons (by decide))

theorem lexes_list (each : ∀ t ∈ ts, LexesAs base t depth) (stop : Heads separates rest) :
    LexesOn base ((Piece.list (ts.map piece) depth).toList ++ rest)
      (Phrase.listed (sign ",") (ts.map phrase) ++ more) := by
  cases ts with
  | nil => simpa [Piece.list, Phrase.listed, Phrase.joined, angles] using lexed
  | cons t ts =>
    have list := spells_joined between_commas (fun rest => by simp; decide) depth 0 (t :: ts)
      (by simp) (fun t mem rest more stop => each t mem rest more (.separator stop))
      (fun t mem rest more stop => by
        simpa [closers, Phrase.words] using each t mem rest more (.separator stop))
    simpa [closers, Piece.list, Phrase.listed] using list rest more stop lexed

theorem lexes_index (h : LexesAs base t depth) :
    LexesOn base ('[' :: (((piece t).text depth).toList ++ ']' :: rest))
      (sign "[" :: ((phrase t).words ++ sign "]" :: more)) := by
  have closed : LexesOn base (']' :: rest) (sign "]" :: more) := lexed.lone "]" (by decide)
  exact (h _ _ (.separator (.cons (by decide))) closed).lone "[" (by decide)

theorem lexes_sizes (each : ∀ t ∈ ts, LexesAs base t depth) :
    LexesOn base ((String.join ((ts.map piece).map fun p => "[" ++ p.text depth ++ "]")).toList ++ rest)
      (((ts.map phrase).flatMap fun p => sign "[" :: p.words ++ [sign "]"]) ++ more) := by
  induction ts with
  | nil => exact lexed
  | cons t ts ih =>
    have others := ih fun t mem => each t (.tail _ mem)
    simpa [String.toList_join] using lexes_index others (each t (by simp))

theorem lexes_arguments (each : ∀ t ∈ ts, LexesAs base t depth) :
    LexesOn base ((argumentText (ts.map piece) depth).toList ++ rest) (argumentWords (ts.map phrase) ++ more) := by
  have list := lexes_list (lexes_close lexed) each (.cons (by decide))
  simpa [argumentText, argumentWords, sign] using list.lone "(" (by decide)

end

/-- Characters and words with the same start, one that an expression may have. -/
def Opens (cs : List Char) (ws : List Token) : Prop :=
  ∃ w more, ws = w :: more ∧ ∃ c tail, cs = c :: tail ∧ w.text.toList.head? = some c ∧ opens c = true

theorem Opens.append (h : Opens cs ws) (rest : List Char) (more : List Token) : Opens (cs ++ rest) (ws ++ more) := by
  obtain ⟨w, ws, rfl, c, tail, rfl, first, opening⟩ := h
  exact ⟨w, ws ++ more, rfl, c, tail ++ rest, rfl, first, opening⟩

theorem Opens.starts (h : Opens cs ws) : Starts opens cs := by
  obtain ⟨-, -, -, c, tail, chars, -, opening⟩ := h
  exact ⟨c, tail, chars, opening⟩

theorem opens_word {kind : TokenKind} (h : Starts opens text.toList) : Opens text.toList [word kind text] := by
  obtain ⟨c, tail, chars, opening⟩ := h
  exact ⟨word kind text, [], rfl, c, tail, chars, by simp [word, chars], opening⟩

theorem opens_name (h : isName n) : Opens n.toList [nameWord n] :=
  opens_word ((starts_name h).mono fun c start => by simp [opens, start])

theorem Opens.enclosed : Opens ("(" ++ text ++ ")").toList (sign "(" :: ws ++ [sign ")"]) :=
  ⟨sign "(", ws ++ [sign ")"], rfl, '(', text.toList ++ [')'], by simp, rfl, by decide⟩

theorem Opens.operand (h : Opens ((piece t).text depth).toList (phrase t).words) (least : Nat) :
    Opens ((piece t).operand least depth).toList ((phrase t).operand least) := by
  unfold Piece.operand Phrase.operand
  rw [tree_piece, tree_phrase]
  split
  · exact .enclosed
  · exact h

/-- Characters that a literal starts with. -/
def opensLiteral (c : Char) : Bool := isNameStart c || c.isDigit || c == '"' || c == '\''

theorem starts_literal (written : value.IsWritten) : Starts opensLiteral value.text.toList := by
  have decimal : ∀ n, Starts Char.isDigit (Number.digitsOf n) := by
    intro n
    obtain ⟨c, tail, chars⟩ := exists_cons_of_ne_nil (digitsOf_ne_nil n)
    exact ⟨c, tail, chars, mem_digitsOf (by rw [chars]; simp)⟩
  have digit : ∀ {cs : List Char}, Starts Char.isDigit cs → Starts opensLiteral cs :=
    fun h => h.mono fun c isDigit => by simp [opensLiteral, isDigit]
  have name : ∀ {n : String}, isName n → Starts opensLiteral n.toList :=
    fun h => (starts_name h).mono fun c start => by simp [opensLiteral, start]
  cases value with
  | int v =>
    rw [Literal.toList_text_int]
    split
    · exact ⟨'0', _, rfl, by decide⟩
    · exact digit (decimal _)
  | long v =>
    rw [Literal.toList_text_long]
    split
    · exact ⟨'0', _, rfl, by decide⟩
    · exact digit ((decimal _).append _)
  | float bits | double bits =>
    obtain ⟨positive, finite, -⟩ := written
    rw [Literal.text, Number.Format.toList_literalText finite]
    obtain ⟨c, tail, chars, first⟩ := (Number.decimalText_literalDigits positive).starts
    exact digit (Starts.append ⟨c, tail, chars, first⟩ _)
  | char c => exact ⟨'\'', escape '\'' [c] ++ ['\''], by simp [Literal.text], by decide⟩
  | string s => exact ⟨'"', escape '"' s.toList ++ ['"'], by simp [Literal.text], by decide⟩
  | boolean b => cases b <;> exact name (by decide)
  | null => exact name (by decide)

theorem opens_literal (written : value.IsWritten) : Opens value.text.toList [literalWord value] := by
  have same : literalWord value = word (literalWord value).kind value.text := by
    cases value <;> rfl
  rw [same]
  refine opens_word ((starts_literal written).mono fun c start => ?_)
  simp only [opensLiteral, Bool.or_eq_true, beq_iff_eq] at start
  rcases start with ((letter | digit) | rfl) | rfl
  · simp [opens, letter]
  · simp [opens, digit]
  · decide
  · decide

attribute [local simp] text_node words_node nodeText nodePhrase inlinePart inlinePhrase Kind.map
  angles

theorem opens_unary (h : Opens ((piece t).text depth).toList (phrase t).words) (op : UnaryOperator) :
    Opens (unaryText op (piece t) depth).toList (unaryWords op (phrase t)) := by
  unfold unaryText unaryWords
  split
  · rw [String.toList_append]
    exact (h.operand 14).append _ _
  · have symbol : Opens op.symbol.toList [sign op.symbol] := by
      refine opens_word ?_
      cases op <;> exact ⟨_, _, rfl, by decide⟩
    rw [String.toList_append]
    exact symbol.append _ _

theorem opens_expression {place : ValueSlot} (h : IsExpression Clear place t)
    (depth : Nat) : Opens ((piece t).text depth).toList (phrase t).words := by
  induction h with
  | literal written => simpa using opens_literal written
  | name isName => simpa using opens_name (isName_of_isIdentifier isName)
  | this => simpa using opens_name (n := "this") (by decide)
  | super => simpa using opens_name (n := "super") (by decide)
  | access _ _ _ ih | call _ _ _ _ ih | index _ _ ih => simpa using (ih.operand 15).append _ _
  | ownCall known => simpa using (opens_name (isName_of_called known)).append _ _
  | new | newArray => simpa using (opens_name (n := "new") (by decide)).append _ _
  | @binary _ op _ _ _ _ _ _ ih => simpa using (ih.operand op.precedence).append _ _
  | typeTest _ _ _ ih => simpa using (ih.operand BinaryOperator.instanceOf.precedence).append _ _
  | unary _ _ ih | update _ _ _ ih => simpa using opens_unary ih _
  | assignment _ _ _ _ ih => simpa using (ih.operand 14).append _ _
  | conditional _ _ _ ih => simpa using (ih.operand 3).append _ _
  | cast =>
    have parenthesis : Opens "(".toList [sign "("] := opens_word ⟨'(', [], by decide, by decide⟩
    simpa [castText, castWords] using parenthesis.append _ _

theorem isSigned_eq (text : String) : isSigned text = text.toList.head?.any fun c => c == '+' || c == '-' := by
  unfold isSigned
  split <;> rename_i chars
  · simp [chars]
  · simp [chars]
  · cases all : text.toList with
    | nil => rfl
    | cons c cs => simp_all

theorem Opens.signed (h : Opens text.toList ws) : signedWords ws = isSigned text := by
  obtain ⟨w, more, rfl, c, tail, chars, first, -⟩ := h
  rw [signedWords, List.head?_cons, Option.any_some, isSigned_eq, isSigned_eq, first, chars, List.head?_cons]

/-- Nothing an expression starts with runs into an operator in front of it, unless both are signs. -/
theorem Opens.apart (h : Opens text.toList ws) (isLeading : op.isPostfix = false)
    (unsigned : (isSigned text && isSigned op.symbol) = false) (rest : List Char) :
    Heads (fun c => !joins op.symbol c) (text.toList ++ rest) := by
  obtain ⟨c, tail, chars, opening⟩ := h.starts
  have joining : ∀ op : UnaryOperator, op.isPostfix = false → op.symbol ≠ "." ∧
      ∀ x ∈ joining op.symbol, opens x = false ∨ (x == '+' || x == '-') && isSigned op.symbol := by
    intro op
    cases op <;> decide
  obtain ⟨notPoint, signs⟩ := joining op isLeading
  rw [chars, cons_append, heads_cons]
  refine not_joins notPoint fun joined => ?_
  rcases signs c joined with closed | both
  · rw [opening] at closed
    cases closed
  · rw [isSigned_eq, chars, List.head?_cons, Option.any_some, both] at unsigned
    cases unsigned

theorem symbol_mem_operators (op : BinaryOperator) (h : op ≠ .instanceOf) : op.symbol ∈ Token.operators := by
  cases op <;> first | decide | exact absurd rfl h

theorem precedence_binary_lt (op : BinaryOperator) : op.precedence < 15 := by
  cases op <;> decide

theorem lexes_enclosedIf (condition : Bool) (stop : Heads separates rest) (lexed : LexesOn base rest more)
    (h : ∀ rest more, Heads separates rest → LexesOn base rest more → LexesOn base (text.toList ++ rest) (ws ++ more)) :
    LexesOn base ((parenthesizedIf condition text).toList ++ rest) (enclosedIf condition ws ++ more) := by
  cases condition with
  | false => exact h _ _ stop lexed
  | true =>
    have inner := h _ _ (.cons (by decide)) (lexes_close lexed)
    simpa [parenthesizedIf, enclosedIf, sign] using inner.lone "(" (by decide)

/-- An operator in front of its operand. -/
theorem lexes_leading (h : LexesAs base t depth) (opening : Opens ((piece t).text depth).toList (phrase t).words)
    (isLeading : op.isPostfix = false) (stop : Heads separates rest) (lexed : LexesOn base rest more) :
    LexesOn base ((unaryText op (piece t) depth).toList ++ rest) (unaryWords op (phrase t) ++ more) := by
  have start := opening.operand 13
  have operand := lexes_enclosedIf (isSigned ((piece t).operand 13 depth) && isSigned op.symbol)
    stop lexed fun rest more stop lexed => lexes_operand lexed h 13 fun _ => .separator stop
  have apart : Heads (fun c => !joins op.symbol c) ((parenthesizedIf
      (isSigned ((piece t).operand 13 depth) && isSigned op.symbol) ((piece t).operand 13 depth)).toList ++ rest) := by
    cases both : isSigned ((piece t).operand 13 depth) && isSigned op.symbol with
    | false => exact start.apart isLeading both rest
    | true =>
      simp only [parenthesizedIf, if_true, String.toList_append, append_assoc]
      refine .cons ?_
      revert isLeading
      cases op <;> decide
  have known : op.symbol ∈ Token.operators := by
    cases op <;> decide
  have whole := operand.operator op.symbol known apart
  simpa [unaryText, unaryWords, isLeading, start.signed, sign] using whole

theorem lexes_update (h : LexesAs base t depth) (isBehind : op.isPostfix) (isTarget : t.kind.isTarget)
    (lexed : LexesOn base rest more) : LexesOn base ((unaryText op (piece t) depth).toList ++ rest)
      (unaryWords op (phrase t) ++ more) := by
  have signs : ∃ c tail, op.symbol.toList = c :: tail ∧ (c = '+' ∨ c = '-') := by
    cases op <;> first | exact absurd isBehind (by decide) | exact ⟨_, _, rfl, by decide⟩
  have alone : isLone op.symbol := by
    revert isBehind
    cases op <;> decide
  obtain ⟨c, tail, chars, isSign⟩ := signs
  have whole := lexes_operand (lexed.lone op.symbol alone) h 14 fun _ => by
    rw [chars, cons_append]
    exact .update isTarget isSign
  simpa [unaryText, unaryWords, isBehind, sign] using whole

/-- The text of an expression is made of its words. -/
theorem lexes_expression {place : ValueSlot} (h : IsExpression Clear place t) (depth : Nat) : LexesAs base t depth := by
  intro rest more follows lexed
  induction h generalizing rest more with
  | literal written =>
    simpa using lexed.literal written follows.endsBefore
  | name isName =>
    simpa using spells_name (isName_of_isIdentifier isName) _ _ follows.nameEnds lexed
  | this =>
    simpa using spells_name (n := "this") (by decide) _ _ follows.nameEnds lexed
  | super =>
    simpa using spells_name (n := "super") (by decide) _ _ follows.nameEnds lexed
  | access _ isName pointed ih =>
    have mem := spells_name (isName_of_isIdentifier isName) _ _ follows.nameEnds lexed
    simpa using lexes_operand (lexes_point isName mem) ih 15 fun tight => .point tight (pointed_append pointed rest)
  | call _ isName _ pointed ih others =>
    have called := spells_name (isName_of_isIdentifier isName) _ _ (heads_arguments (by decide))
      (lexes_arguments lexed others)
    simpa using lexes_operand (lexes_point isName called) ih 15 fun tight => .point tight (pointed_append pointed _)
  | @ownCall _ n _ known _ others =>
    simpa using spells_name (isName_of_called known) _ _ (heads_arguments (by decide)) (lexes_arguments lexed others)
  | new type _ others =>
    have created := spells_typeWords type depth _ _ (heads_arguments (by decide)) (lexes_arguments lexed others)
    simpa [nameWord] using created.space.name "new" (by decide) (.cons (by decide))
  | @newArray _ element sizes extra type some _ others =>
    have list := lexes_sizes (spells_brackets extra lexed) others
    have created := spells_typeWords type depth _ _ (by
      obtain ⟨t, ts, rfl⟩ := exists_cons_of_ne_nil some
      simp only [map_cons, String.toList_join, flatMap_cons, String.toList_append, append_assoc]
      exact .cons (by decide)) list
    simpa [nameWord] using created.space.name "new" (by decide) (.cons (by decide))
  | index _ _ ih inner =>
    simpa using lexes_operand (lexes_index lexed inner) ih 15 fun _ => .separator (.cons (by decide))
  | @binary _ op left right notTest _ isRight _ leftLexes rightLexes =>
    have stop := follows.separated (precedence_binary_lt op)
    have whole := lexes_between (lexes_operand lexed rightLexes (op.precedence + 1) fun _ => .separator stop) leftLexes
      op.precedence op.symbol (symbol_mem_operators op notTest)
    simpa [rightText, rightWords, operatorWord, notTest, Piece.variant, isRight.variant_ne] using whole
  | @typeTest _ value type _ isType _ ih =>
    have stop := follows.separated (precedence_binary_lt .instanceOf)
    have tested := spells_typeWords isType depth _ _ (stop.mono fun c => endsType_of_separates) lexed
    have operator := tested.space.name "instanceof" (by decide) (.cons (by decide))
    have whole := lexes_operand operator.space ih BinaryOperator.instanceOf.precedence
      fun _ => .separator (.cons (by decide))
    simpa [rightText, rightWords, operatorWord, BinaryOperator.symbol, Piece.variant,
      isType.variant_eq, nameWord] using whole
  | @unary _ op value notUpdate isOperand ih =>
    have isLeading : op.isPostfix = false := by
      revert notUpdate
      cases op <;> decide
    have stop := follows.separated (show precedence (.unary op value) < 15 by simp [precedence, isLeading])
    simpa using lexes_leading ih (opens_expression isOperand depth) isLeading stop lexed
  | @update _ op target _ isTarget isOperand ih =>
    cases behind : op.isPostfix with
    | true => simpa using lexes_update ih behind isTarget lexed
    | false =>
      have stop := follows.separated (show precedence (.unary op target) < 15 by simp [precedence, behind])
      simpa using lexes_leading ih (opens_expression isOperand depth) behind stop lexed
  | @assignment _ op target value compound _ _ _ targetLexes valueLexes =>
    have stop := follows.separated (show 1 < 15 by decide)
    have value := lexes_operand lexed valueLexes 1 fun _ => .separator stop
    cases op with
    | none => simpa [assignmentText, assignmentWord] using lexes_between value targetLexes 14 "=" (by decide)
    | some op =>
      have known : op.symbol ++ "=" ∈ Token.operators := by
        have isCompound := compound op rfl
        revert isCompound
        cases op <;> decide
      simpa [assignmentText, assignmentWord] using lexes_between value targetLexes 14 _ known
  | conditional _ _ _ condition thenValue elseValue =>
    have stop := follows.separated (show 2 < 15 by decide)
    have last := lexes_operand lexed elseValue 2 fun _ => .separator stop
    have whole := lexes_between (lexes_between last thenValue 1 ":" (by decide)) condition 3 "?" (by decide)
    simpa using whole
  | @cast _ type value isType isValue ih =>
    have stop := follows.separated (show 13 < 15 by decide)
    have operand := lexes_enclosedIf (!isPrimitiveType type.kind && isSigned ((piece value).operand 13 depth)) stop lexed
      fun rest more stop lexed => lexes_operand lexed ih 13 fun _ => .separator stop
    have named := spells_typeWords isType depth _ _ (.cons (by decide)) (lexes_close operand.space)
    simpa [castText, castWords, sign, ((opens_expression isValue depth).operand 13).signed] using named.lone "(" (by decide)

end JavaEdit.Layout
