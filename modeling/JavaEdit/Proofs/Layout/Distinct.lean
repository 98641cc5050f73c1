import JavaEdit.Proofs.Layout.Inline

/-!
# Types that can be told apart

Different types of the grammar have different texts, because a list of types can be taken off its text again
(`takeTypes_list`): the name of a type, its arguments and its dimensions are told by their characters. So two
methods whose names and parameter types are written alike have the same name and the same parameter types.
-/

namespace JavaEdit.Layout

open Lexer List

variable {rest : List Char} {t : Page} {ts : List Page}

/-! ## Taking types off a text -/

/-- What the name of a type is made of. -/
def isDottedPart (c : Char) : Bool := isNamePart c || c == '.'

def isGap (c : Char) : Bool := c == ',' || c == ' '

/-- How many pairs of brackets are in front, and what is behind them. -/
def takeDimensions : List Char → Nat × List Char
  | '[' :: ']' :: cs => (takeDimensions cs).map (· + 1) id
  | cs => (0, cs)

/-- The types of a list, up to the bracket that closes it, and what is behind that. -/
def takeTypes : Nat → List Char → List Page × List Char
  | 0, cs => ([], cs)
  | n + 1, cs =>
    if cs.head? == some '?' then
      if cs[1]? == some ' ' then
        let upper := cs[2]? == some 'e'
        (takeTypes n (cs.drop (if upper then 10 else 8))).map
          (modifyHead fun t => .node [] (.wildcardType (some t) upper)) id
      else (takeTypes n (cs.tail.dropWhile isGap)).map (cons (.node [] (.wildcardType none true))) id
    else if cs.head? == some '>' || cs.head? == some ')' then ([], cs.tail)
    else
      let behind := cs.dropWhile isDottedPart
      let arguments := if behind.head? == some '<' then takeTypes n behind.tail else ([], behind)
      let dimensions := takeDimensions arguments.2
      (takeTypes n (dimensions.2.dropWhile isGap)).map (cons (.node [] (.typeReference
        (String.ofList (cs.takeWhile isDottedPart)) arguments.1 false (.ofNat dimensions.1)))) id

/-! ## The text of a list of types -/

/-- The characters of a tree. -/
def chars (t : Page) : List Char := t.text.toList

def listChars (gap : List Char) (ts : List Page) : List Char := (',' :: gap).intercalate (ts.map chars)

/-- Type arguments between angle brackets, if there are any. -/
def argumentChars : List Page → List Char
  | [] => []
  | t :: ts => '<' :: (listChars [' '] (t :: ts) ++ ['>'])

/-- What stands behind the first type of a list. -/
def behindFirst (gap : List Char) : List Page → List Char
  | [] => []
  | t :: ts => ',' :: (gap ++ listChars gap (t :: ts))

theorem listChars_cons (gap : List Char) (t : Page) (ts : List Page) :
    listChars gap (t :: ts) = chars t ++ behindFirst gap ts := by
  cases ts <;> simp [listChars, behindFirst, intercalate_cons_cons]

theorem chars_reference (name : String) (arguments : List Page) (dims : UInt8) :
    chars (.node [] (.typeReference name arguments false dims)) =
      name.toList ++ (argumentChars arguments ++ (brackets dims).toList) := by
  have list : ∀ ts : List Page, (Piece.list (ts.map piece) 0).toList = listChars [' '] ts := fun ts => by
    rw [Piece.list, String.toList_intercalate, map_map, map_map]
    rfl
  have whole : chars (.node [] (.typeReference name arguments false dims)) =
      (typeText name (arguments.map piece) false dims 0).toList := by
    unfold chars Tree.text
    rw [text_node]
    rfl
  rw [whole, typeText]
  cases arguments with
  | nil => simp [argumentChars]
  | cons => simp [argumentChars, ← list]

theorem chars_bounded (bound : Page) (upper : Bool) : chars (.node [] (.wildcardType (some bound) upper)) =
    (if upper then "? extends " else "? super ").toList ++ chars bound := by
  unfold chars Tree.text
  show ("?" ++ (if upper then " extends " else " super ") ++ (piece bound).text 0).toList = _
  cases upper <;> simp

theorem isDottedPart_of_isDotted {n : String} (h : isDotted n) : ∀ c ∈ n.toList, isDottedPart c := by
  have parts : ∀ cs : List Char, (∀ part ∈ Text.splitChars '.' cs, ∀ c ∈ part, isNamePart c) →
      ∀ c ∈ cs, isDottedPart c := by
    intro cs each
    induction cs with
    | nil => nofun
    | cons c cs ih =>
      obtain ⟨part, parts, split⟩ := exists_cons_of_ne_nil (Text.splitChars_ne_nil '.' cs)
      rw [Text.splitChars, split] at each
      rw [split] at ih
      split at each
      · rename_i same
        exact forall_mem_cons.mpr ⟨beq_iff_eq.mp same ▸ rfl, ih (forall_mem_cons.mp each).2⟩
      · rw [forall_mem_cons, forall_mem_cons] at each
        exact forall_mem_cons.mpr ⟨by simp [isDottedPart, each.1.1], ih (forall_mem_cons.mpr ⟨each.1.2, each.2⟩)⟩
  refine parts _ fun part mem c inside => ?_
  simp only [isDotted, Text.split, all_eq_true, mem_map] at h
  exact isNamePart_of_isName (isName_of_isIdentifier (h _ ⟨part, mem, rfl⟩)) c (by simpa using inside)

theorem takeDimensions_brackets (n : Nat) (cs : List Char) (stop : Heads (fun c => c != '[') cs) :
    takeDimensions ((String.join (replicate n "[]")).toList ++ cs) = (n, cs) := by
  induction n with
  | zero =>
    show takeDimensions cs = _
    unfold takeDimensions
    split
    · simp at stop
    · rfl
  | succ n ih =>
    simp only [replicate_succ, String.toList_join, flatMap_cons] at ih ⊢
    exact congrArg (Prod.map (· + 1) id) ih

theorem takeTypes_reference {n : Nat} {name : String} {arguments : List Page} {dims : UInt8} {c : Char} {tail : List Char}
    (starts : Starts isNameStart name.toList) (parts : ∀ c ∈ name.toList, isDottedPart c)
    (inner : ∀ behind, takeTypes n (listChars [' '] arguments ++ '>' :: behind) = (arguments, behind))
    (stop : c ∈ [',', '>', ')']) (others : takeTypes n ((c :: tail).dropWhile isGap) = (ts, rest)) :
    takeTypes (n + 1) (chars (.node [] (.typeReference name arguments false dims)) ++ c :: tail) =
      (.node [] (.typeReference name arguments false dims) :: ts, rest) := by
  have signs : ∀ d ∈ ['[', ',', '>', ')'], d ≠ '<' ∧ isDottedPart d = false := by decide
  have notBracket : ∀ c ∈ [',', '>', ')'], c != '[' := by decide
  have dimensions := takeDimensions_brackets dims.toNat (c :: tail) (.cons (notBracket c stop))
  rw [chars_reference, append_assoc, append_assoc]
  have first : ∃ d ds, (brackets dims).toList ++ c :: tail = d :: ds ∧ d ∈ ['[', ',', '>', ')'] := by
    by_cases none : dims = 0
    · subst none
      exact ⟨c, tail, rfl, .tail _ stop⟩
    · obtain ⟨ds, bracket⟩ := toList_brackets none
      exact ⟨'[', ds ++ c :: tail, by rw [bracket]; rfl, .head _⟩
  unfold brackets at first ⊢
  obtain ⟨d, ds, behind, sign⟩ := first
  rw [behind] at dimensions ⊢
  have stops : Heads (fun c => !isDottedPart c) (argumentChars arguments ++ d :: ds) := by
    cases arguments with
    | nil => exact .cons (by simp [signs d sign])
    | cons => exact .cons (by decide)
  obtain ⟨take, drop⟩ := takeWhile_append_stop parts stops
  have list : (if (argumentChars arguments ++ d :: ds).head? == some '<' then
      takeTypes n (argumentChars arguments ++ d :: ds).tail else ([], argumentChars arguments ++ d :: ds)) =
        (arguments, d :: ds) := by
    cases arguments with
    | nil => simp [argumentChars, signs d sign]
    | cons => simpa [argumentChars] using inner (d :: ds)
  obtain ⟨e, es, named, start⟩ := starts
  have apart : e ≠ '?' ∧ e ≠ '>' ∧ e ≠ ')' := by
    refine ⟨?_, ?_, ?_⟩ <;> rintro rfl <;> cases start
  have head : (name.toList ++ (argumentChars arguments ++ d :: ds)).head? = some e := by
    rw [named]
    rfl
  rw [takeTypes, take, drop, head]
  simp only [list, dimensions, others]
  simp [apart]

/-- Behind the first type of a list stands a comma or what closes the list. -/
theorem takeTypes_behind {n : Nat} {gap : List Char} {close : Char} (gaps : ∀ c ∈ gap, isGap c)
    (closes : close ∈ ['>', ')']) (types : ∀ t ∈ ts, IsType .argument t)
    (next : takeTypes n (listChars gap ts ++ close :: rest) = (ts, rest)) :
    ∃ c tail, behindFirst gap ts ++ close :: rest = c :: tail ∧ c ∈ [',', '>', ')'] ∧
      takeTypes n ((c :: tail).dropWhile isGap) = (ts, rest) := by
  cases ts with
  | nil =>
    have notGap : ∀ c ∈ ['>', ')'], ¬ isGap c := by decide
    refine ⟨close, rest, rfl, .tail _ closes, ?_⟩
    rw [dropWhile_cons_of_neg (notGap close closes)]
    exact next
  | cons t ts =>
    refine ⟨',', gap ++ (listChars gap (t :: ts) ++ close :: rest), by simp [behindFirst], .head _, ?_⟩
    have starts : Heads (fun c => !isGap c) (listChars gap (t :: ts) ++ close :: rest) := by
      rw [listChars_cons, append_assoc]
      refine ((starts_type (types t (.head _)) 0).append _).heads.mono fun c start => ?_
      rw [Bool.not_eq_true', Bool.eq_false_iff]
      intro gap
      rcases Bool.or_eq_true .. ▸ gap with mark | mark <;> rw [beq_iff_eq.mp mark] at start <;> cases start
    have all : ∀ c ∈ ',' :: gap, isGap c := forall_mem_cons.mpr ⟨rfl, gaps⟩
    rw [← cons_append, (takeWhile_append_stop all starts).2, next]

/-- The types of a list are taken off its text. -/
theorem takeTypes_list {n : Nat} {gap : List Char} {close : Char} (gaps : ∀ c ∈ gap, isGap c)
    (closes : close ∈ ['>', ')']) (ts : List Page) (types : ∀ t ∈ ts, IsType .argument t)
    (small : (listChars gap ts).length < n) (rest : List Char) :
    takeTypes n (listChars gap ts ++ close :: rest) = (ts, rest) := by
  induction n generalizing gap close ts rest with
  | zero => omega
  | succ n ih =>
  cases ts with
  | nil =>
    simp only [mem_cons, not_mem_nil, or_false] at closes
    rcases closes with rfl | rfl <;> rfl
  | cons t ts =>
    obtain ⟨isType, areTypes⟩ := forall_mem_cons.mp types
    rw [listChars_cons, length_append] at small
    rw [listChars_cons, append_assoc]
    obtain ⟨e, es, nonempty, -⟩ := starts_type isType 0
    have long : 0 < (chars t).length := length_pos_iff_exists_cons.mpr ⟨e, es, nonempty⟩
    have shorter : (listChars gap ts).length ≤ (behindFirst gap ts).length := by
      cases ts with
      | nil => exact Nat.le_refl 0
      | cons => simp only [behindFirst, length_cons, length_append]; omega
    obtain ⟨c, tail, behind, mark, others⟩ := takeTypes_behind gaps closes areTypes
      (ih gaps closes ts areTypes (by omega) rest)
    rw [behind]
    have inner : ∀ name arguments dims, t = .node [] (.typeReference name arguments false dims) →
        (∀ s ∈ arguments, IsType .argument s) →
        ∀ cs, takeTypes n (listChars [' '] arguments ++ '>' :: cs) = (arguments, cs) := by
      rintro name arguments dims rfl inside
      refine ih (by decide) (.head _) arguments inside ?_
      rw [chars_reference] at small long
      cases arguments with
      | nil => exact Nat.lt_of_lt_of_le long (by omega)
      | cons =>
        simp only [argumentChars, length_cons, length_append] at small
        omega
    cases isType with
    | primitive known =>
      have isName := (primitives_are_names _ known).1
      refine takeTypes_reference (starts_name isName) (fun c mem => ?_) (inner _ _ _ rfl nofun) mark others
      simp [isDottedPart, isNamePart_of_isName isName c mem]
    | named isName inside =>
      exact takeTypes_reference (starts_dotted isName) (isDottedPart_of_isDotted isName) (inner _ _ _ rfl inside) mark others
    | unbounded =>
      have text : chars (.node [] (.wildcardType none true)) = ['?'] := by decide +kernel
      have notBound : c ≠ ' ' := by
        rintro rfl
        simp at mark
      rw [text, singleton_append, takeTypes]
      simp [notBound, others]
    | @bounded bound upper isBound =>
      -- the bound is the first type of the list behind the keyword
      have inside := ih gaps closes (bound :: ts) (forall_mem_cons.mpr ⟨isBound.argument, areTypes⟩) (by
        rw [chars_bounded] at small
        rw [listChars_cons]
        cases upper <;> simp at small ⊢ <;> omega) rest
      rw [listChars_cons, append_assoc, behind] at inside
      rw [chars_bounded, append_assoc, takeTypes]
      cases upper <;> simp [inside]

/-! ## Calls -/

/-- A name ends where the list behind it is opened. -/
theorem eq_of_call_eq {n n' : String} (isName : isName n) (isName' : Lexer.isName n') {cs ds : List Char}
    (same : n.toList ++ '(' :: (cs ++ [')']) = n'.toList ++ '(' :: (ds ++ [')'])) : n = n' ∧ cs = ds := by
  have opens : ∀ cs, Heads (fun c => !isNamePart c) ('(' :: cs) := fun cs => .cons (by decide)
  obtain ⟨take, drop⟩ := takeWhile_append_stop (isNamePart_of_isName isName) (opens (cs ++ [')']))
  obtain ⟨take', drop'⟩ := takeWhile_append_stop (isNamePart_of_isName isName') (opens (ds ++ [')']))
  rw [same] at take drop
  refine ⟨String.toList_inj.mp (take.symm.trans take'), ?_⟩
  exact append_cancel_right (cons.inj (drop.symm.trans drop')).2

theorem eq_of_listChars_eq {us : List Page} (types : ∀ t ∈ ts, IsType .argument t) (types' : ∀ u ∈ us, IsType .argument u)
    (same : listChars [] ts = listChars [] us) : ts = us := by
  have taken : ∀ {ts}, (∀ t ∈ ts, IsType .argument t) →
      takeTypes ((listChars [] ts).length + 1) (listChars [] ts ++ [')']) = (ts, []) := fun types =>
    takeTypes_list (by simp) (by decide) _ types (Nat.lt_succ_self _) []
  have left := taken types
  rw [same, taken types'] at left
  exact (Prod.mk.inj left).1.symm

end JavaEdit.Layout
