import JavaEdit.Proofs.Scanning.Balance

/-!
# Types are scanned to their end

The scan that looks for a type ahead passes the words of a type and stops behind them
(`scanType_type`), whatever follows that does not go on with it.
-/

namespace JavaEdit.Parser

open Layout List

variable {n : String} {rest ws : List Token} {w : Token}

theorem tokenAt_append (some : rest ≠ []) (n : Nat) : tokenAt (ws ++ rest) (ws.length + n) = tokenAt rest n := by
  unfold tokenAt
  rw [List.getElem?_append_right (by omega), Nat.add_sub_cancel_left,
    getLastD_eq_getLast?, getLastD_eq_getLast?, List.getLast?_append]
  obtain ⟨last, found⟩ := List.getLast?_isSome.mpr some |> Option.isSome_iff_exists.mp
  rw [found, Option.some_or]

theorem tokenAt_of_drop {n : Nat} (h : ws.drop n = w :: rest) : tokenAt ws n = w := by
  unfold tokenAt
  rw [← List.head?_drop, h]
  rfl

theorem scanArguments_cons {depth inner : Int} (found : angleDepth? w depth = some inner)
    (tail : List Token) : scanArguments depth (w :: tail) =
      if inner = 0 then some 1 else if inner < 0 then none
      else (scanArguments inner tail).map (1 + ·) := by
  rw [scanArguments, found]
  simp only [Option.bind_eq_bind, Option.bind_some, beq_iff_eq, Nat.add_comm 1]
  split
  · rfl
  · split
    · rfl
    · cases scanArguments inner tail <;> rfl

/-- Inside of angle brackets, the scan of type arguments goes from `ts` to `ts'` in `k` tokens, which open some
brackets more than they close. -/
def Advances (opened k : Nat) (ts ts' : List Token) : Prop :=
  ∀ depth : Int, 1 ≤ depth → scanArguments depth ts = (scanArguments (depth + opened) ts').map (k + ·)

section

variable {k l opened more : Nat} {ts ts' ts'' : List Token}

theorem Advances.refl (ts : List Token) : Advances 0 0 ts ts := fun _ _ => by
  simp

theorem Advances.trans (h : Advances opened k ts ts') (h' : Advances more l ts' ts'') :
    Advances (opened + more) (k + l) ts ts'' := fun depth inside => by
  have depths : depth + (opened : Int) + more = depth + ((opened + more : Nat) : Int) := by omega
  rw [h depth inside, h' _ (by omega), Option.map_map, depths]
  congr 1
  funext n
  exact (Nat.add_assoc k l n).symm

theorem advances_token (level : ∀ depth, angleDepth? w depth = some (depth + opened)) :
    Advances opened 1 (w :: ts) ts := fun depth _ => by
  rw [scanArguments_cons (level depth), if_neg (by omega), if_neg (by omega)]

end

/-- Words that the scan passes whatever comes behind them. -/
def Passes (ws : List Token) (opened : Nat) : Prop := ∀ tail, Advances opened ws.length (ws ++ tail) tail

theorem passes_nil : Passes [] 0 := Advances.refl

theorem Passes.append {vs : List Token} {m n : Nat} (h : Passes ws m) (h' : Passes vs n) :
    Passes (ws ++ vs) (m + n) := fun tail => by
  rw [append_assoc, length_append]
  exact (h _).trans (h' tail)

/-- A word that may stand in type arguments and is no bracket. -/
theorem passes_single (level : ∀ depth, angleDepth? w depth = some depth) : Passes [w] 0 := fun _ =>
  advances_token fun depth => (level depth).trans (by simp)

theorem Passes.cons {n : Nat} (first : Passes [w] 0) (h : Passes ws n) : Passes (w :: ws) n := by
  simpa using first.append h

theorem passes_flatten {lists : List (List Token)} (h : ∀ ws ∈ lists, Passes ws 0) : Passes lists.flatten 0 := by
  induction lists with
  | nil => exact passes_nil
  | cons ws lists ih => exact (h ws (by simp)).append (ih fun vs mem => h vs (.tail _ mem))

theorem passes_opening : Passes [sign "<"] 1 := fun _ => advances_token fun _ => rfl

theorem level_of_identifier (is : w.kind = .identifier) (depth : Int) : angleDepth? w depth = some depth := by
  unfold angleDepth?
  rw [is]

theorem level_of_primitive (is : w.isPrimitive) (depth : Int) : angleDepth? w depth = some depth := by
  have keyword : w.kind = .keyword := beq_iff_eq.mp (Bool.and_eq_true_iff.mp is).1
  unfold angleDepth?
  rw [keyword]
  simp [is]

theorem kind_nameWord_of_isIdentifier (h : isIdentifier n) : (nameWord n).kind = .identifier := by
  simp only [isIdentifier, Bool.and_eq_true, Bool.not_eq_true'] at h
  rw [kind_nameWord, h.2]
  rfl

theorem is_nameWord (h : isIdentifier n) (text : String) : (nameWord n).is text = false :=
  Token.is_of_identifier (kind_nameWord_of_isIdentifier h) text

theorem passes_name (name : isIdentifier n) : Passes [nameWord n] 0 :=
  passes_single (level_of_identifier (kind_nameWord_of_isIdentifier name))

/-- A word that closes some angle brackets, up to a depth. -/
theorem scanArguments_closing {depth : Int} {closed : Nat} (found : angleDepth? w (depth + closed) = some depth)
    (inside : 0 ≤ depth) (tail : List Token) : scanArguments (depth + closed) (w :: tail) =
      if depth = 0 then some 1 else (scanArguments depth tail).map (1 + ·) := by
  rw [scanArguments_cons found]
  congr 1
  exact if_neg (by omega)

theorem scanArguments_angles (n : Nat) {depth : Int} (inside : 0 ≤ depth) (positive : 0 < depth + n) (tail : List Token) :
    scanArguments (depth + n) (angles n ++ tail) = if depth = 0 then some (angles n).length
      else (scanArguments depth tail).map ((angles n).length + ·) := by
  have closing : ∀ c ∈ [1, 2, 3], ∀ depth : Int, angleDepth? (sign (String.ofList (replicate c '>')))
      (depth + c) = some depth := by
    intro c mem depth
    simp only [mem_cons, not_mem_nil, or_false] at mem
    rcases mem with rfl | rfl | rfl <;> exact congrArg some (Int.add_sub_cancel ..)
  induction n using angles.induct with
  | case1 =>
    rw [if_neg (by omega)]
    simp [angles]
  | case2 => exact scanArguments_closing (closing 1 (by simp) depth) inside tail
  | case3 => exact scanArguments_closing (closing 2 (by simp) depth) inside tail
  | case4 n ih =>
    have deeper : depth + ((n + 3 : Nat) : Int) = depth + n + (3 : Nat) := by omega
    have first := scanArguments_closing (closing 3 (by simp) (depth + n)) (by omega) (angles n ++ tail)
    rw [deeper]
    refine first.trans ?_
    by_cases last : depth + (n : Int) = 0
    · obtain ⟨rfl, rfl⟩ : depth = 0 ∧ n = 0 := by omega
      rfl
    · rw [if_neg last, ih (by omega)]
      split
      · exact congrArg some (Nat.add_comm 1 _)
      · rw [Option.map_map]
        congr 1
        funext k
        simp only [Function.comp_apply, angles, length_cons]
        omega

theorem Passes.angles {n : Nat} (h : Passes ws n) : Passes (ws ++ Layout.angles n) 0 := fun tail depth inside => by
  rw [append_assoc, h _ depth inside, scanArguments_angles n (by omega) (by omega), if_neg (by omega), Option.map_map,
    length_append]
  simp only [Int.natCast_zero, Int.add_zero]
  congr 1
  funext k
  exact (Nat.add_assoc ..).symm

theorem passes_sign (op : String) (level : ∀ depth, angleDepth? (sign op) depth = some depth := by exact fun _ => rfl) :
    Passes [sign op] 0 :=
  passes_single level

/-- The words of a dotted name. -/
def chainWords (p : String) (ps : List String) : List Token := nameWord p :: ps.flatMap fun q => [sign ".", nameWord q]

theorem passes_dotted (h : isDotted n) : Passes (dotted n) 0 := by
  obtain ⟨p, ps, -, parts, first, names⟩ := dotted_parts h
  rw [parts, flatMap_def]
  refine .cons (passes_name first) (passes_flatten (forall_mem_map.mpr fun q mem => ?_))
  exact .cons (passes_sign ".") (passes_name (names q mem))

theorem passes_brackets (n : UInt8) : Passes (bracketWords n) 0 := by
  refine passes_flatten fun ws mem => ?_
  rw [(mem_replicate.mp mem).2]
  exact .cons (passes_sign "[") (passes_sign "]")

theorem passes_joined {ps : List Phrase} (h : ∀ p ∈ ps, Passes p.before p.closing) :
    Passes (Phrase.joined (sign ",") ps).1 (Phrase.joined (sign ",") ps).2 := by
  induction ps with
  | nil => exact passes_nil
  | cons p ps ih =>
    cases ps with
    | nil => exact h p (by simp)
    | cons q ps =>
      have others := ih fun p mem => h p (.tail _ mem)
      have both := (h p (by simp)).angles.append (.cons (passes_sign ",") others)
      rwa [Nat.zero_add] at both

theorem dotted_primitive (known : n ∈ Token.primitives) : dotted n = [nameWord n] ∧ (nameWord n).isPrimitive := by
  revert n
  decide

theorem passes_type {slot : TypeSlot} {t : Page} (h : IsType slot t) : Passes (phrase t).before (phrase t).closing := by
  have reference : ∀ {front : List Token} (list : List Token × Nat) {dims : UInt8},
      Passes front 0 → Passes list.1 list.2 →
      let whole := if dims == 0 then (front ++ list.1, list.2)
        else (front ++ list.1 ++ Layout.angles list.2 ++ bracketWords dims, 0)
      Passes whole.1 whole.2 := by
    intro front list dims first inner
    have both := first.append inner
    rw [Nat.zero_add] at both
    dsimp only
    split
    · exact both
    · exact both.angles.append (passes_brackets dims)
  induction h with rw [phrase_node]
  | primitive known _ =>
    obtain ⟨single, isPrimitive⟩ := dotted_primitive known
    refine reference ([], 0) ?_ passes_nil
    rw [single]
    exact passes_single (level_of_primitive isPrimitive)
  | @named _ name arguments dims isName _ _ ih =>
    refine reference (if (arguments.map phrase).isEmpty then ([], 0)
      else Phrase.angled (arguments.map phrase)) (passes_dotted isName) ?_
    split
    · exact passes_nil
    · have list := passes_opening.append (passes_joined (forall_mem_map.mpr ih))
      rwa [Nat.add_comm] at list
  | diamond isName =>
    exact reference ([sign "<"], 1) (passes_dotted isName) passes_opening
  | unbounded =>
    exact passes_sign "?"
  | @bounded _ upper _ ih =>
    have keyword : Passes [nameWord (if upper then "extends" else "super")] 0 :=
      passes_single fun depth => by cases upper <;> rfl
    exact .cons (passes_sign "?") (.cons keyword ih)

theorem scanArguments_angled {ps : List Phrase} (h : ∀ p ∈ ps, Passes p.before p.closing) (tail : List Token) :
    scanArguments 0 ((Phrase.angled ps).1 ++ Layout.angles (Phrase.angled ps).2 ++ tail) =
      some ((Phrase.angled ps).1 ++ Layout.angles (Phrase.angled ps).2).length := by
  have opening : angleDepth? (sign "<") 0 = some 1 := rfl
  have closed := scanArguments_angles ((Phrase.joined (sign ",") ps).2 + 1) (Int.le_refl 0) (by omega) tail
  have depths : (0 : Int) + ((Phrase.joined (sign ",") ps).2 + 1 : Nat) = 1 + (Phrase.joined (sign ",") ps).2 := by omega
  rw [depths, if_pos rfl] at closed
  show scanArguments 0 (sign "<" :: ((Phrase.joined (sign ",") ps).1
    ++ Layout.angles ((Phrase.joined (sign ",") ps).2 + 1) ++ tail)) = _
  rw [scanArguments_cons opening, if_neg (by omega), if_neg (by omega), append_assoc,
    passes_joined h _ 1 (by omega), closed]
  simp only [Phrase.angled, Option.map_some, length_append, length_cons]
  congr 1
  omega

theorem words_typeReference (name : String) (arguments : List Page) (diamond : Bool) (dims : UInt8) :
    let list := if diamond then ([sign "<"], 1)
      else if arguments.isEmpty then ([], 0) else Phrase.angled (arguments.map phrase)
    (phrase (.node [] (.typeReference name arguments diamond dims))).words =
      dotted name ++ (list.1 ++ Layout.angles list.2) ++ bracketWords dims := by
  intro list
  rw [words_node]
  show (typePhrase name (arguments.map phrase) diamond dims).1
    ++ Layout.angles (typePhrase name (arguments.map phrase) diamond dims).2 = _
  unfold typePhrase
  rw [isEmpty_map]
  by_cases none : dims = 0
  · subst none
    simp [list, bracketWords]
  · simp [none, list, Layout.angles]

/-- What follows a type does not go on with it. -/
def EndsType (rest : List Token) : Prop := rest ≠ [] ∧ ∀ text ∈ [".", "<", "["], (tokenAt rest 0).is text = false

/-- A scan that counts pairs of tokens. -/
structure CountsPairs (isPair : Token → Token → Bool) (scan : List Token → Nat) : Prop where
  nil : scan [] = 0
  single (a : Token) : scan [a] = 0
  more (a b : Token) (ts : List Token) : scan (a :: b :: ts) = if isPair a b then scan ts + 2 else 0

theorem countsPairs_dotted : CountsPairs (fun a b => a.is "." && b.kind == .identifier) scanDotted :=
  ⟨rfl, fun _ => rfl, fun _ _ _ => rfl⟩

theorem countsPairs_dimensions : CountsPairs (fun a b => a.is "[" && b.is "]") scanDimensions :=
  ⟨rfl, fun _ => rfl, fun _ _ _ => rfl⟩

namespace CountsPairs

variable {isPair : Token → Token → Bool} {scan : List Token → Nat}

theorem eq_zero (h : CountsPairs isPair scan) {ts : List Token}
    (other : isPair (tokenAt ts 0) (tokenAt ts 1) = false) : scan ts = 0 := by
  cases ts with
  | nil => exact h.nil
  | cons w ts =>
    cases ts with
    | nil => exact h.single w
    | cons v ts => exact (h.more w v ts).trans (if_neg (Bool.eq_false_iff.mp other))

theorem flatten (h : CountsPairs isPair scan) {pairs : List (List Token)}
    (all : ∀ ws ∈ pairs, ∃ a b, ws = [a, b] ∧ isPair a b) (rest : List Token) :
    scan (pairs.flatten ++ rest) = pairs.flatten.length + scan rest := by
  induction pairs with
  | nil => simp
  | cons ws pairs ih =>
    obtain ⟨a, b, rfl, isPair⟩ := all ws (by simp)
    have others := ih fun ws mem => all ws (.tail _ mem)
    rw [flatten_cons, append_assoc, length_append, cons_append, singleton_append, h.more, if_pos isPair, others]
    simp only [length_cons, length_nil]
    omega

end CountsPairs

theorem scanDotted_eq_zero {ts : List Token} (h : (tokenAt ts 0).is "." = false) : scanDotted ts = 0 :=
  countsPairs_dotted.eq_zero (by rw [h, Bool.false_and])

theorem scanDimensions_eq_zero {ts : List Token} (h : (tokenAt ts 0).is "[" = false) : scanDimensions ts = 0 :=
  countsPairs_dimensions.eq_zero (by rw [h, Bool.false_and])

/-- Number of tokens of a type without its dimensions. -/
def scanNamed (ts : List Token) : Option Nat :=
  if (tokenAt ts 0).isPrimitive then some 1
  else if (tokenAt ts 0).kind == .identifier then
    let n := 1 + scanDotted (ts.drop 1)
    if (tokenAt ts n).is "<" then (scanArguments 0 (ts.drop n)).map (n + ·) else some n
  else none

theorem scanType_eq (ts : List Token) : scanType ts = (scanNamed ts).map fun n => n + scanDimensions (ts.drop n) := by
  unfold scanType scanNamed
  dsimp only
  split
  · rfl
  · split
    · split
      · cases scanArguments 0 (ts.drop (1 + scanDotted (ts.drop 1))) <;> rfl
      · rfl
    · rfl

theorem scanType_dimensions {front : List Token} {dims : UInt8}
    (h : scanNamed (front ++ (bracketWords dims ++ rest)) = some front.length) (ends : EndsType rest) :
    scanType (front ++ (bracketWords dims ++ rest)) = some (front ++ bracketWords dims).length := by
  have brackets : scanDimensions (bracketWords dims ++ rest) = (bracketWords dims).length + scanDimensions rest :=
    countsPairs_dimensions.flatten (fun ws mem => ⟨_, _, (mem_replicate.mp mem).2, rfl⟩) rest
  rw [scanType_eq, h, Option.map_some, drop_left, brackets,
    scanDimensions_eq_zero (ends.2 "[" (by simp)), length_append, Nat.add_zero]

/-- Behind a dotted name, type arguments start or the name is all there is. -/
theorem scanNamed_chain {p : String} {ps : List String} {tail : List Token} (first : isIdentifier p)
    (names : ∀ q ∈ ps, isIdentifier q) (ended : scanDotted tail = 0) (some' : tail ≠ []) :
    scanNamed (chainWords p ps ++ tail) =
      if (tokenAt tail 0).is "<" then (scanArguments 0 tail).map ((chainWords p ps).length + ·)
      else some (chainWords p ps).length := by
  have identifier := kind_nameWord_of_isIdentifier first
  have notPrimitive : (nameWord p).isPrimitive = false := by simp [Token.isPrimitive, identifier]
  have length : 1 + scanDotted ((chainWords p ps ++ tail).drop 1) = (chainWords p ps).length := by
    have pairs : ∀ vs ∈ ps.map fun q => [sign ".", nameWord q], ∃ a b, vs = [a, b] ∧
        (a.is "." && b.kind == .identifier) :=
      forall_mem_map.mpr fun q mem => ⟨_, _, rfl, by simp [kind_nameWord_of_isIdentifier (names q mem)]⟩
    have points := countsPairs_dotted.flatten pairs tail
    rw [chainWords, flatMap_def, cons_append, drop_one, tail_cons, points, ended, length_cons]
    omega
  have next : tokenAt (chainWords p ps ++ tail) (chainWords p ps).length = tokenAt tail 0 := tokenAt_append some' 0
  unfold scanNamed
  rw [show tokenAt (chainWords p ps ++ tail) 0 = nameWord p from rfl, notPrimitive, identifier]
  simp only [length, next, drop_left]
  rfl

theorem EndsType.brackets (h : EndsType rest) (dims : UInt8) :
    bracketWords dims ++ rest ≠ [] ∧ scanDotted (bracketWords dims ++ rest) = 0 ∧
      (tokenAt (bracketWords dims ++ rest) 0).is "<" = false := by
  refine ⟨fun none => h.1 (append_eq_nil_iff.mp none).2, ?_⟩
  unfold bracketWords
  cases dims.toNat with
  | zero => exact ⟨scanDotted_eq_zero (h.2 "." (by simp)), h.2 "<" (by simp)⟩
  | succ n => exact ⟨rfl, rfl⟩

theorem scanType_type {t : Page} (h : IsType .plain t) (ends : EndsType rest) :
    scanType ((phrase t).words ++ rest) = some (phrase t).words.length := by
  cases h with
  | @primitive _ name dims known _ =>
    obtain ⟨single, isPrimitive⟩ := dotted_primitive known
    have words : (phrase (.node [] (.typeReference name [] false dims))).words =
        [nameWord name] ++ bracketWords dims := by
      rw [words_typeReference, single]
      rfl
    rw [words, append_assoc]
    exact scanType_dimensions (if_pos isPrimitive) ends
  | @named _ name arguments dims isName types _ =>
    obtain ⟨p, ps, -, parts, first, names⟩ := dotted_parts isName
    obtain ⟨some', noPoint, noAngle⟩ := ends.brackets dims
    rw [words_typeReference, if_neg (by simp), append_assoc, parts]
    refine scanType_dimensions ?_ ends
    cases arguments with
    | nil =>
      show scanNamed (chainWords p ps ++ [] ++ (bracketWords dims ++ rest)) = some (chainWords p ps ++ []).length
      rw [append_nil, scanNamed_chain first names noPoint some', noAngle]
      rfl
    | cons t ts =>
      rw [if_neg (by simp), append_assoc]
      refine (scanNamed_chain first names (scanDotted_eq_zero rfl) (by simp [Phrase.angled])).trans ?_
      rw [if_pos (by rfl), scanArguments_angled (forall_mem_map.mpr fun t inside => passes_type (types t inside))]
      simp only [Option.map_some, length_append]
      rfl

end JavaEdit.Parser
