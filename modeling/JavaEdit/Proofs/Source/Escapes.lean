import JavaEdit.Proofs.Source.Numbers

/-!
# What the bodies of literals denote

The body of a character or string literal is a row of plain characters and escapes, and it denotes
the row of their characters. `Denotes` says so without reading from left to right; only an octal
escape depends on what follows it, since it is as long as it can be. How the digits behind `\u` may
look is a parameter: there should be four (`FourDigits`), and reading a body admits a little more
(`CodeDigits`). With the latter the bodies that can be read are known exactly
(`unescape_iff_denotes`).
-/

namespace JavaEdit

open List

variable {body text : List Char} {d : Nat}

/-! ## Escapes -/

/-- Letters and signs behind a backslash, each with the character it denotes. -/
def namedEscapes : List (Char × Char) :=
  [('b', Char.ofNat 8), ('t', '\t'), ('n', '\n'), ('f', Char.ofNat 12), ('r', '\r'), ('s', ' '),
    ('"', '"'), ('\'', '\''), ('\\', '\\')]

/-- Up to three octal digits with a value of at most 255. -/
def IsOctal (ds : List Char) (code : Nat) : Prop := digitsValue? 8 ds = some code ∧ ds.length ≤ 3 ∧ code ≤ 255

/-- The digits of a code point are exactly four. -/
def FourDigits (ds _ : List Char) (code : Nat) : Prop := ds.length = 4 ∧ digitsValue? 16 ds = some code

/-- The digits of a code point as they are read: a plus sign may take the place of the first one, and
at the very end of a body there may be fewer than four characters. -/
def CodeDigits (w rest : List Char) (code : Nat) : Prop :=
  (w.length = 4 ∨ w.length < 4 ∧ rest = []) ∧
    ∃ sign ds, w = sign ++ ds ∧ (sign = [] ∨ sign = ['+']) ∧ digitsValue? 16 ds = some code

/-- Characters behind a backslash that denote one, and what follows them. -/
inductive IsEscape (digits : List Char → List Char → Nat → Prop) : List Char → Char → List Char → Prop
  | named {x c : Char} {rest : List Char} : (x, c) ∈ namedEscapes → IsEscape digits [x] c rest
  /-- One more character would be too many or too much, or it is no digit. -/
  | octal {c : Char} {ds rest : List Char} : IsOctal ds c.toNat →
      (∀ x ∈ rest.head?, ∀ code, ¬ IsOctal (ds ++ [x]) code) → IsEscape digits ds c rest
  | code {c : Char} {ds rest : List Char} (more : Nat) : digits ds rest c.toNat →
      IsEscape digits ('u' :: (List.replicate more 'u' ++ ds)) c rest

/-- The text that the body of a literal denotes. -/
inductive Denotes (digits : List Char → List Char → Nat → Prop) : List Char → List Char → Prop
  | nil : Denotes digits [] []
  | plain {c : Char} {rest text : List Char} : c ≠ '\\' → Denotes digits rest text →
      Denotes digits (c :: rest) (c :: text)
  | escape {c : Char} {w rest text : List Char} : IsEscape digits w c rest → Denotes digits rest text →
      Denotes digits ('\\' :: (w ++ rest)) (c :: text)

variable {c x : Char} {cs ds rest w : List Char} {code value limit : Nat}

theorem shortEscape?_iff : shortEscape? x = some c ↔ (x, c) ∈ namedEscapes := by
  constructor
  · intro found
    unfold shortEscape? at found
    split at found <;> cases found <;> decide
  · intro mem
    simp only [namedEscapes, mem_cons, Prod.mk.injEq, not_mem_nil, or_false] at mem
    rcases mem with h | h | h | h | h | h | h | h | h <;> obtain ⟨rfl, rfl⟩ := h <;> rfl

theorem charOfCode?_iff : charOfCode? code = some c ↔ code = c.toNat := by
  unfold charOfCode?
  constructor
  · intro found
    split at found
    · rename_i scalar
      cases found
      have valid : code.isValidChar := by
        simp only [Bool.or_eq_true, Bool.and_eq_true, decide_eq_true_eq] at scalar
        exact scalar
      rw [Char.ofNat, dif_pos valid]
      rfl
    · cases found
  · rintro rfl
    have valid : c.toNat.isValidChar := c.valid
    rw [if_pos, Char.ofNat_toNat]
    simpa [Nat.isValidChar] using valid

/-! ## Octal escapes -/

theorem digitValue?_lt {base : Nat} (digit : digitValue? base c = some d) : d < base := by
  simpa using (Option.filter_eq_some_iff.mp digit).2

/-- No longer row of octal digits stands at the front of a text. -/
def IsLongestOctal (ds rest : List Char) : Prop := ∀ x ∈ rest.head?, ∀ code, ¬ IsOctal (ds ++ [x]) code

theorem IsOctal.concat (h : IsOctal (ds ++ [x]) code) (some : ds ≠ []) : ∃ value d,
    digitsValue? 8 ds = .some value ∧ digitValue? 8 x = .some d ∧ code = 8 * value + d ∧ IsOctal ds value := by
  obtain ⟨digits, short, small⟩ := h
  simp only [digitsValue?_concat some, Option.bind_eq_some_iff, Option.map_eq_some_iff] at digits
  obtain ⟨value, front, d, last, rfl⟩ := digits
  rw [length_append] at short
  exact ⟨value, d, front, last, rfl, front, by omega, by omega⟩

theorem IsOctal.front {more : List Char} (h : IsOctal (ds ++ more) code) (some : ds ≠ []) :
    ∃ value, IsOctal ds value := by
  induction more generalizing ds with
  | nil => exact ⟨code, by rwa [append_nil] at h⟩
  | cons x more ih =>
    rw [append_cons] at h
    obtain ⟨value, longer⟩ := ih h (by simp)
    obtain ⟨value, -, -, -, -, front⟩ := longer.concat some
    exact ⟨value, front⟩

/-- Octal digits that cannot go on are as many as there are. -/
theorem IsOctal.eq_of_longest {more : List Char} {value : Nat} (h : IsOctal ds code) (longer : IsOctal (ds ++ more) value)
    (longest : IsLongestOctal ds (more ++ rest)) : more = [] ∧ value = code := by
  cases more with
  | nil =>
    rw [append_nil] at longer
    exact ⟨rfl, Option.some.inj (longer.1.symm.trans h.1)⟩
  | cons x more =>
    rw [append_cons] at longer
    obtain ⟨value, next⟩ := longer.front (by simp)
    exact absurd next (longest x rfl value)

/-- How many digits may follow some octal digits of a known value. -/
def Room (length limit value : Nat) : Prop :=
  length = 1 ∧ limit = 2 ∧ value < 4 ∨ length = 1 ∧ limit = 1 ∧ 4 ≤ value ∧ value < 8 ∨
    length = 2 ∧ limit = 1 ∧ value < 32 ∨ length = 2 ∧ limit = 0 ∧ 32 ≤ value ∧ value < 64 ∨
    length = 3 ∧ limit = 0 ∧ value < 256

theorem exists_of_takeOctal (front : digitsValue? 8 ds = some value) (room : Room ds.length limit value)
    (cs : List Char) : ∃ more, cs = more ++ (takeOctal value limit cs).2 ∧
      IsOctal (ds ++ more) (takeOctal value limit cs).1 ∧ IsLongestOctal (ds ++ more) (takeOctal value limit cs).2 := by
  have nonempty : ds ≠ [] := by
    rintro rfl
    cases front
  fun_induction takeOctal value limit cs generalizing ds with
  | case1 value limit c cs d digit ih =>
    have small := digitValue?_lt digit
    have longer : digitsValue? 8 (ds ++ [c]) = some (8 * value + d) := by
      rw [digitsValue?_concat nonempty, front, digit]
      rfl
    have smaller : Room (ds ++ [c]).length limit (8 * value + d) := by
      rw [length_append, length_singleton]
      unfold Room at room ⊢
      omega
    obtain ⟨more, whole, isOctal, longest⟩ := ih longer smaller (by simp)
    refine ⟨c :: more, congrArg (c :: ·) whole, ?_, ?_⟩ <;> rwa [append_cons]
  | case2 value limit c cs none =>
    refine ⟨[], rfl, ?_, ?_⟩ <;> rw [append_nil]
    · unfold Room at room
      exact ⟨front, by omega, by omega⟩
    · rintro x first code longer
      cases first
      obtain ⟨-, d, -, digit, -⟩ := longer.concat nonempty
      cases digit.symm.trans none
  | case3 limit value cs done =>
    refine ⟨[], rfl, ?_, ?_⟩ <;> rw [append_nil]
    · unfold Room at room
      exact ⟨front, by omega, by omega⟩
    · rintro x first code longer
      obtain ⟨tail, rfl⟩ : ∃ tail, cs = x :: tail := List.head?_eq_some_iff.mp first
      have full : limit = 0 := by
        cases limit with
        | zero => rfl
        | succ limit => exact absurd rfl (done limit x tail rfl)
      obtain ⟨value', d, same, -, rfl, -⟩ := longer.concat nonempty
      cases front.symm.trans same
      obtain ⟨-, short, fits⟩ := longer
      rw [length_append, length_singleton] at short
      unfold Room at room
      omega
/-- How many digits may follow the first one of an octal escape. -/
def octalLimit (d : Nat) : Nat := if d ≤ 3 then 2 else 1

theorem longest_of_takeOctal (digit : digitValue? 8 x = some d) (cs : List Char) : ∃ ds,
    cs = ds ++ (takeOctal d (octalLimit d) cs).2 ∧ IsOctal (x :: ds) (takeOctal d (octalLimit d) cs).1 ∧
      IsLongestOctal (x :: ds) (takeOctal d (octalLimit d) cs).2 := by
  have small := digitValue?_lt digit
  have room : Room [x].length (octalLimit d) d := by
    rw [length_singleton]
    unfold Room octalLimit
    split <;> omega
  exact exists_of_takeOctal (by simp [digitsValue?, digit]) room cs

theorem takeOctal_eq (digit : digitValue? 8 x = some d) (h : IsOctal (x :: ds) code)
    (longest : IsLongestOctal (x :: ds) rest) : takeOctal d (octalLimit d) (ds ++ rest) = (code, rest) := by
  obtain ⟨taken, whole, isOctal, most⟩ := longest_of_takeOctal digit (ds ++ rest)
  -- both are the longest row of octal digits there
  generalize takeOctal d (octalLimit d) (ds ++ rest) = result at whole isOctal most ⊢
  rcases append_eq_append_iff.mp whole with ⟨more, rfl, rfl⟩ | ⟨more, rfl, behind⟩
  · obtain ⟨rfl, same⟩ := h.eq_of_longest isOctal longest
    exact Prod.ext same rfl
  · rw [behind] at most
    obtain ⟨rfl, same⟩ := isOctal.eq_of_longest h most
    exact Prod.ext same.symm behind

/-! ## Reading an escape -/

theorem digitsValue?_none {base : Nat} (digit : digitValue? base c = none) : digitsValue? base (c :: ds) = none := by
  have stuck : ∀ ds : List Char, ds.foldl (fun acc c => do
      return base * (← acc) + (← digitValue? base c)) none = (none : Option Nat) := by
    intro ds
    induction ds with
    | nil => rfl
    | cons _ ds ih => exact ih
  simpa [digitsValue?, digit] using stuck ds

theorem unsignedValue?_iff {w : List Char} : unsignedValue? 16 w = some code ↔
    ∃ sign ds, w = sign ++ ds ∧ (sign = [] ∨ sign = ['+']) ∧ digitsValue? 16 ds = some code := by
  constructor
  · intro found
    unfold unsignedValue? at found
    split at found
    · exact ⟨['+'], _, rfl, .inr rfl, found⟩
    · exact ⟨[], w, rfl, .inl rfl, found⟩
  · rintro ⟨sign, ds, rfl, rfl | rfl, digits⟩
    · rw [nil_append]
      cases ds with
      | nil => cases digits
      | cons x ds =>
        unfold unsignedValue?
        split
        · rename_i same
          cases same
          rw [digitsValue?_none rfl] at digits
          cases digits
        · exact digits
    · exact digits

/-- The marks in front of the digits of a code point, and what follows them. -/
theorem dropWhile_marks (more : Nat) {tail : List Char} (other : ∀ x ∈ tail.head?, x ≠ 'u') :
    (List.replicate more 'u' ++ tail).dropWhile (· == 'u') = tail := by
  rw [dropWhile_append_of_pos fun x mem => by simp [eq_of_mem_replicate mem]]
  cases tail with
  | nil => rfl
  | cons x tail => exact dropWhile_cons_of_neg (by simpa using other x rfl)

theorem CodeDigits.head_ne (h : CodeDigits w rest code) : ∀ x ∈ (w ++ rest).head?, x ≠ 'u' := by
  obtain ⟨-, sign, ds, rfl, isSign, digits⟩ := h
  rintro x first rfl
  rcases isSign with rfl | rfl
  · cases ds with
    | nil => cases digits
    | cons y ds =>
      cases first
      rw [digitsValue?_none rfl] at digits
      cases digits
  · cases first

theorem shortEscape?_of_digit (digit : digitValue? 8 x = some d) : shortEscape? x = none ∧ (x == 'u') = false := by
  constructor
  · cases found : shortEscape? x with
    | none => rfl
    | some c =>
      have apart : ∀ e ∈ namedEscapes, digitValue? 8 e.1 = none := by decide
      rw [apart _ (shortEscape?_iff.mp found)] at digit
      cases digit
  · rw [beq_eq_false_iff_ne]
    rintro rfl
    cases digit

theorem IsEscape.unescapeOne_eq (h : IsEscape CodeDigits w c rest) : unescapeOne (w ++ rest) = .ok (c, rest) := by
  cases h with
  | named known => rw [singleton_append, unescapeOne, shortEscape?_iff.mpr known]
  | octal isOctal longest =>
    cases w with
    | nil => cases isOctal.1
    | cons x ds =>
      cases digit : digitValue? 8 x with
      | none => cases (digitsValue?_none digit).symm.trans isOctal.1
      | some d =>
        obtain ⟨notShort, notMark⟩ := shortEscape?_of_digit digit
        rw [cons_append, unescapeOne, notShort]
        rw [notMark, if_neg (by simp), digit]
        dsimp only
        rw [show (if d ≤ 3 then 2 else 1) = octalLimit d from rfl, takeOctal_eq digit isOctal longest, Char.ofNat_toNat]
  | @code _ ds _ more digits =>
    have marks := dropWhile_marks more digits.head_ne
    obtain ⟨length, value⟩ := digits
    have taken : (ds ++ rest).take 4 = ds ∧ (ds ++ rest).drop 4 = rest := by
      rcases length with four | ⟨fewer, rfl⟩
      · rw [← four]
        exact ⟨take_left, drop_left⟩
      · rw [append_nil]
        exact ⟨take_of_length_le (by omega), drop_of_length_le (by omega)⟩
    rw [cons_append, unescapeOne, show shortEscape? 'u' = none from rfl]
    dsimp only
    rw [if_pos (by rfl), append_assoc, marks, taken.1, unsignedValue?_iff.mpr value]
    dsimp only
    rw [charOfCode?_iff.mpr rfl, taken.2]

theorem escape_of_unescapeOne {cs : List Char} (h : unescapeOne cs = .ok (c, rest)) :
    ∃ w, cs = w ++ rest ∧ IsEscape CodeDigits w c rest := by
  unfold unescapeOne at h
  split at h
  · cases h
  · rename_i x cs
    split at h
    · rename_i d found
      cases h
      exact ⟨[x], rfl, .named (shortEscape?_iff.mp found)⟩
    · split at h
      · rename_i isMark
        dsimp only at h
        split at h
        · cases h
        · rename_i code found
          split at h
          · cases h
          · rename_i d scalar
            cases h
            have marks : cs.takeWhile (· == 'u') ++ cs.dropWhile (· == 'u') = cs := takeWhile_append_dropWhile
            have same : cs.takeWhile (· == 'u') = List.replicate _ 'u' := eq_replicate_of_mem
              fun y mem => by simpa using all_eq_true.mp all_takeWhile y mem
            generalize cs.dropWhile (· == 'u') = tail at *
            refine ⟨'u' :: (cs.takeWhile (· == 'u') ++ tail.take 4), ?_, ?_⟩
            · rw [beq_iff_eq.mp isMark, cons_append, append_assoc, take_append_drop, marks]
            · rw [same]
              refine .code _ ⟨?_, unsignedValue?_iff.mp (charOfCode?_iff.mp scalar ▸ found)⟩
              rw [length_take]
              rcases Nat.lt_or_ge tail.length 4 with fewer | enough
              · exact .inr ⟨by omega, drop_of_length_le (by omega)⟩
              · exact .inl (by omega)
      · split at h
        · cases h
        · rename_i d digit
          obtain ⟨ds, whole, isOctal, longest⟩ := longest_of_takeOctal digit cs
          change Except.ok (Char.ofNat (takeOctal d (octalLimit d) cs).1, (takeOctal d (octalLimit d) cs).2) =
            .ok (c, rest) at h
          generalize takeOctal d (octalLimit d) cs = taken at *
          cases h
          have fits := isOctal.2.2
          have code : (Char.ofNat taken.1).toNat = taken.1 := (charOfCode?_iff.mp (if_pos (by simp; omega))).symm
          exact ⟨x :: ds, by rw [whole]; rfl, .octal (by rwa [code]) longest⟩

/-! ## Reading a body -/

theorem unescapeWith_backslash (fuel : Nat) (one : unescapeOne cs = .ok (c, rest)) :
    unescapeWith (fuel + 1) ('\\' :: cs) = (unescapeWith fuel rest).map (c :: ·) := by
  rw [unescapeWith, one]
  simp only [bind, Except.bind]
  cases unescapeWith fuel rest <;> rfl

theorem unescapeWith_plain (fuel : Nat) (notBackslash : c ≠ '\\') :
    unescapeWith (fuel + 1) (c :: cs) = (unescapeWith fuel cs).map (c :: ·) := by
  rw [unescapeWith]
  · simp only [bind, Except.bind]
    cases unescapeWith fuel cs <;> rfl
  · exact notBackslash

theorem Denotes.read (h : Denotes FourDigits body text) : Denotes CodeDigits body text := by
  induction h with
  | nil => exact .nil
  | plain other _ ih => exact .plain other ih
  | escape escape _ ih =>
    refine .escape ?_ ih
    cases escape with
    | named known => exact .named known
    | octal isOctal longest => exact .octal isOctal longest
    | code more digits => exact .code more ⟨.inl digits.1, [], _, rfl, .inl rfl, digits.2⟩

theorem map_eq_ok {ε α β : Type} {result : Except ε α} {f : α → β} {b : β} (h : result.map f = .ok b) :
    ∃ a, result = .ok a ∧ f a = b := by
  cases result with
  | error e => cases h
  | ok a => exact ⟨a, rfl, Except.ok.inj h⟩

theorem denotes_of_unescapeWith {fuel : Nat} (enough : body.length ≤ fuel)
    (h : unescapeWith fuel body = .ok text) : Denotes CodeDigits body text := by
  induction fuel generalizing body text with
  | zero =>
    obtain rfl := eq_nil_of_length_eq_zero (Nat.le_zero.mp enough)
    cases h
    exact .nil
  | succ fuel ih =>
    cases body with
    | nil =>
      cases h
      exact .nil
    | cons c body =>
      have shorter : body.length ≤ fuel := Nat.le_of_succ_le_succ enough
      by_cases backslash : c = '\\'
      · subst backslash
        cases one : unescapeOne body with
        | error e =>
          rw [unescapeWith, one] at h
          cases h
        | ok result =>
          rw [unescapeWith_backslash fuel one] at h
          obtain ⟨text, read, rfl⟩ := map_eq_ok h
          obtain ⟨w, rfl, escape⟩ := escape_of_unescapeOne one
          rw [length_append] at shorter
          exact .escape escape (ih (by omega) read)
      · rw [unescapeWith_plain fuel backslash] at h
        obtain ⟨text, read, rfl⟩ := map_eq_ok h
        exact .plain backslash (ih shorter read)

theorem Denotes.unescapeWith_eq {fuel : Nat} (h : Denotes CodeDigits body text)
    (enough : body.length ≤ fuel) : unescapeWith fuel body = .ok text := by
  induction h generalizing fuel with
  | nil => cases fuel <;> rfl
  | plain other _ ih =>
    obtain ⟨fuel, rfl⟩ : ∃ n, fuel = n + 1 := ⟨fuel - 1, by simp at enough; omega⟩
    rw [unescapeWith_plain fuel other, ih (Nat.le_of_succ_le_succ enough)]
    rfl
  | @escape c w rest text escape _ ih =>
    obtain ⟨fuel, rfl⟩ : ∃ n, fuel = n + 1 := ⟨fuel - 1, by simp at enough; omega⟩
    rw [length_cons, length_append] at enough
    rw [unescapeWith_backslash fuel escape.unescapeOne_eq, ih (by omega)]
    rfl

/-- A body is read exactly when it denotes a text, and as that text, with the digits of a code point
taken in the wide sense; in particular whatever has four digits in each of them is read. -/
theorem unescape_iff_denotes (body text : List Char) : (unescape body = .ok text ↔ Denotes CodeDigits body text) ∧
      (Denotes FourDigits body text → unescape body = .ok text) :=
  ⟨⟨denotes_of_unescapeWith (Nat.le_refl _), fun h => h.unescapeWith_eq (Nat.le_refl _)⟩,
    fun h => h.read.unescapeWith_eq (Nat.le_refl _)⟩

/-- Two digits at the end of a body are enough for a code point, where four should be asked for. -/
theorem unescape_two_digits : unescape "\\u41".toList = .ok ['A'] ∧
    ¬ ∃ text, Denotes FourDigits "\\u41".toList text := by
  refine ⟨rfl, ?_⟩
  rintro ⟨text, h⟩
  rw [show "\\u41".toList = ['\\', 'u', '4', '1'] from rfl] at h
  generalize whole : ['\\', 'u', '4', '1'] = body at h
  cases h with
  | nil => cases whole
  | plain other _ =>
    cases whole
    exact other rfl
  | @escape c w rest text escape _ =>
    have tail : ['u', '4', '1'] = w ++ rest := by injection whole
    cases escape with
    | named known =>
      cases tail
      have none : ∀ c, shortEscape? 'u' ≠ some c := by
        intro c found
        cases found
      exact none c (shortEscape?_iff.mpr known)
    | octal isOctal _ =>
      cases w with
      | nil => cases isOctal.1
      | cons x ds =>
        injection tail with first
        subst first
        have value := isOctal.1
        rw [digitsValue?_none rfl] at value
        cases value
    | code more digits =>
      have lengths := congrArg List.length tail
      have four := digits.1
      simp at lengths
      omega

end JavaEdit
