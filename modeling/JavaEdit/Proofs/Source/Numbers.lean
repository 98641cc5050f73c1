import JavaEdit.Node.Literal
import JavaEdit.Proofs.Source.Lexing

/-!
# Numbers and their words

A decimal number has up to four parts and a suffix (`DecimalParts`, `IsSuffix`). Put together they are
read as one token again, if nothing follows that could belong to it (`scanNumber_decimal`); a number with
a marker is simpler (`scanRadix_eq_ok`). So the text of an integer is one token and has the value it was
written from, also in hexadecimal, and the text of a finite floating point number is one token as well.
-/

namespace JavaEdit

open Lexer List Bool Nat

variable {base n : Nat} {c : Char} {cs ds : List Char}

/-! ## Digits -/

theorem mem_toDigits (large : 1 < base) (mem : c ∈ base.toDigits n) : ∃ d < base, c = d.digitChar := by
  induction n using Nat.strongRecOn with
  | ind n ih =>
    rcases Nat.lt_or_ge n base with small | big
    · rw [Nat.toDigits_of_lt_base small, mem_singleton] at mem
      exact ⟨n, small, mem⟩
    · rw [Nat.toDigits_of_base_le large big, mem_append, mem_singleton] at mem
      rcases mem with front | last
      · exact ih (n / base) (Nat.div_lt_self (by omega) large) front
      · exact ⟨n % base, Nat.mod_lt _ (by omega), last⟩

theorem digitsValue?_concat (some : ds ≠ []) (c : Char) : digitsValue? base (ds ++ [c]) =
    (digitsValue? base ds).bind fun n => (digitValue? base c).map fun d => base * n + d := by
  obtain ⟨x, xs, rfl⟩ := exists_cons_of_ne_nil some
  simp only [digitsValue?, cons_append]
  rw [← cons_append, foldl_append]
  cases (x :: xs).foldl _ _ <;> cases digit : digitValue? base c <;> simp [digit]

theorem digitsValue?_map_toDigits (large : 1 < base) {f : Char → Char}
    (same : ∀ d < base, digitValue? base (f d.digitChar) = some d) (n : Nat) :
    digitsValue? base ((base.toDigits n).map f) = some n := by
  induction n using Nat.strongRecOn with
  | ind n ih =>
    rcases Nat.lt_or_ge n base with small | big
    · simp [Nat.toDigits_of_lt_base small, digitsValue?, same n small]
    · rw [Nat.toDigits_of_base_le large big, map_append, map_singleton]
      have front := ih (n / base) (Nat.div_lt_self (by omega) large)
      have last := same (n % base) (Nat.mod_lt _ (by omega))
      rw [digitsValue?_concat (by simp), front, last, Option.bind_some, Option.map_some, Nat.div_add_mod]

theorem digitsValue?_digitsOf (n : Nat) : digitsValue? 10 (Number.digitsOf n) = some n := by
  have value := digitsValue?_map_toDigits (f := id) (by decide : 1 < 10) (by decide) n
  rwa [List.map_id] at value

theorem digitsValue?_hexText (n : Nat) : digitsValue? 16 (Literal.hexText n).toList = some n := by
  rw [Literal.hexText, String.toList_ofList]
  exact digitsValue?_map_toDigits (by decide) (by decide) n

theorem mem_digitsOf (mem : c ∈ Number.digitsOf n) : c.isDigit := by
  obtain ⟨d, small, rfl⟩ := mem_toDigits (by decide) mem
  have digits : ∀ d < 10, d.digitChar.isDigit := by decide
  exact digits d small

theorem digitsOf_ne_nil (n : Nat) : Number.digitsOf n ≠ [] := Nat.toDigits_ne_nil

theorem mem_hexText (mem : c ∈ (Literal.hexText n).toList) : isHexDigit c ∧ c ≠ '_' := by
  rw [Literal.hexText, String.toList_ofList, mem_map] at mem
  obtain ⟨lower, mem, rfl⟩ := mem
  obtain ⟨d, small, rfl⟩ := mem_toDigits (by decide) mem
  have digits : ∀ d < 16, isHexDigit d.digitChar.toUpper ∧ d.digitChar.toUpper ≠ '_' := by
    decide
  exact digits d small

theorem hexText_ne_nil (n : Nat) : (Literal.hexText n).toList ≠ [] := by
  rw [Literal.hexText, String.toList_ofList]
  simp

/-- Only zero is written with a zero in front. -/
theorem digitsOf_cases (n : Nat) : Number.digitsOf n = ['0'] ∨ ∃ c cs, Number.digitsOf n = c :: cs ∧ c ≠ '0' := by
  unfold Number.digitsOf
  induction n using Nat.strongRecOn with
  | ind n ih =>
    rcases Nat.lt_or_ge n 10 with small | big
    · rw [Nat.toDigits_of_lt_base small]
      have single : ∀ n < 10, n.digitChar = '0' ∨ n.digitChar ≠ '0' := by decide
      rcases single n small with zero | other
      · exact .inl (by rw [zero])
      · exact .inr ⟨_, [], rfl, other⟩
    · rw [Nat.toDigits_of_base_le (by decide) big]
      rcases ih (n / 10) (Nat.div_lt_self (by omega) (by decide)) with zero | ⟨c, cs, digits, large⟩
      · -- the front is the number of tens, which is not zero
        have value := digitsValue?_digitsOf (n / 10)
        rw [Number.digitsOf, zero, show digitsValue? 10 ['0'] = some 0 by rfl] at value
        have := Option.some.inj value
        omega
      · rw [digits]
        exact .inr ⟨c, _, rfl, large⟩

/-! ## Characters of numbers -/

namespace Lexer

variable {p : Char → Bool} {rest mark suffix tail : List Char} {kind : TokenKind}

/-- Whether an integer ends in front of some characters. -/
def endsInteger : List Char → Bool
  | '.' :: cs => !startsFraction cs
  | c :: _ => !isNamePart c
  | [] => true

theorem isNamePart_of_isAlphanum (h : c.isAlphanum) : isNamePart c := by
  have small : c.toNat < 128 := by
    simp only [Char.isAlphanum, or_eq_true, isAlpha_iff, isDigit_iff] at h
    omega
  simp [isNamePart, Text.isLetterOrNumber, small, h]

theorem isLetter_of_isDigit (h : c.isDigit) : Text.isLetter c = false := by
  rw [isDigit_iff] at h
  rw [Text.isLetter, if_pos (by omega), Bool.eq_false_iff, Ne, isAlpha_iff]
  omega

theorem isNamePart_of_isSpacedDigit (h : isSpacedDigit c) : isNamePart c := by
  simp only [isSpacedDigit, or_eq_true, beq_iff_eq] at h
  rcases h with digit | rfl
  · exact isNamePart_of_isAlphanum (by simp [Char.isAlphanum, digit])
  · rfl

theorem isNamePart_of_isHexDigit (h : isHexDigit c) : isNamePart c := by
  refine isNamePart_of_isAlphanum ?_
  simp only [isHexDigit, digitValue?, Option.isSome_filter] at h
  simp only [Char.isAlphanum, or_eq_true, isAlpha_iff, isDigit_iff]
  split at h
  · rename_i range
    simp at range
    omega
  · split at h
    · rename_i range
      simp at range
      omega
    · split at h
      · rename_i range
        simp at range
        omega
      · simp at h

theorem isSpacedDigit_of_isDigit (h : c.isDigit) : isSpacedDigit c := by
  simp [isSpacedDigit, h]

/-- Characters in front of which a point is not read as a part of a number. -/
def endsFraction (c : Char) : Bool := c == '.' || (Text.isLetter c && !(['e', 'E', 'f', 'F', 'd', 'D'].contains c))

theorem startsFraction_of_heads (h : Heads (fun c => !endsFraction c) cs) : startsFraction cs := by
  cases cs with
  | nil => rfl
  | cons c cs => exact (heads_cons _ _ _).mp h

theorem endsFraction_of_isSpacedDigit (h : isSpacedDigit c) : endsFraction c = false := by
  simp only [isSpacedDigit, or_eq_true, beq_iff_eq] at h
  rcases h with digit | rfl
  · have notPoint : c ≠ '.' := by
      rintro rfl
      cases digit
    simp [endsFraction, isLetter_of_isDigit digit, notPoint]
  · rfl

theorem isLetter_of_not_isNamePart (h : isNamePart c = false) : Text.isLetter c = false := by
  cases letter : Text.isLetter c with
  | false => rfl
  | true =>
    have part := isNamePart_of_isNameStart (show isNameStart c = true by simp [isNameStart, letter])
    rw [h] at part
    cases part

theorem Heads.apart (h : Heads (fun c => !isNamePart c) rest)
    (parts : ∀ c, p c → isNamePart c) : Heads (fun c => !p c) rest :=
  h.mono fun c apart => by
    cases holds : p c with
    | false => rfl
    | true => rw [parts c holds] at apart; cases apart

/-! ## Suffixes -/

/-- What may follow the digits of an integer, and what it makes of them. -/
inductive IsIntegerSuffix : List Char → TokenKind → Prop
  | none : IsIntegerSuffix [] .intLiteral
  | long {c : Char} : c = 'l' ∨ c = 'L' → IsIntegerSuffix [c] .longLiteral

/-- What may follow the parts of a decimal number. -/
inductive IsSuffix : Bool → List Char → TokenKind → Prop
  | integer {suffix : List Char} {kind : TokenKind} : IsIntegerSuffix suffix kind → IsSuffix false suffix kind
  | none : IsSuffix true [] .doubleLiteral
  | float {isReal : Bool} {c : Char} : c = 'f' ∨ c = 'F' → IsSuffix isReal [c] .floatLiteral
  | double {isReal : Bool} {c : Char} : c = 'd' ∨ c = 'D' → IsSuffix isReal [c] .doubleLiteral

theorem IsIntegerSuffix.notEnd (h : IsIntegerSuffix suffix kind) : kind ≠ .eof := by
  cases h <;> nofun

theorem IsSuffix.notEnd {isReal : Bool} (h : IsSuffix isReal suffix kind) : kind ≠ .eof := by
  cases h with
  | integer isSuffix => exact isSuffix.notEnd
  | none | float | double => nofun

/-- The end of a decimal number. -/
def finishNumber (isReal : Bool) (text rest : List Char) : Piece :=
  let plain := if isReal then ⟨.doubleLiteral, text, rest⟩ else integerSuffix text rest
  match rest with
  | c :: after =>
    if c == 'f' || c == 'F' then ⟨.floatLiteral, text ++ [c], after⟩
    else if c == 'd' || c == 'D' then ⟨.doubleLiteral, text ++ [c], after⟩
    else plain
  | [] => plain

/-- A suffix and what follows it start with one of six letters or with what follows. -/
theorem IsIntegerSuffix.heads (h : IsIntegerSuffix suffix kind)
    (long : p 'l' = false ∧ p 'L' = false) (stops : suffix = [] → Heads (fun c => !p c) rest) :
    Heads (fun c => !p c) (suffix ++ rest) := by
  cases h with
  | none => exact stops rfl
  | long is =>
    rw [singleton_append, heads_cons]
    rcases is with rfl | rfl <;> simp [long]

theorem IsSuffix.heads {isReal : Bool}
    (h : IsSuffix isReal suffix kind) (letters : ∀ x ∈ ['f', 'F', 'd', 'D'], p x = false)
    (long : isReal = false → p 'l' = false ∧ p 'L' = false)
    (stops : suffix = [] → Heads (fun c => !p c) rest) : Heads (fun c => !p c) (suffix ++ rest) := by
  cases h with
  | integer isSuffix => exact isSuffix.heads (long rfl) stops
  | none => exact stops rfl
  | float is | double is =>
    rw [singleton_append, heads_cons]
    rcases is with rfl | rfl <;> simp [letters]

theorem integerSuffix_eq (h : IsIntegerSuffix suffix kind) (text : List Char)
    (stops : suffix = [] → Heads (fun c => !isNamePart c) rest) :
    integerSuffix text (suffix ++ rest) = ⟨kind, text ++ suffix, rest⟩ := by
  cases h with
  | none =>
    have noLetter : Heads (fun c => !(c == 'l' || c == 'L')) rest := Heads.apart (stops rfl) fun c is => by
      rcases (by simpa using is) with rfl | rfl <;> rfl
    cases rest with
    | nil => simp [integerSuffix]
    | cons c rest =>
      rw [heads_cons, not_eq_true'] at noLetter
      simp [integerSuffix, noLetter]
  | long is => rcases is with rfl | rfl <;> rfl

theorem finishNumber_eq {isReal : Bool} (h : IsSuffix isReal suffix kind) (text : List Char)
    (stops : suffix = [] → Heads (fun c => !isNamePart c) rest) :
    finishNumber isReal text (suffix ++ rest) = ⟨kind, text ++ suffix, rest⟩ := by
  -- without a suffix of its own, the number is what the rest makes of it
  have plain : Heads (fun c => !(c == 'f' || c == 'F' || c == 'd' || c == 'D')) (suffix ++ rest) →
      finishNumber isReal text (suffix ++ rest) =
        if isReal then ⟨.doubleLiteral, text, suffix ++ rest⟩ else integerSuffix text (suffix ++ rest) := by
    intro other
    unfold finishNumber
    cases tail : suffix ++ rest with
    | nil => rfl
    | cons c after =>
      rw [tail, heads_cons] at other
      simp only [not_eq_true', or_eq_false_iff] at other
      simp [other]
  have noLetter : suffix = [] → Heads (fun c => !(c == 'f' || c == 'F' || c == 'd' || c == 'D')) rest :=
    fun none => Heads.apart (stops none) fun c is => by
      simp only [or_eq_true, beq_iff_eq] at is
      rcases is with ((rfl | rfl) | rfl) | rfl <;> rfl
  cases h with
  | integer isSuffix =>
    rw [plain (isSuffix.heads (by decide) noLetter)]
    exact integerSuffix_eq isSuffix text stops
  | none =>
    rw [plain (noLetter rfl), if_pos rfl, append_nil]
    rfl
  | float is | double is => rcases is with rfl | rfl <;> rfl

/-! ## Decimal numbers -/

/-- The digits, the fraction, and the mark and digits of the exponent of a decimal number. -/
structure DecimalParts where
  whole : List Char
  fraction : List Char
  mark : List Char
  power : List Char

namespace DecimalParts

def text (d : DecimalParts) : List Char := d.whole ++ d.fraction ++ d.mark ++ d.power

/-- Whether the number is no integer, whatever its suffix. -/
def isReal (d : DecimalParts) : Bool := !(d.fraction.isEmpty && d.mark.isEmpty)

/-- How the parts of a number look. -/
structure Valid (d : DecimalParts) : Prop where
  whole : ∀ c ∈ d.whole, isSpacedDigit c = true
  fraction : d.fraction = [] ∨ ∃ places, d.fraction = '.' :: places ∧ ∀ c ∈ places, isSpacedDigit c = true
  exponent : d.mark = [] ∧ d.power = [] ∨
    (∃ e, (e = 'e' ∨ e = 'E') ∧ (d.mark = [e] ∨ d.mark = [e, '+'] ∨ d.mark = [e, '-'])) ∧
      d.power ≠ [] ∧ ∀ c ∈ d.power, c.isDigit = true

/-- Where a number without suffix ends: what follows is no part of a name, and a point that follows does not
belong to the number. -/
structure Stops (d : DecimalParts) (rest : List Char) : Prop where
  apart : Heads (fun c => !isNamePart c) rest
  integer : d.isReal = false → splitFraction rest = ([], rest)
  point : d.fraction = ['.'] → Heads (fun c => !(c == '.')) rest

end DecimalParts

/-- The digits behind the mark of an exponent, and the rest. -/
def splitPower (mark cs : List Char) : List Char × List Char :=
  if mark.isEmpty then ([], cs) else (cs.takeWhile Char.isDigit, cs.dropWhile Char.isDigit)

theorem scanDecimal_eq {whole fraction behind after power : List Char} (take : cs.takeWhile isSpacedDigit = whole)
    (split : splitFraction (cs.dropWhile isSpacedDigit) = (fraction, behind))
    (exponent : splitExponentMark behind = (mark, after)) (digits : splitPower mark after = (power, rest)) :
    scanDecimal cs = if !mark.isEmpty && power.isEmpty then
        .error ⟨whole ++ fraction ++ mark ++ power, .exponentMissing⟩
      else .ok (finishNumber (!(fraction.isEmpty && mark.isEmpty)) (whole ++ fraction ++ mark ++ power) rest) := by
  have power_eq : (if mark.isEmpty then [] else after.takeWhile Char.isDigit) = power := by
    show _ = (power, rest).1
    rw [← digits, splitPower]
    split <;> rfl
  have rest_eq : (if mark.isEmpty then after else after.dropWhile Char.isDigit) = rest := by
    show _ = (power, rest).2
    rw [← digits, splitPower]
    split <;> rfl
  unfold scanDecimal finishNumber
  simp only [take, split, exponent, power_eq, rest_eq]
  congr 1
  cases fraction.isEmpty && mark.isEmpty
  all_goals
    cases rest with
    | nil => rfl
    | cons c rest =>
      dsimp only
      repeat' split
      all_goals first | rfl | contradiction

variable {d : DecimalParts}

/-- An exponent and what follows it start with the mark or with what follows. -/
theorem DecimalParts.Valid.heads (valid : d.Valid)
    (mark : p 'e' = false ∧ p 'E' = false) (stops : Heads (fun c => !p c) tail) :
    Heads (fun c => !p c) (d.mark ++ (d.power ++ tail)) := by
  rcases valid.exponent with ⟨noMark, noPower⟩ | ⟨⟨e, letter, marks⟩, -, -⟩
  · rw [noMark, noPower]
    exact stops
  · have first : (!p e) := by rcases letter with rfl | rfl <;> simp [mark]
    rcases marks with is | is | is
    all_goals
      rw [is, cons_append, heads_cons]
      exact first

theorem splitPower_eq (valid : d.Valid)
    (stops : Heads (fun c => !c.isDigit) tail) : splitPower d.mark (d.power ++ tail) = (d.power, tail) := by
  unfold splitPower
  rcases valid.exponent with ⟨noMark, noPower⟩ | ⟨⟨e, -, marks⟩, -, digits⟩
  · rw [noMark, noPower]
    rfl
  · obtain ⟨take, drop⟩ := takeWhile_append_stop digits stops
    rw [take, drop]
    rcases marks with mark | mark | mark <;> rw [mark] <;> rfl

theorem splitExponentMark_eq (valid : d.Valid) (stops : Heads (fun c => !(c == 'e' || c == 'E')) tail) :
    splitExponentMark (d.mark ++ (d.power ++ tail)) = (d.mark, d.power ++ tail) := by
  rcases valid.exponent with ⟨noMark, noPower⟩ | ⟨⟨e, letter, marks⟩, some, digits⟩
  · rw [noMark, noPower, nil_append, nil_append]
    match tail with
    | [] => rfl
    | [c] | c :: _ :: _ =>
      rw [heads_cons, not_eq_true'] at stops
      simp [splitExponentMark, stops]
  · have isMark : (e == 'e' || e == 'E') := by simpa using letter
    obtain ⟨digit, others, power⟩ := exists_cons_of_ne_nil some
    rcases marks with mark | mark | mark
    · -- a digit follows the mark, and no sign
      have first := digits digit (by rw [power]; exact (.head _))
      have noSign : (digit == '+' || digit == '-') = false := by
        rw [or_eq_false_iff, beq_eq_false_iff_ne, beq_eq_false_iff_ne]
        constructor <;> rintro rfl <;> cases first
      rw [mark, power]
      simp [splitExponentMark, isMark, noSign]
    · rw [mark]
      simp [splitExponentMark, isMark]
    · rw [mark]
      simp [splitExponentMark, isMark]

theorem splitFraction_eq_nil (noPoint : Heads (fun c => !(c == '.')) cs) : splitFraction cs = ([], cs) := by
  unfold splitFraction
  split
  · rw [heads_cons] at noPoint
    cases noPoint
  · rfl

theorem splitFraction_eq (valid : d.Valid) (noDigit : Heads (fun c => !isSpacedDigit c) tail)
    (integer : d.isReal = false → splitFraction tail = ([], tail))
    (point : d.fraction = ['.'] → Heads (fun c => !endsFraction c) tail) :
    splitFraction (d.fraction ++ (d.mark ++ (d.power ++ tail))) = (d.fraction, d.mark ++ (d.power ++ tail)) := by
  rcases valid.fraction with none | ⟨places, some, digits⟩
  · rw [none, nil_append]
    rcases valid.exponent with ⟨noMark, noPower⟩ | ⟨⟨e, letter, marks⟩, -, -⟩
    · rw [noMark, noPower]
      exact integer (by simp [DecimalParts.isReal, none, noMark])
    · refine splitFraction_eq_nil ?_
      rcases marks with mark | mark | mark <;> rw [mark, cons_append, heads_cons] <;>
        rcases letter with rfl | rfl <;> rfl
  · obtain ⟨take, drop⟩ := takeWhile_append_stop digits (valid.heads (by decide) noDigit)
    have first : Heads (fun c => !endsFraction c) (places ++ (d.mark ++ (d.power ++ tail))) := by
      cases places with
      | nil => exact valid.heads (by decide) (point some)
      | cons c places =>
        rw [cons_append, heads_cons, endsFraction_of_isSpacedDigit (digits c (.head _))]
        rfl
    rw [some, cons_append, splitFraction, if_pos (startsFraction_of_heads first), take, drop]

theorem scanNumber_eq {whole : List Char} (digits : ∀ c ∈ whole, isSpacedDigit c)
    (noDigit : Heads (fun c => !isSpacedDigit c) tail)
    (noMarker : Heads (fun c => !(['x', 'X', 'b', 'B'].contains c)) tail) :
    scanNumber (whole ++ tail) = scanDecimal (whole ++ tail) := by
  unfold scanNumber
  split
  · rename_i c cs chars
    have plain : ['x', 'X', 'b', 'B'].contains c = false := by
      match whole with
      | [] =>
        rw [nil_append] at chars
        rw [chars, heads_cons] at noDigit
        cases noDigit
      | [_] =>
        obtain ⟨-, rfl⟩ := List.cons.inj chars
        rwa [heads_cons, not_eq_true'] at noMarker
      | _ :: d :: whole =>
        obtain ⟨rfl, -⟩ := List.cons.inj (List.cons.inj chars).2
        have marks : ∀ x ∈ ['x', 'X', 'b', 'B'], isSpacedDigit x = false := by decide
        rw [← not_eq_true, contains_iff_mem]
        intro mark
        have := digits d (by simp)
        simp [marks d mark] at this
    simp only [contains_cons, or_eq_false_iff] at plain
    simp [plain, chars]
  · rfl

theorem scanNumber_decimal (valid : d.Valid) (h : IsSuffix d.isReal suffix kind) (stops : suffix = [] → d.Stops rest) :
    scanNumber (d.text ++ suffix ++ rest) = .ok ⟨kind, d.text ++ suffix, rest⟩ := by
  have heads : ∀ {p : Char → Bool}, (∀ x ∈ ['f', 'F', 'd', 'D', 'l', 'L'], p x = false) →
      (∀ c, p c → isNamePart c) → Heads (fun c => !p c) (suffix ++ rest) := fun letters parts =>
    h.heads (fun x mem => letters x (mem_append_left ['l', 'L'] mem))
      (fun _ => ⟨letters _ (by decide), letters _ (by decide)⟩) fun none => Heads.apart (stops none).apart parts
  have noDigit := heads (p := isSpacedDigit) (by decide) fun _ => isNamePart_of_isSpacedDigit
  have noPower : Heads (fun c => !c.isDigit) (suffix ++ rest) :=
    heads (by decide) fun _ digit => isNamePart_of_isSpacedDigit (isSpacedDigit_of_isDigit digit)
  have noMark : Heads (fun c => !(c == 'e' || c == 'E')) (suffix ++ rest) := heads (by decide) fun c is => by
    rcases (by simpa using is) with rfl | rfl <;> rfl
  have noMarker : Heads (fun c => !(['x', 'X', 'b', 'B'].contains c)) (suffix ++ rest) :=
    heads (by decide) fun c is => by
      have letters : ∀ x ∈ ['x', 'X', 'b', 'B'], isNamePart x := by decide
      exact letters c (by simpa using is)
  have integer : d.isReal = false → splitFraction (suffix ++ rest) = ([], suffix ++ rest) := fun isInteger => by
    by_cases none : suffix = []
    · rw [none]
      exact (stops none).integer isInteger
    · exact splitFraction_eq_nil (h.heads (by decide) (fun _ => by decide) fun is => absurd is none)
  have point : d.fraction = ['.'] → Heads (fun c => !endsFraction c) (suffix ++ rest) := fun lone => by
    -- a number with a fraction has no suffix of an integer
    have real : d.isReal := by simp [DecimalParts.isReal, lone]
    refine h.heads (by decide) (fun integer => by rw [real] at integer; cases integer) fun none c first => ?_
    have notPoint := (stops none).point lone c first
    have apart := isLetter_of_not_isNamePart (by simpa using (stops none).apart c first)
    simpa [endsFraction, apart] using notPoint
  have fraction := splitFraction_eq valid noDigit integer point
  have front : ∀ {p : Char → Bool}, (p 'e' = false ∧ p 'E' = false) → p '.' = false →
      Heads (fun c => !p c) (suffix ++ rest) →
      Heads (fun c => !p c) (d.fraction ++ (d.mark ++ (d.power ++ (suffix ++ rest)))) := by
    intro p mark notPoint behind
    rcases valid.fraction with none | ⟨places, some, -⟩
    · rw [none]
      exact valid.heads mark behind
    · rw [some, cons_append, heads_cons, notPoint]
      rfl
  obtain ⟨take, drop⟩ := takeWhile_append_stop valid.whole (front (by decide) (by decide) noDigit)
  have text : d.text ++ suffix ++ rest = d.whole ++ (d.fraction ++ (d.mark ++ (d.power ++ (suffix ++ rest)))) := by
    simp only [DecimalParts.text, append_assoc]
  have present : (!d.mark.isEmpty && d.power.isEmpty) = false := by
    rcases valid.exponent with ⟨noMark, -⟩ | ⟨-, some, -⟩
    · rw [noMark]
      rfl
    · simp [some]
  rw [text, scanNumber_eq valid.whole (front (by decide) (by decide) noDigit)
    (front (by decide) (by decide) noMarker), scanDecimal_eq take (by rw [drop]; exact fraction)
    (splitExponentMark_eq valid noMark) (splitPower_eq valid noPower), present]
  simp only [false_eq_true, if_false]
  exact congrArg Except.ok (finishNumber_eq h d.text fun none => (stops none).apart)

/-! ## Numbers with a marker -/

/-- Digits behind a marker: hexadecimal or binary ones, never the letter of a suffix. -/
structure IsRadixDigit (accept : Char → Bool) : Prop where
  parts : ∀ c, accept c = true → isNamePart c = true
  long : accept 'l' = false ∧ accept 'L' = false

theorem isRadixDigit_hex : IsRadixDigit isHexDigit := ⟨fun _ => isNamePart_of_isHexDigit, by decide⟩

theorem isRadixDigit_binary : IsRadixDigit (fun d => d == '0' || d == '1') := by
  refine ⟨fun c is => ?_, by decide⟩
  rcases (by simpa using is) with rfl | rfl <;> decide

theorem scanRadix_eq_ok {marker digits : List Char} {accept : Char → Bool}
    (radix : IsRadixDigit accept) (all : ∀ c ∈ digits, (accept c || c == '_'))
    (some : digits.all (· == '_') = false) (isSuffix : IsIntegerSuffix suffix kind)
    (stops : suffix = [] → Heads (fun c => !isNamePart c && c != '.') rest) :
    scanRadix marker accept (digits ++ suffix ++ rest) = .ok ⟨kind, marker ++ digits ++ suffix, rest⟩ := by
  have apart : suffix = [] → Heads (fun c => !isNamePart c) rest := fun none =>
    (stops none).mono fun c is => (and_eq_true _ _ ▸ is).1
  have ends : Heads (fun c => !(accept c || c == '_')) (suffix ++ rest) := by
    refine isSuffix.heads (by simp [radix.long]) fun none => Heads.apart (apart none) fun c is => ?_
    rcases (by simpa using is) with digit | rfl
    · exact radix.parts c digit
    · rfl
  have noPoint : Heads (fun c => !(c == '.' || c == 'p' || c == 'P')) (suffix ++ rest) := by
    refine isSuffix.heads (by decide) fun none => (stops none).mono fun c is => ?_
    rw [not_eq_true', or_eq_false_iff, or_eq_false_iff, beq_eq_false_iff_ne, beq_eq_false_iff_ne,
      beq_eq_false_iff_ne]
    refine ⟨⟨?_, ?_⟩, ?_⟩ <;> rintro rfl <;> cases is
  obtain ⟨take, drop⟩ := takeWhile_append_stop all ends
  have noFloat : (suffix ++ rest).head?.any (fun c => c == '.' || c == 'p' || c == 'P') = false := by
    cases tail : suffix ++ rest with
    | nil => rfl
    | cons c after =>
      rw [tail, heads_cons, not_eq_true'] at noPoint
      exact noPoint
  unfold scanRadix
  dsimp only
  rw [append_assoc, take, drop, some, noFloat]
  simp only [false_eq_true, if_false]
  exact congrArg Except.ok (integerSuffix_eq isSuffix (marker ++ digits) apart)

/-! ## Tokens of numbers -/

theorem scans_number {kind : TokenKind} (digit : c.isDigit)
    (found : scanNumber (c :: cs ++ rest) = .ok ⟨kind, c :: cs, rest⟩) (notEnd : kind ≠ .eof) :
    Scans kind (c :: cs) rest := by
  have range : 48 ≤ c.toNat ∧ c.toNat ≤ 57 := by
    have value : c.toNat = c.val.toNat := rfl
    simp only [Char.isDigit, and_eq_true, decide_eq_true_eq, UInt32.le_iff_toNat_le] at digit
    simp at digit
    omega
  refine ⟨cons_ne_nil _ _, ?_, ?_, notEnd⟩
  · refine scanGap?_eq_none ?_ ?_
    · rintro rfl
      cases digit
    · have notSpace : c ≠ ' ' := by
        rintro rfl
        cases digit
      simp [Text.isBlank, show c.toNat < 128 by omega, notSpace]
      omega
  · have notName : isNameStart c = false := by
      have others : ∀ x ∈ ['_', '$'], x.isDigit = false := by decide
      simp only [isNameStart, isLetter_of_isDigit digit, or_eq_false_iff, beq_eq_false_iff_ne]
      refine ⟨⟨trivial, ?_⟩, ?_⟩
      · rintro rfl
        simp [others] at digit
      · rintro rfl
        simp [others] at digit
    show scanToken (c :: (cs ++ rest)) = _
    rw [scanToken, notName, if_neg (by simp), digit, if_pos (by simp)]
    exact found

def Digits (cs : List Char) : Prop := cs ≠ [] ∧ ∀ c ∈ cs, c.isDigit = true

/-- Digits, and what belongs to them behind them, are a number. -/
theorem scans_decimal (valid : d.Valid) (digits : Digits d.whole) (h : IsSuffix d.isReal suffix kind)
    (stops : suffix = [] → d.Stops rest) : Scans kind (d.text ++ suffix) rest := by
  have scanned := scanNumber_decimal valid h stops
  obtain ⟨c, more, whole⟩ := exists_cons_of_ne_nil digits.1
  rw [DecimalParts.text, whole] at scanned ⊢
  exact scans_number (digits.2 c (by simp [whole])) scanned h.notEnd

theorem valid_of_digits (digits : Digits ds) : DecimalParts.Valid ⟨ds, [], [], []⟩ :=
  ⟨fun c mem => isSpacedDigit_of_isDigit (digits.2 c mem), .inl rfl, .inl ⟨rfl, rfl⟩⟩

theorem stops_of_endsInteger (ends : endsInteger rest) : DecimalParts.Stops ⟨ds, [], [], []⟩ rest := by
  unfold endsInteger at ends
  split at ends
  · refine ⟨by rw [heads_cons]; rfl, fun _ => ?_, nofun⟩
    rw [splitFraction, if_neg (by simpa using ends)]
  · rename_i notPoint
    refine ⟨.cons ends, fun _ => splitFraction_eq_nil ?_, nofun⟩
    rw [heads_cons, not_eq_true', beq_eq_false_iff_ne]
    exact notPoint
  · exact ⟨heads_nil _, fun _ => rfl, nofun⟩

theorem digits_digitsOf (n : Nat) : Digits (Number.digitsOf n) := ⟨digitsOf_ne_nil n, fun _ => mem_digitsOf⟩

theorem scans_digits (n : Nat) (isSuffix : IsIntegerSuffix suffix kind) (ends : suffix = [] → endsInteger rest) :
    Scans kind (Number.digitsOf n ++ suffix) rest := by
  have digits := digits_digitsOf n
  simpa [DecimalParts.text] using scans_decimal (valid_of_digits digits) digits (.integer isSuffix)
    fun none => stops_of_endsInteger (ends none)

/-- Hexadecimal digits behind their marker. -/
theorem scans_hexDigits (n : Nat) (isSuffix : IsIntegerSuffix suffix kind)
    (stops : suffix = [] → Heads (fun c => !isNamePart c && c != '.') rest) :
    Scans kind ('0' :: 'x' :: ((Literal.hexText n).toList ++ suffix)) rest := by
  have all : ∀ c ∈ (Literal.hexText n).toList, (isHexDigit c || c == '_') := fun c mem => by
    simp [(mem_hexText mem).1]
  have some : (Literal.hexText n).toList.all (· == '_') = false := by
    obtain ⟨c, cs, chars⟩ := exists_cons_of_ne_nil (hexText_ne_nil n)
    have first := (mem_hexText (c := c) (by rw [chars]; exact (.head _))).2
    simp [chars, first]
  refine scans_number (by decide) ?_ isSuffix.notEnd
  show scanNumber ('0' :: 'x' :: ((Literal.hexText n).toList ++ suffix ++ rest)) = _
  rw [scanNumber, if_pos (by decide)]
  exact scanRadix_eq_ok isRadixDigit_hex all some isSuffix stops

/-- A decimal text with a fraction, an exponent or both. -/
inductive DecimalText : List Char → Prop
  | fraction {whole places : List Char} : Digits whole → Digits places →
      DecimalText (whole ++ '.' :: places)
  | exponent {whole sign power : List Char} : Digits whole → sign = [] ∨ sign = ['-'] →
      Digits power → DecimalText (whole ++ 'e' :: (sign ++ power))
  | both {whole places sign power : List Char} : Digits whole → Digits places →
      sign = [] ∨ sign = ['-'] → Digits power →
      DecimalText (whole ++ '.' :: (places ++ 'e' :: (sign ++ power)))

theorem DecimalText.parts (text : DecimalText cs) : ∃ d : DecimalParts, d.text = cs ∧ d.Valid ∧
    Digits d.whole ∧ d.isReal ∧ d.fraction ≠ ['.'] := by
  have spaced : ∀ {ds : List Char}, Digits ds → ∀ c ∈ ds, isSpacedDigit c := fun digits c mem =>
    isSpacedDigit_of_isDigit (digits.2 c mem)
  have marks : ∀ {sign power : List Char}, sign = [] ∨ sign = ['-'] → Digits power →
      (∃ e, (e = 'e' ∨ e = 'E') ∧ ('e' :: sign = [e] ∨ 'e' :: sign = [e, '+'] ∨ 'e' :: sign = [e, '-'])) ∧
        power ≠ [] ∧ ∀ c ∈ power, c.isDigit := by
    rintro sign power (rfl | rfl) digits
    · exact ⟨⟨'e', .inl rfl, .inl rfl⟩, digits⟩
    · exact ⟨⟨'e', .inl rfl, .inr (.inr rfl)⟩, digits⟩
  cases text with
  | @fraction whole places wholeDigits digits =>
    exact ⟨⟨whole, '.' :: places, [], []⟩, by simp [DecimalParts.text],
      ⟨spaced wholeDigits, .inr ⟨places, rfl, spaced digits⟩, .inl ⟨rfl, rfl⟩⟩, wholeDigits, rfl,
      by simpa using digits.1⟩
  | @exponent whole sign power wholeDigits isSign digits =>
    exact ⟨⟨whole, [], 'e' :: sign, power⟩, by simp [DecimalParts.text],
      ⟨spaced wholeDigits, .inl rfl, .inr (marks isSign digits)⟩, wholeDigits, rfl, nofun⟩
  | @both whole places sign power wholeDigits digits isSign powerDigits =>
    exact ⟨⟨whole, '.' :: places, 'e' :: sign, power⟩, by simp [DecimalParts.text],
      ⟨spaced wholeDigits, .inr ⟨places, rfl, spaced digits⟩, .inr (marks isSign powerDigits)⟩, wholeDigits, rfl,
      by simpa using digits.1⟩

theorem DecimalText.starts (text : DecimalText cs) : ∃ c tail, cs = c :: tail ∧ c.isDigit := by
  obtain ⟨d, rfl, -, digits, -⟩ := text.parts
  obtain ⟨c, more, whole⟩ := exists_cons_of_ne_nil digits.1
  exact ⟨c, _, by rw [DecimalParts.text, whole]; rfl, digits.2 c (by simp [whole])⟩

theorem DecimalText.scans_float (text : DecimalText cs) (rest : List Char) :
    Scans .floatLiteral (cs ++ ['f']) rest := by
  obtain ⟨d, rfl, valid, digits, -⟩ := text.parts
  exact scans_decimal valid digits (.float (.inl rfl)) nofun

theorem DecimalText.scans_double (text : DecimalText cs)
    (stop : Heads (fun c => !isNamePart c) rest) : Scans .doubleLiteral cs rest := by
  obtain ⟨d, rfl, valid, digits, real, notPoint⟩ := text.parts
  have stops : d.Stops rest :=
    ⟨stop, fun integer => absurd real (by simp [integer]), fun lone => absurd lone notPoint⟩
  have plain : IsSuffix d.isReal [] .doubleLiteral := real ▸ .none
  simpa using scans_decimal valid digits plain fun _ => stops

end Lexer

/-! ## How finite numbers are written -/

namespace Number

theorem positional_shape (d : Decimal) : Lexer.Digits d.positional ∨
    ∃ whole places, d.positional = whole ++ '.' :: places ∧ Lexer.Digits whole ∧ Lexer.Digits places := by
  have digits := digits_digitsOf d.digits
  have zeros : ∀ n, ∀ c ∈ List.replicate n '0', c.isDigit := by simp
  unfold Decimal.positional
  dsimp only
  split
  · left
    split
    · exact digits
    · exact ⟨by simp [digits.1], forall_mem_append.mpr ⟨digits.2, zeros _⟩⟩
  · right
    rename_i negative
    split
    · rename_i inside
      refine ⟨_, _, rfl, ⟨?_, fun c mem => digits.2 c (mem_of_mem_take mem)⟩, ?_,
        fun c mem => digits.2 c (mem_of_mem_drop mem)⟩
      · rw [← length_pos_iff, length_take]
        omega
      · rw [← length_pos_iff, length_drop]
        omega
    · exact ⟨['0'], _, rfl, ⟨by simp, by simp⟩, by simp [digits.1], forall_mem_append.mpr ⟨zeros _, digits.2⟩⟩

theorem signedText_shape (n : Int) : ∃ sign power, Decimal.signedText n = sign ++ power ∧
    (sign = [] ∨ sign = ['-']) ∧ Lexer.Digits power := by
  unfold Decimal.signedText
  split
  · exact ⟨['-'], _, rfl, .inr rfl, digits_digitsOf _⟩
  · exact ⟨[], _, rfl, .inl rfl, digits_digitsOf _⟩

theorem scientific_shape (d : Decimal) : Lexer.DecimalText (d.scientific 'e') := by
  have digits := digits_digitsOf d.digits
  obtain ⟨sign, power, text, isSign, powerDigits⟩ := signedText_shape d.leading
  unfold Decimal.scientific
  split
  · rename_i none
    exact absurd none digits.1
  · rename_i first single
    rw [single] at digits
    rw [text]
    exact .exponent digits isSign powerDigits
  · rename_i first rest more several
    rw [several] at digits
    have firstDigits : Lexer.Digits [first] := ⟨by simp, by simp [digits.2 first]⟩
    have restDigits : Lexer.Digits rest :=
      ⟨fun none => more (by rw [none]), fun c mem => digits.2 c (.tail _ mem)⟩
    rw [text]
    exact .both firstDigits restDigits isSign powerDigits

/-- A number that is not negative is written with a fraction or an exponent. -/
theorem decimalText_literalDigits {f : Format} {bits : Nat} (positive : f.isNegative bits = false) :
    Lexer.DecimalText (f.literalDigits bits) := by
  unfold Format.literalDigits Format.signText
  rw [positive]
  dsimp only
  rw [if_neg (by simp), nil_append]
  split
  · unfold withFraction
    rcases positional_shape (f.shortest bits) with digits | ⟨whole, places, text, wholeDigits, placeDigits⟩
    · rw [if_neg]
      · exact .fraction digits ⟨by simp, by simp⟩
      · rw [contains_iff_mem]
        exact fun point => absurd (digits.2 '.' point) (by decide)
    · rw [text, if_pos (by simp)]
      exact .fraction wholeDigits placeDigits
  · exact scientific_shape _

end Number

end JavaEdit
