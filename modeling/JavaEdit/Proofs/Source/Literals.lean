import JavaEdit.Parser.Literals
import JavaEdit.Proofs.Layout.Words
import JavaEdit.Proofs.Source.Escapes

/-!
# Literals and their words

Writing a text with escapes and reading it back gives the text again (`unescape_escape`). The text
of a literal is one token (`LexesOn.literal`), and the value of that token is the literal.
-/

namespace JavaEdit

open Lexer List

variable {bits : Nat} {c quote : Char} {cs rest : List Char} {value : Literal}

/-! ## Characters and texts -/

namespace Lexer

/-- A character that neither ends the line or the literal nor starts an escape. -/
theorem splitQuoted_plain (notLine : c ≠ '\n') (notBackslash : c ≠ '\\') (notQuote : c ≠ quote) :
    splitQuoted quote (c :: cs) = (splitQuoted quote cs).map fun (body, rest) => (c :: body, rest) := by
  rw [splitQuoted.eq_def]
  split
  · simp_all
  · simp_all
  · rename_i same
    obtain ⟨rfl, rfl⟩ := List.cons.inj same
    rw [if_neg (by simp [notLine, notBackslash]), if_neg (by simpa using notQuote)]
    cases splitQuoted quote _ <;> rfl

theorem splitQuoted_escaped : splitQuoted quote ('\\' :: c :: cs) =
      (splitQuoted quote cs).map fun (body, rest) => ('\\' :: c :: body, rest) := by
  rw [splitQuoted]
  cases splitQuoted quote cs <;> rfl

end Lexer

theorem shortEscape?_of_escapeLetter? {letter : Char} (h : escapeLetter? c = some letter) :
    shortEscape? letter = some c := by
  have code : ∀ n, (c.toNat == n) → c = Char.ofNat n := by
    intro n same
    rw [← beq_iff_eq.mp same, Char.ofNat_toNat]
  unfold escapeLetter? at h
  repeat'
    split at h
    rename_i same
    first
      | rw [code _ same, ← Option.some.inj h]
        rfl
      | rw [beq_iff_eq.mp same, ← Option.some.inj h]
        rfl
  cases h

/-- How a character of a literal may be written: with an escape of one letter, by its code, or as
it is. -/
theorem escapeChar_cases (isQuote : quote = '"' ∨ quote = '\'') (c : Char) :
    (∃ letter, escapeChar quote c = ['\\', letter] ∧ shortEscape? letter = some c) ∨
    (c.toNat < 160 ∧ escapeChar quote c = '\\' :: 'u' :: fourDigits c.toNat) ∨
    (escapeChar quote c = [c] ∧ c ≠ '\n' ∧ c ≠ '\\' ∧ c ≠ quote) := by
  unfold escapeChar
  cases found : escapeLetter? c with
  | some letter => exact .inl ⟨letter, rfl, shortEscape?_of_escapeLetter? found⟩
  | none =>
    dsimp only
    split
    · rename_i same
      rw [beq_iff_eq] at same
      subst same
      refine .inl ⟨c, rfl, ?_⟩
      rcases isQuote with rfl | rfl <;> rfl
    · rename_i notQuote
      split
      · rename_i control
        refine .inr (.inl ⟨?_, rfl⟩)
        simp only [isControl, Bool.or_eq_true, Bool.and_eq_true, decide_eq_true_eq] at control
        omega
      · refine .inr (.inr ⟨rfl, ?_, ?_, by simpa using notQuote⟩)
        · rintro rfl
          cases found
        · rintro rfl
          cases found

theorem fourDigits_spec : ∀ code < 160, digitsValue? 16 (fourDigits code) = some code ∧
    ∀ x ∈ fourDigits code, x ≠ '\n' ∧ x ≠ '\\' ∧ x ≠ '"' ∧ x ≠ '\'' := by
  decide +kernel

namespace Lexer

theorem splitQuoted_escape (isQuote : quote = '"' ∨ quote = '\'') (cs rest : List Char) :
    splitQuoted quote (escape quote cs ++ quote :: rest) = some (escape quote cs ++ [quote], rest) := by
  induction cs with
  | nil =>
    rcases isQuote with rfl | rfl <;> rfl
  | cons c cs ih =>
    have unfolded : escape quote (c :: cs) = escapeChar quote c ++ escape quote cs := rfl
    rw [unfolded, append_assoc]
    rcases escapeChar_cases isQuote c with ⟨letter, chars, -⟩ | ⟨small, chars⟩ | ⟨chars, plain⟩
    · rw [chars]
      show splitQuoted quote ('\\' :: letter :: (escape quote cs ++ quote :: rest)) = _
      rw [splitQuoted_escaped, ih]
      rfl
    · obtain ⟨-, plain⟩ := fourDigits_spec c.toNat small
      have apart : ∀ x ∈ fourDigits c.toNat, x ≠ '\n' ∧ x ≠ '\\' ∧ x ≠ quote := by
        intro x mem
        obtain ⟨notLine, notBackslash, notDouble, notSingle⟩ := plain x mem
        refine ⟨notLine, notBackslash, ?_⟩
        rcases isQuote with rfl | rfl
        · exact notDouble
        · exact notSingle
      rw [chars]
      unfold fourDigits at apart ⊢
      simp only [map_cons, map_nil, mem_cons, not_mem_nil, or_false, forall_eq_or_imp, forall_eq] at apart ⊢
      obtain ⟨⟨l1, b1, q1⟩, ⟨l2, b2, q2⟩, ⟨l3, b3, q3⟩, l4, b4, q4⟩ := apart
      simp only [cons_append, nil_append]
      rw [splitQuoted_escaped, splitQuoted_plain l1 b1 q1, splitQuoted_plain l2 b2 q2,
        splitQuoted_plain l3 b3 q3, splitQuoted_plain l4 b4 q4, ih]
      rfl
    · obtain ⟨notLine, notBackslash, notQuote⟩ := plain
      rw [chars, singleton_append, splitQuoted_plain notLine notBackslash notQuote, ih]
      rfl

end Lexer

/-- What is written denotes the text it was written for. -/
theorem denotes_escape (isQuote : quote = '"' ∨ quote = '\'') (cs : List Char) :
    Denotes FourDigits (escape quote cs) cs := by
  induction cs with
  | nil => exact .nil
  | cons c cs ih =>
    show Denotes FourDigits (escapeChar quote c ++ escape quote cs) (c :: cs)
    rcases escapeChar_cases isQuote c with ⟨letter, chars, short⟩ | ⟨small, chars⟩ | ⟨chars, plain⟩
    · rw [chars]
      exact .escape (.named (shortEscape?_iff.mp short)) ih
    · rw [chars]
      exact .escape (.code 0 ⟨rfl, (fourDigits_spec _ small).1⟩) ih
    · rw [chars]
      exact .plain plain.2.1 ih

/-- Reading undoes writing. -/
theorem unescape_escape (isQuote : quote = '"' ∨ quote = '\'') (cs : List Char) : unescape (escape quote cs) = .ok cs :=
  (denotes_escape isQuote cs).read.unescapeWith_eq (Nat.le_refl _)

/-! ## Tokens of literals -/

/-- The text of a finite number has its value. -/
def Number.Format.ReadsBack (f : Format) (bits : Nat) : Prop := f.read? (f.literalDigits bits) = some bits

/-- What a floating point literal must satisfy to be written as one token with its value. All other
literals are written so that they can be read. -/
def Literal.IsWritten : Literal → Prop
  | .float bits =>
    let f := Number.Format.single
    f.isNegative bits.toNat = false ∧ f.isFinite bits.toNat = true ∧ f.ReadsBack bits.toNat
  | .double bits =>
    let f := Number.Format.double
    f.isNegative bits.toNat = false ∧ f.isFinite bits.toNat = true ∧ f.ReadsBack bits.toNat
  | _ => True

/-- Whether a literal is read up to its end, and no further, with these characters behind it. -/
def Literal.EndsBefore (value : Literal) (rest : List Char) : Prop :=
  match value with
  | .int v =>
    if v < 0 then Heads (fun c => !isNamePart c && c != '.') rest else endsInteger rest = true
  | .long _ | .char _ | .float _ => True
  | .double _ | .boolean _ | .null => Heads (fun c => !isNamePart c) rest
  | .string _ => Heads (fun c => c != '"') rest

theorem Number.Format.toList_literalText {f : Format} (finite : f.isFinite bits)
    (mark : String) : (f.literalText mark bits).toList = f.literalDigits bits ++ mark.toList := by
  simp only [isFinite, decide_eq_true_eq] at finite
  unfold literalText
  rw [if_neg (by simp [isNaN]; omega), if_neg (by simp [isInfinite]; omega), String.toList_append, String.toList_ofList]

namespace Lexer

theorem scans_char (cs rest : List Char) : Scans .charLiteral ('\'' :: (escape '\'' cs ++ ['\''])) rest := by
  have split := splitQuoted_escape (.inr rfl) cs rest
  refine ⟨cons_ne_nil _ _, rfl, ?_, by simp⟩
  show scanQuoted .charLiteral '\'' .unterminatedCharacter (escape '\'' cs ++ ['\''] ++ rest) = _
  rw [scanQuoted, append_assoc, singleton_append, split]

theorem scans_string (cs : List Char) (ends : Heads (fun c => c != '"') rest) :
    Scans .stringLiteral ('"' :: (escape '"' cs ++ ['"'])) rest := by
  have split := splitQuoted_escape (.inl rfl) cs rest
  -- two more quotes would open a text block
  have noBlock : (afterPrefix? ['"', '"'] (escape '"' cs ++ '"' :: rest)).isSome = false := by
    cases cs with
    | nil =>
      cases rest with
      | nil => rfl
      | cons c rest =>
        rw [heads_cons, bne_iff_ne] at ends
        simp [escape, afterPrefix?, Ne.symm ends]
    | cons c cs =>
      have first : ∃ x tail, escapeChar '"' c = x :: tail ∧ x ≠ '"' := by
        rcases escapeChar_cases (.inl rfl) c with ⟨_, chars, -⟩ | ⟨-, chars⟩ | ⟨chars, plain⟩
        · exact ⟨_, _, chars, by decide⟩
        · exact ⟨_, _, chars, by decide⟩
        · exact ⟨_, _, chars, plain.2.2⟩
      obtain ⟨x, tail, chars, notQuote⟩ := first
      simp [escape, chars, afterPrefix?, Ne.symm notQuote]
  refine ⟨cons_ne_nil _ _, rfl, ?_, by simp⟩
  show (if (afterPrefix? ['"', '"'] (escape '"' cs ++ ['"'] ++ rest)).isSome then _
    else scanQuoted .stringLiteral '"' .unterminatedString (escape '"' cs ++ ['"'] ++ rest)) = _
  rw [append_assoc, singleton_append, noBlock, if_neg (by simp), scanQuoted, split]

end Lexer

open Layout (literalWord)

theorem Literal.toList_text_int (v : Int32) : (Literal.int v).text.toList =
    if v < 0 then '0' :: 'x' :: (hexText v.toUInt32.toNat).toList
    else Number.digitsOf v.toInt.toNat := by
  rw [Literal.text]
  split
  · rw [String.toList_append]
    rfl
  · rw [String.toList_ofList]

theorem Literal.toList_text_long (v : Int64) : (Literal.long v).text.toList =
    if v < 0 then '0' :: 'x' :: ((hexText v.toUInt64.toNat).toList ++ ['L'])
    else Number.digitsOf v.toInt.toNat ++ ['L'] := by
  rw [Literal.text]
  split
  · rw [String.toList_append, String.toList_append]
    rfl
  · rw [String.toList_append, String.toList_ofList]
    rfl

theorem Literal.scans (written : value.IsWritten)
    (ends : value.EndsBefore rest) : Scans (literalWord value).kind value.text.toList rest := by
  cases value with
  | int v =>
    rw [toList_text_int]
    simp only [EndsBefore] at ends
    split at ends
    · rename_i negative
      rw [if_pos negative, ← append_nil (hexText _).toList]
      exact scans_hexDigits _ .none fun _ => ends
    · rename_i positive
      rw [if_neg positive, ← append_nil (Number.digitsOf _)]
      exact scans_digits _ .none fun _ => ends
  | long v =>
    rw [toList_text_long]
    split
    · exact scans_hexDigits _ (.long (.inr rfl)) nofun
    · exact scans_digits _ (.long (.inr rfl)) nofun
  | float bits =>
    obtain ⟨positive, finite, -⟩ := written
    rw [text, Number.Format.toList_literalText finite]
    exact (Number.decimalText_literalDigits positive).scans_float rest
  | double bits =>
    obtain ⟨positive, finite, -⟩ := written
    rw [text, Number.Format.toList_literalText finite, show "".toList = [] from rfl, append_nil]
    exact (Number.decimalText_literalDigits positive).scans_double ends
  | char c =>
    simp only [text, String.toList_append, String.toList_ofList]
    exact scans_char [c] rest
  | string s =>
    simp only [text, String.toList_append, String.toList_ofList]
    exact scans_string s.toList ends
  | boolean b =>
    cases b with
    | false => exact scans_name (n := "false") (by decide) ends
    | true => exact scans_name (n := "true") (by decide) ends
  | null => exact scans_name (n := "null") (by decide) ends

theorem Lexer.LexesOn.literal {base : List Char → List Token → Prop}
    {ws : List Token} (h : LexesOn base rest ws) (written : value.IsWritten) (ends : value.EndsBefore rest) :
    LexesOn base (value.text.toList ++ rest) (literalWord value :: ws) := by
  have token := LexesOn.token (Literal.scans written ends) h
  rw [String.ofList_toList] at token
  have same : literalWord value = word (literalWord value).kind value.text := by
    cases value <;> rfl
  rwa [same]

/-! ## Values of literal tokens -/

namespace Parser

variable {n : Nat} {text : String}

theorem withoutUnderscores_eq (none : ∀ c ∈ cs, c ≠ '_') : withoutUnderscores cs = cs :=
  filter_eq_self.mpr fun c mem => by simpa using none c mem

theorem withoutUnderscores_digitsOf (n : Nat) : withoutUnderscores (Number.digitsOf n) = Number.digitsOf n :=
  withoutUnderscores_eq fun c mem same => by
    subst same
    exact absurd (mem_digitsOf mem) (by decide)

theorem withoutUnderscores_hex (n : Nat) : withoutUnderscores ('0' :: 'x' :: (Literal.hexText n).toList) =
      '0' :: 'x' :: (Literal.hexText n).toList :=
  withoutUnderscores_eq (forall_mem_cons.mpr ⟨by decide, forall_mem_cons.mpr ⟨by decide, fun _ mem => (mem_hexText mem).2⟩⟩)

theorem unsignedValue?_eq {base : Nat} (digits : ∀ c ∈ cs, c ≠ '+') :
    unsignedValue? base cs = digitsValue? base cs := by
  unfold unsignedValue?
  split
  · exact absurd rfl (digits '+' (by simp))
  · rfl

theorem integerValue_digits (chars : text.toList = Number.digitsOf n)
    (small : n < Number.twoPow (bits - 1)) (narrow : bits ≤ 64) : integerValue text bits = .ok n := by
  have radix : splitRadix (Number.digitsOf n) = (10, Number.digitsOf n, true) := by
    rcases digitsOf_cases n with zero | ⟨c, cs, digits, notZero⟩
    · rw [zero]
      rfl
    · rw [digits]
      unfold splitRadix
      split <;> simp_all
  have value : unsignedValue? 10 (Number.digitsOf n) = some n := by
    rw [unsignedValue?_eq, digitsValue?_digitsOf]
    rintro c mem rfl
    exact absurd (mem_digitsOf mem) (by decide)
  have wide : n < Number.twoPow 64 :=
    Nat.lt_of_lt_of_le small (Nat.pow_le_pow_right (by decide) (by omega))
  unfold integerValue
  rw [chars, withoutUnderscores_digitsOf, radix]
  dsimp only
  rw [value, Option.filter_some, if_pos (by simpa using wide)]
  dsimp only
  rw [if_pos rfl, if_pos small]

theorem integerValue_hex (chars : text.toList = '0' :: 'x' :: (Literal.hexText n).toList)
    (small : n < Number.twoPow bits) (narrow : bits ≤ 64) : integerValue text bits = .ok n := by
  have value : unsignedValue? 16 (Literal.hexText n).toList = some n := by
    rw [unsignedValue?_eq, digitsValue?_hexText]
    rintro c mem rfl
    exact absurd (mem_hexText mem).1 (by decide)
  have wide : n < Number.twoPow 64 :=
    Nat.lt_of_lt_of_le small (Nat.pow_le_pow_right (by decide) narrow)
  unfold integerValue
  rw [chars, withoutUnderscores_hex, splitRadix]
  dsimp only
  rw [value, Option.filter_some, if_pos (by simpa using wide)]
  exact if_pos small

theorem literalValue?_int (v : Int32) : literalValue? (literalWord (.int v)) = some (.ok (.int v)) := by
  have chars := Literal.toList_text_int v
  show some (do return Literal.int (← integerValue (Literal.int v).text 32).toUInt32.toInt32) = _
  split at chars
  · rw [integerValue_hex chars v.toUInt32.toNat_lt (by decide)]
    simp [bind, Except.bind]
    rfl
  · rename_i positive
    rw [Int32.lt_iff_toInt_lt] at positive
    have low : 0 ≤ v.toInt := by simpa using positive
    have high := v.toInt_lt
    have small : v.toInt.toNat < Number.twoPow (32 - 1) := by
      show _ < 2147483648
      omega
    have same : v.toInt.toNat.toUInt32.toInt32 = v := by
      apply Int32.toInt_inj.mp
      rw [show v.toInt.toNat.toUInt32.toInt32 = Int32.ofNat v.toInt.toNat by simp, Int32.toInt_ofNat_of_lt (by omega)]
      omega
    rw [integerValue_digits chars small (by decide)]
    show some (Except.ok (Literal.int v.toInt.toNat.toUInt32.toInt32)) = _
    rw [same]

theorem literalValue?_long (v : Int64) : literalValue? (literalWord (.long v)) = some (.ok (.long v)) := by
  have chars := Literal.toList_text_long v
  show some (do
    return Literal.long (← integerValue (String.ofList (Literal.long v).text.toList.dropLast) 64).toUInt64.toInt64) = _
  split at chars
  · rw [chars, ← cons_append, ← cons_append, dropLast_concat,
      integerValue_hex (String.toList_ofList) v.toUInt64.toNat_lt (by decide)]
    simp [bind, Except.bind]
    rfl
  · rename_i positive
    rw [Int64.lt_iff_toInt_lt] at positive
    have low : 0 ≤ v.toInt := by simpa using positive
    have high := v.toInt_lt
    have small : v.toInt.toNat < Number.twoPow (64 - 1) := by
      show _ < 9223372036854775808
      omega
    have same : v.toInt.toNat.toUInt64.toInt64 = v := by
      apply Int64.toInt_inj.mp
      rw [show v.toInt.toNat.toUInt64.toInt64 = Int64.ofNat v.toInt.toNat by simp, Int64.toInt_ofNat_of_lt (by omega)]
      omega
    rw [chars, dropLast_concat, integerValue_digits String.toList_ofList small (by decide)]
    show some (Except.ok (Literal.long v.toInt.toNat.toUInt64.toInt64)) = _
    rw [same]

theorem dropRight_concat {p : Char → Bool} (keep : p c = false) : dropRight p (cs ++ [c]) = cs ++ [c] := by
  simp [dropRight, keep]

theorem dropRight_suffix {p : Char → Bool} (drop : p c) : dropRight p (cs ++ [c]) = dropRight p cs := by
  simp [dropRight, drop]

theorem withoutUnderscores_decimalText (text : DecimalText cs) : withoutUnderscores cs = cs := by
  refine withoutUnderscores_eq ?_
  rintro c mem rfl
  cases text with
  | fraction whole places | exponent whole isSign power | both whole places isSign power => grind [Digits]

theorem decimalText_ends (text : DecimalText cs) : ∃ front c, cs = front ++ [c] ∧ c.isDigit := by
  obtain ⟨front, ds, rfl, digits⟩ : ∃ front ds, cs = front ++ ds ∧ Digits ds := by
    cases text with
    | @fraction whole places _ digits => exact ⟨whole ++ ['.'], places, by simp, digits⟩
    | @exponent whole sign power _ _ digits => exact ⟨whole ++ 'e' :: sign, power, by simp, digits⟩
    | @both whole places sign power _ _ _ digits =>
      exact ⟨whole ++ '.' :: places ++ 'e' :: sign, power, by simp, digits⟩
  rcases eq_nil_or_concat ds with rfl | ⟨front', c, rfl⟩
  · exact absurd rfl digits.1
  · exact ⟨front ++ front', c, by simp, digits.2 c (by simp)⟩

theorem floatingValue?_literalText {f : Number.Format} {isSuffix : Char → Bool} {mark : String}
    (positive : f.isNegative bits = false) (finite : f.isFinite bits) (back : f.ReadsBack bits)
    (marked : mark.toList = [] ∨ ∃ c, mark.toList = [c] ∧ isSuffix c) (noDigit : ∀ c, c.isDigit → isSuffix c = false) :
    floatingValue? f isSuffix (f.literalText mark bits) = some bits := by
  have decimal := Number.decimalText_literalDigits positive
  have stripped : dropRight isSuffix (f.literalText mark bits).toList = f.literalDigits bits := by
    obtain ⟨front, c, ends, digit⟩ := decimalText_ends decimal
    have kept : dropRight isSuffix (f.literalDigits bits) = f.literalDigits bits := by
      rw [ends]
      exact dropRight_concat (noDigit c digit)
    rw [Number.Format.toList_literalText finite]
    rcases marked with none | ⟨c, single, suffix⟩
    · rw [none, append_nil, kept]
    · rw [single, dropRight_suffix suffix, kept]
  rw [floatingValue?, stripped, withoutUnderscores_decimalText decimal, back, Option.filter_some, if_pos finite]

theorem noDigit_of_letters (a b : Char) (notA : a.isDigit = false) (notB : b.isDigit = false)
    (c : Char) (digit : c.isDigit) : (c == a || c == b) = false := by
  simp only [Bool.or_eq_false_iff, beq_eq_false_iff_ne]
  constructor
  · rintro rfl
    simp [notA] at digit
  · rintro rfl
    simp [notB] at digit

theorem quotedValue_escape (isQuote : quote = '"' ∨ quote = '\'')
    (chars : text.toList = quote :: (escape quote cs ++ [quote])) : quotedValue text = .ok cs := by
  rw [quotedValue, unquoted, chars, tail_cons, dropLast_concat, unescape_escape isQuote]

theorem literalValue?_literalWord (written : value.IsWritten) :
    literalValue? (literalWord value) = some (.ok value) := by
  cases value with
  | int v => exact literalValue?_int v
  | long v => exact literalValue?_long v
  | float bits =>
    obtain ⟨positive, finite, back⟩ := written
    have value : floatingValue? .single (fun c => c == 'f' || c == 'F') (Literal.float bits).text = some bits.toNat :=
      floatingValue?_literalText positive finite back (.inr ⟨'f', rfl, rfl⟩)
        (noDigit_of_letters 'f' 'F' (by decide) (by decide))
    simp [literalValue?, literalWord, word, value]
  | double bits =>
    obtain ⟨positive, finite, back⟩ := written
    have value : floatingValue? .double (fun c => c == 'd' || c == 'D') (Literal.double bits).text = some bits.toNat :=
      floatingValue?_literalText positive finite back (.inl rfl) (noDigit_of_letters 'd' 'D' (by decide) (by decide))
    simp [literalValue?, literalWord, word, value]
  | char c =>
    have chars : (Literal.char c).text.toList = '\'' :: (escape '\'' [c] ++ ['\'']) := by
      simp only [Literal.text, String.toList_append, String.toList_ofList]
      rfl
    show some (quotedValue (Literal.char c).text >>= _) = _
    rw [quotedValue_escape (.inr rfl) chars]
    rfl
  | string s =>
    have chars : (Literal.string s).text.toList = '"' :: (escape '"' s.toList ++ ['"']) := by
      simp only [Literal.text, String.toList_append, String.toList_ofList]
      rfl
    show some (quotedValue (Literal.string s).text >>= _) = _
    rw [quotedValue_escape (.inl rfl) chars]
    show some (Except.ok (Literal.string (String.ofList s.toList))) = _
    rw [String.ofList_toList]
  | boolean b => cases b <;> rfl
  | null => rfl

theorem digitsOf_ne {m : Nat} {ds : List Char} (value : digitsValue? 10 ds = some m)
    (small : n < m) : Number.digitsOf n ≠ ds := by
  rintro rfl
  rw [digitsValue?_digitsOf] at value
  exact absurd (Option.some.inj value) (Nat.ne_of_lt small)

/-- No literal is written with the digits that are read only behind a minus sign. -/
theorem leastValue?_literalWord (value : Literal) : leastValue? (literalWord value) = none := by
  cases value with
  | int v =>
    have other : String.ofList (withoutUnderscores (Literal.int v).text.toList) ≠ "2147483648" := by
      rw [Literal.toList_text_int]
      intro same
      have chars := congrArg String.toList same
      rw [String.toList_ofList] at chars
      split at chars
      · rw [withoutUnderscores_hex] at chars
        exact absurd (List.cons.inj chars).1 (by decide)
      · rw [withoutUnderscores_digitsOf] at chars
        have := v.toInt_lt
        exact digitsOf_ne (m := 2147483648) (by decide) (by omega) chars
    simp [leastValue?, literalWord, word, other]
  | long v =>
    have other : ∀ c, String.ofList (withoutUnderscores (Literal.long v).text.toList) ≠
        String.ofList ("9223372036854775808".toList ++ [c]) := by
      intro c same
      have chars := congrArg String.toList same
      rw [String.toList_ofList, String.toList_ofList, Literal.toList_text_long] at chars
      split at chars
      · simp [withoutUnderscores] at chars
      · have front := withoutUnderscores_digitsOf v.toInt.toNat
        simp only [withoutUnderscores, filter_append] at chars front
        rw [front] at chars
        have := v.toInt_lt
        exact digitsOf_ne (m := 9223372036854775808) (by decide) (by omega) (append_inj_left' chars rfl)
    have upper := other 'L'
    have lower := other 'l'
    rw [show String.ofList ("9223372036854775808".toList ++ ['L']) = "9223372036854775808L" from rfl] at upper
    rw [show String.ofList ("9223372036854775808".toList ++ ['l']) = "9223372036854775808l" from rfl] at lower
    simp [leastValue?, literalWord, word, upper, lower]
  | boolean b => rfl
  | _ => rfl

end Parser

end JavaEdit
