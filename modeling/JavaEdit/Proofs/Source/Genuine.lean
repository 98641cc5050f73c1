import JavaEdit.Proofs.Layout.Forms
import JavaEdit.Proofs.Source.Tiling

/-!
# What tokens and comments can be

Tokens that come from a text are not arbitrary: identifiers are names and not reserved, numbers
have no sign in front, and comments do not hold what would have ended them. `genuine_of_tokenize`
says this of all tokens of a text; values of literals that are read from such tokens are finite and
not negative (`denoted_of_literalValue?`).
-/

namespace JavaEdit

open Lexer List

variable {bits : Nat} {cs : List Char}

/-- Comments that can be read: nothing in their text ends them early or makes them another kind. -/
def Comment.IsWritten (c : Comment) : Prop :=
  match c.kind with
  | .line => '\n' ∉ c.text.toList ∧ c.text.toList.getLast? ≠ some '\r'
  | .block => closesComment c.text.toList = false ∧ c.text.toList.head? ≠ some '*'
  | .javadoc => closesComment c.text.toList = false ∧ c.text.toList.head? ≠ some '/'

/-- What the lexer makes sure of. -/
structure Token.Genuine (t : Token) : Prop where
  identifier : t.kind = .identifier → isIdentifier t.text = true
  number : t.kind = .floatLiteral ∨ t.kind = .doubleLiteral →
    Heads (fun c => c.isDigit || c == '.') t.text.toList
  comments : ∀ c ∈ t.comments, c.IsWritten

theorem Heads.of_append {p : Char → Bool} {text rest : List Char} (h : Heads p (text ++ rest)) : Heads p text := by
  cases text with
  | nil => exact heads_nil p
  | cons => exact h

namespace Lexer

variable {piece : Piece}

theorem Separates.written {rest gap : List Char} {comments : List Comment} (h : Separates rest gap comments) :
    ∀ c ∈ comments, c.IsWritten := by
  have unclosed : ∀ {text : List Char}, ¬ ['*', '/'] <:+: text → closesComment text = false := fun inside =>
    Bool.not_eq_true _ ▸ fun closes => inside (closesComment_iff.mp closes)
  induction h with
  | none => exact nofun
  | blank _ _ ih => exact ih
  | line noEnd last _ _ _ ih =>
    refine forall_mem_cons.mpr ⟨?_, ih⟩
    simpa [Comment.IsWritten] using ⟨noEnd, last⟩
  | block inside notDoc _ ih =>
    refine forall_mem_cons.mpr ⟨?_, ih⟩
    simpa [Comment.IsWritten] using ⟨unclosed inside, notDoc⟩
  | javadoc inside notEmpty _ ih =>
    refine forall_mem_cons.mpr ⟨?_, ih⟩
    simpa [Comment.IsWritten] using ⟨unclosed inside, notEmpty⟩

theorem isIdentifier_scanName {c : Char} (start : isNameStart c)
    (notKeyword : (scanName (c :: cs)).kind = .identifier) :
    isIdentifier (String.ofList (scanName (c :: cs)).text) := by
  unfold scanName at notKeyword ⊢
  dsimp only at notKeyword ⊢
  split at notKeyword
  · cases notKeyword
  · rename_i other
    rw [takeWhile_cons_of_pos (isNamePart_of_isNameStart start)] at other ⊢
    simp only [isIdentifier, isName, String.toList_ofList, start, Bool.true_and, Bool.and_eq_true, Bool.not_eq_true']
    exact ⟨all_takeWhile, by simpa using other⟩

theorem genuine_other {kind : TokenKind} {text : String} (other : kind ∉ [.identifier, .floatLiteral, .doubleLiteral]) :
    (word kind text).Genuine := by
  refine ⟨fun isName => absurd ?_ other, fun isReal => absurd ?_ other, forall_mem_nil _⟩
  · simp [show kind = _ from isName]
  · rcases isReal with same | same <;> simp [show kind = _ from same]

theorem Scans.genuine {kind : TokenKind} {text rest : List Char} (h : Scans kind text rest) :
    (word kind (String.ofList text)).Genuine := by
  obtain ⟨c, more, rfl⟩ := exists_cons_of_ne_nil h.nonempty
  cases found_of_scanToken h.found with
  | name start same =>
    refine ⟨fun isName => ?_, fun isReal => ?_, forall_mem_nil _⟩
    · have kept := isIdentifier_scanName start (congrArg Piece.kind same |>.trans isName)
      rwa [same] at kept
    · have isWord := congrArg Piece.kind same
      unfold scanName at isWord
      dsimp only at isWord
      split at isWord <;> cases isWord <;> simp [word] at isReal
  | number _ start found =>
    refine ⟨fun isName => ?_, fun _ => ?_, forall_mem_nil _⟩
    · cases (show kind = .identifier from isName)
      have isNumber : TokenKind.identifier ∈ _ := (cuts_scanNumber found).numeral.kind
      exact absurd isNumber (by decide)
    · rw [word, String.toList_ofList, heads_cons]
      simp only [startsNumber, Bool.or_eq_true, Bool.and_eq_true] at start ⊢
      exact start.imp_right And.left
  | string _ _ found =>
    obtain ⟨-, isString, -⟩ := body_of_scanQuoted found
    cases (show kind = _ from isString)
    exact genuine_other (by decide)
  | character _ found =>
    obtain ⟨-, isCharacter, -⟩ := body_of_scanQuoted found
    cases (show kind = _ from isCharacter)
    exact genuine_other (by decide)
  | operator found =>
    obtain ⟨-, -, isOperator, -⟩ := operator_of_scanOperator found
    cases (show kind = _ from isOperator)
    exact genuine_other (by decide)

theorem Lexes.genuine {ws : List Token} (h : Lexes cs ws) : ∀ w ∈ ws, w.Genuine := by
  induction h with
  | base finished =>
    cases finished
    exact forall_mem_singleton.mpr ⟨nofun, by simp [word], nofun⟩
  | blank _ _ ih => exact ih
  | comment _ gap _ ih =>
    obtain ⟨first, others⟩ := forall_mem_cons.mp ih
    have written := (separates_of_scanGap? gap).2.2.2.written
    refine forall_mem_cons.mpr ⟨⟨first.identifier, first.number, fun c mem => ?_⟩, others⟩
    rcases mem_append.mp mem with new | old
    · exact written c new
    · exact first.comments c old
  | token scans _ ih => exact forall_mem_cons.mpr ⟨scans.genuine, ih⟩

end Lexer

theorem genuine_of_tokenize {file text : String} {ts : List Token}
    (h : tokenize file text = .ok ts) : ∀ t ∈ ts, t.Genuine := fun t mem => by
  obtain ⟨identifier, number, comments⟩ := (lexes_of_tokenize h).genuine t.plain (mem_map_of_mem mem)
  exact ⟨identifier, number, comments⟩

/-! ## Values of literals -/

/-- Patterns that a text without sign can denote: finite and not negative. -/
def Number.Format.IsDenoted (f : Format) (bits : Nat) : Prop := f.isNegative bits = false ∧ f.isFinite bits = true

/-- Literals that a text can denote. -/
def Literal.IsDenoted : Literal → Prop
  | .float bits => Number.Format.single.IsDenoted bits.toNat
  | .double bits => Number.Format.double.IsDenoted bits.toNat
  | _ => True

namespace Number.Format

/-- Formats with room for numbers below infinity, and for values above it that are no numbers. -/
structure Roomy (f : Format) : Prop where
  fraction : twoPow f.fractionBits ≤ f.infinity
  quiet : f.quietNaN < f.signBit

variable {f : Format}

theorem pack_le (roomy : f.Roomy) (quotient : Nat) (k : Int) : f.pack quotient k ≤ f.infinity := by
  unfold pack
  split
  · exact Nat.le_trans (Nat.le_of_lt ‹_›) roomy.fraction
  · exact Nat.min_le_left ..

theorem ofDecimal_le (roomy : f.Roomy) (digits : Nat) (power : Int) : f.ofDecimal digits power ≤ f.infinity := by
  have near : ∀ num den, f.nearest num den ≤ f.infinity := by
    intro num den
    unfold nearest
    split
    · exact Nat.zero_le _
    · exact pack_le roomy _ _
  unfold ofDecimal
  dsimp only
  split
  · exact Nat.zero_le _
  · split
    · exact Nat.le_refl _
    · split
      · exact Nat.zero_le _
      · split <;> exact near _ _

theorem readMagnitude?_lt (roomy : f.Roomy) (h : f.readMagnitude? cs = some bits) : bits < f.signBit := by
  have small : f.infinity < f.signBit := Nat.lt_of_le_of_lt (Nat.le_add_right _ _) roomy.quiet
  unfold readMagnitude? at h
  dsimp only at h
  split at h
  · cases h
    exact small
  · split at h
    · cases h
      exact roomy.quiet
    · simp only [Option.bind_eq_bind, Option.bind_eq_some_iff, Prod.exists] at h
      obtain ⟨digits, power, -, same⟩ := h
      cases same
      exact Nat.lt_of_le_of_lt (ofDecimal_le roomy digits power) small

end Number.Format

namespace Parser

variable {isSuffix : Char → Bool}

theorem heads_withoutUnderscores (h : Heads (fun c => c.isDigit || c == '.') cs) :
    Heads (fun c => c != '-') (withoutUnderscores (dropRight isSuffix cs)) := by
  have front : Heads (fun c => c.isDigit || c == '.') (dropRight isSuffix cs) := by
    obtain ⟨behind, whole⟩ := reverse_prefix.mpr (dropWhile_suffix (l := cs.reverse) isSuffix)
    rw [reverse_reverse] at whole
    rw [← whole] at h
    exact Heads.of_append h
  cases found : dropRight isSuffix cs with
  | nil => exact heads_nil _
  | cons c rest =>
    rw [found, heads_cons] at front
    have keep : (c != '_') := by
      rw [bne_iff_ne]
      rintro rfl
      cases front
    rw [withoutUnderscores, filter_cons_of_pos (p := (· != '_')) keep, heads_cons, bne_iff_ne]
    rintro rfl
    cases front

/-- A floating point literal without a sign in front is not negative. -/
theorem denoted_of_floatingValue? {f : Number.Format} (roomy : f.Roomy)
    {text : String} (unsigned : Heads (fun c => c.isDigit || c == '.') text.toList)
    (h : floatingValue? f isSuffix text = some bits) : f.IsDenoted bits := by
  have positive : ∀ {bits}, bits < f.signBit → f.isNegative bits = false := fun small => by
    simpa [Number.Format.isNegative] using small
  unfold floatingValue? at h
  rw [Option.filter_eq_some_iff] at h
  refine ⟨?_, h.2⟩
  have heads := @heads_withoutUnderscores _ isSuffix unsigned
  obtain ⟨found, -⟩ := h
  unfold Number.Format.read? at found
  split at found
  · rename_i minus
    rw [minus] at heads
    exact absurd heads (by simp)
  · exact positive (f.readMagnitude?_lt roomy found)
  · exact positive (f.readMagnitude?_lt roomy found)

theorem toNat_mod_of_denoted {f : Number.Format} (h : f.IsDenoted bits) {width : Nat}
    (wide : f.signBit ≤ width) : bits % width = bits := by
  have small : bits < f.signBit := by simpa [Number.Format.isNegative] using h.1
  exact Nat.mod_eq_of_lt (Nat.lt_of_lt_of_le small wide)

theorem roomy_single : Number.Format.single.Roomy := ⟨by decide, by decide⟩

theorem roomy_double : Number.Format.double.Roomy := ⟨by decide, by decide⟩

theorem denoted_of_literalValue? {token : Token} (genuine : token.Genuine) {value : Literal}
    (h : literalValue? token = some (.ok value)) : value.IsDenoted := by
  unfold literalValue? at h
  split at h
  · cases found : integerValue token.text 32 with
    | error => rw [found] at h; cases h
    | ok n => rw [found] at h; cases h; trivial
  · dsimp only at h
    cases found : integerValue (String.ofList token.text.toList.dropLast) 64 with
    | error => rw [found] at h; cases h
    | ok n => rw [found] at h; cases h; trivial
  · rename_i isFloat
    split at h
    · rename_i bits found
      cases h
      have denoted := denoted_of_floatingValue? roomy_single (genuine.number (.inl isFloat)) found
      show Number.Format.single.IsDenoted (bits % 2 ^ 32)
      rwa [toNat_mod_of_denoted denoted (by decide)]
    · cases h
  · rename_i isDouble
    split at h
    · rename_i bits found
      cases h
      have denoted := denoted_of_floatingValue? roomy_double (genuine.number (.inr isDouble)) found
      show Number.Format.double.IsDenoted (bits % 2 ^ 64)
      rwa [toNat_mod_of_denoted denoted (by decide)]
    · cases h
  · cases found : quotedValue token.text with
    | error => rw [found] at h; cases h
    | ok cs =>
      rw [found] at h
      rcases cs with _ | ⟨c, _ | _⟩
      · cases h
      · cases h; trivial
      · cases h
  · cases found : quotedValue token.text with
    | error => rw [found] at h; cases h
    | ok cs => rw [found] at h; cases h; trivial
  · split at h
    · cases h; trivial
    · split at h
      · cases h; trivial
      · split at h
        · cases h; trivial
        · cases h
  · cases h

theorem denoted_of_leastValue? {token : Token} {value : Literal}
    (h : leastValue? token = some value) : value.IsDenoted := by
  unfold leastValue? at h
  dsimp only at h
  split at h
  · split at h
    · cases h; trivial
    · cases h
  · split at h
    · cases h; trivial
    · cases h
  · cases h

end Parser

end JavaEdit
