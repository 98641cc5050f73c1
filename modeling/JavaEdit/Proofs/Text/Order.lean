import JavaEdit.Machine.Builtin
import Mathlib.Algebra.Group.Int.Defs
import Mathlib.Algebra.Group.Nat.Defs
import Mathlib.Tactic.SplitIfs

/-!
# The order of texts

Texts are compared by their sixteen bit units. Two texts with the same units are the same text, because a single
unit is never a half of a pair, so the comparison is a total order on texts: the lexicographic one of the units, which is
not the order of the characters.
-/

namespace JavaEdit.Text

/-! ## Units tell texts apart -/

theorem lt_of_mem_charUnits {c : Char} {unit : Nat} (held : unit ∈ charUnits c) : unit < 65536 := by
  have valid := c.valid
  simp only [charUnits] at held
  split at held
  · simp only [List.mem_singleton] at held
    omega
  · simp only [List.mem_cons, List.not_mem_nil, or_false] at held
    have bound : c.toNat < 0x110000 := by
      simp only [UInt32.isValidChar, Nat.isValidChar] at valid
      simp only [Char.toNat]
      omega
    omega

theorem lt_of_mem_units {s : String} {unit : Nat} (held : unit ∈ units s) : unit < 65536 := by
  obtain ⟨c, -, here⟩ := List.mem_flatMap.mp held
  exact lt_of_mem_charUnits here

/-- The units of a character say where they end: a unit that stands alone is no half of a pair. -/
theorem charUnits_append_inj {c d : Char} {xs ys : List Nat} (same : charUnits c ++ xs = charUnits d ++ ys) :
    c = d ∧ xs = ys := by
  have alone : ∀ e : Char, e.toNat < 0xD800 ∨ 0xDFFF < e.toNat := fun e => by
    have valid := e.valid
    simp only [UInt32.isValidChar, Nat.isValidChar] at valid
    simp only [Char.toNat]
    omega
  have bounded : ∀ e : Char, e.toNat < 0x110000 := fun e => by
    have valid := e.valid
    simp only [UInt32.isValidChar, Nat.isValidChar] at valid
    simp only [Char.toNat]
    omega
  have hc := alone c
  have hd := alone d
  have bc := bounded c
  have bd := bounded d
  simp only [charUnits] at same
  split at same <;> split at same <;>
    simp only [List.cons_append, List.nil_append, List.cons.injEq] at same
  · exact ⟨Char.toNat_inj.mp same.1, same.2⟩
  · omega
  · omega
  · exact ⟨Char.toNat_inj.mp (by omega), same.2.2⟩

theorem charUnits_ne_nil (c : Char) : charUnits c ≠ [] := by
  simp only [charUnits]
  split <;> simp

theorem units_injective {a b : String} (same : units a = units b) : a = b := by
  have chars : ∀ cs ds : List Char, cs.flatMap charUnits = ds.flatMap charUnits → cs = ds := by
    intro cs
    induction cs with
    | nil =>
      rintro (_ | ⟨d, ds⟩) same
      · rfl
      · simp [charUnits_ne_nil] at same
    | cons c cs ih =>
      rintro (_ | ⟨d, ds⟩) same
      · simp [charUnits_ne_nil] at same
      · obtain ⟨rfl, rest⟩ := charUnits_append_inj same
        rw [ih ds rest]
  exact String.toList_inj.mp (chars _ _ same)

/-! ## Comparing rows of units -/

@[simp] theorem compareUnits_nil_left (ys : List Nat) : compareUnits [] ys = -(ys.length : Int) := by
  cases ys <;> simp [compareUnits]

@[simp] theorem compareUnits_nil_right (xs : List Nat) : compareUnits xs [] = xs.length := by
  cases xs <;> simp [compareUnits]

@[simp] theorem compareUnits_cons (x y : Nat) (xs ys : List Nat) :
    compareUnits (x :: xs) (y :: ys) = if x = y then compareUnits xs ys else (x : Int) - y := by
  simp [compareUnits]

theorem compareUnits_shared (shared xs ys : List Nat) :
    compareUnits (shared ++ xs) (shared ++ ys) = compareUnits xs ys := by
  induction shared with
  | nil => rfl
  | cons x shared ih => simpa using ih

theorem compareUnits_swap (xs ys : List Nat) : compareUnits ys xs = -compareUnits xs ys := by
  induction xs generalizing ys with
  | nil => simp
  | cons x xs ih =>
    cases ys with
    | nil => simp
    | cons y ys =>
      by_cases same : x = y
      · simp [same, ih]
      · simp only [compareUnits_cons, same, Ne.symm same, if_false]; omega

theorem compareUnits_neg_iff (xs ys : List Nat) : compareUnits xs ys < 0 ↔ List.Lex (· < ·) xs ys := by
  induction xs generalizing ys with
  | nil =>
    cases ys with
    | nil => simp
    | cons y ys =>
      refine iff_of_true ?_ .nil
      simp only [compareUnits_nil_left, List.length_cons]
      omega
  | cons x xs ih =>
    cases ys with
    | nil =>
      simp only [compareUnits_nil_right, List.length_cons, List.not_lex_nil, iff_false]
      omega
    | cons y ys =>
      rw [compareUnits_cons, List.cons_lex_cons_iff]
      split
      · next same => simp [same, ih]
      · next differ => simp only [differ, false_and, or_false]; omega

theorem compareUnits_eq_zero_iff (xs ys : List Nat) : compareUnits xs ys = 0 ↔ xs = ys := by
  induction xs generalizing ys with
  | nil => cases ys <;> simp; omega
  | cons x xs ih =>
    cases ys with
    | nil => simp; omega
    | cons y ys =>
      by_cases same : x = y
      · simp [same, ih]
      · simp [same]; omega

theorem compareUnits_trans {xs ys zs : List Nat} (below : compareUnits xs ys ≤ 0) (above : compareUnits ys zs ≤ 0) :
    compareUnits xs zs ≤ 0 := by
  induction xs generalizing ys zs with
  | nil => simp
  | cons x xs ih =>
    cases ys with
    | nil => simp at below; omega
    | cons y ys =>
      cases zs with
      | nil => simp at above; omega
      | cons z zs =>
        simp only [compareUnits_cons] at below above ⊢
        split_ifs at below above ⊢
        any_goals omega
        exact ih below above

/-- A comparison of rows that are short enough fits thirty two bits. -/
theorem compareUnits_bounds {xs ys : List Nat} (shortLeft : xs.length < 2 ^ 31) (shortRight : ys.length < 2 ^ 31)
    (smallLeft : ∀ x ∈ xs, x < 65536) (smallRight : ∀ y ∈ ys, y < 65536) :
    -2 ^ 31 < compareUnits xs ys ∧ compareUnits xs ys < 2 ^ 31 := by
  induction xs generalizing ys with
  | nil => simp; omega
  | cons x xs ih =>
    cases ys with
    | nil => simp at shortLeft ⊢; omega
    | cons y ys =>
      have x_small := smallLeft x (.head _)
      have y_small := smallRight y (.head _)
      simp only [List.length_cons] at shortLeft shortRight
      rw [compareUnits_cons]
      split
      · exact ih (by omega) (by omega) (fun x held => smallLeft x (.tail _ held)) fun y held => smallRight y (.tail _ held)
      · omega

/-! ## The order -/

/-- What comparing two texts answers. -/
def order (a b : String) : Int32 := Int32.ofInt (compareTexts a b)

section Short

variable {a b c : String}

theorem toInt_order (ha : (units a).length < 2 ^ 31) (hb : (units b).length < 2 ^ 31) :
    (order a b).toInt = compareUnits (units a) (units b) := by
  have bounds := compareUnits_bounds ha hb (fun _ => lt_of_mem_units) fun _ => lt_of_mem_units
  unfold order compareTexts
  rw [Int32.toInt_ofInt]
  exact Int.bmod_eq_of_le (by simp; omega) (by simp; omega)

theorem order_neg_iff (ha : (units a).length < 2 ^ 31) (hb : (units b).length < 2 ^ 31) :
    order a b < 0 ↔ List.Lex (· < ·) (units a) (units b) := by
  rw [Int32.lt_iff_toInt_lt, toInt_order ha hb, ← compareUnits_neg_iff]
  rfl

theorem order_swap (ha : (units a).length < 2 ^ 31) (hb : (units b).length < 2 ^ 31) : order a b = -order b a := by
  have bounds := compareUnits_bounds hb ha (fun _ => lt_of_mem_units) fun _ => lt_of_mem_units
  rw [← Int32.toInt_inj, Int32.toInt_neg, toInt_order ha hb, toInt_order hb ha, compareUnits_swap, Int.bmod_eq_of_le] <;> omega

end Short

/-- Comparing texts is a total order: the lexicographic one of their units. -/
theorem order_is_lexicographic {a b c : String} (ha : (units a).length < 2 ^ 31) (hb : (units b).length < 2 ^ 31)
    (hc : (units c).length < 2 ^ 31) :
    Builtin.onText a "compareTo" [.string b] = .ok (.int (order a b)) ∧
    order a b = -order b a ∧
    (order a b = 0 ↔ a = b) ∧
    (order a b < 0 ↔ List.Lex (· < ·) (units a) (units b)) ∧ (0 < order a b ↔ List.Lex (· < ·) (units b) (units a)) ∧
    (∀ (shared xs ys : List Nat) (x y : Nat), units a = shared ++ x :: xs → units b = shared ++ y :: ys → x ≠ y →
      (order a b).toInt = (x : Int) - y) ∧
    (units a <+: units b ∨ units b <+: units a → (order a b).toInt = ((units a).length : Int) - (units b).length) ∧
    (order a b ≤ 0 → order b c ≤ 0 → order a c ≤ 0) := by
  refine ⟨rfl, order_swap ha hb, ?_, order_neg_iff ha hb, ?_, ?_, ?_, ?_⟩
  · rw [← Int32.toInt_inj, toInt_order ha hb]
    exact (compareUnits_eq_zero_iff _ _).trans ⟨units_injective, congrArg _⟩
  · rw [← order_neg_iff hb ha, Int32.lt_iff_toInt_lt, Int32.lt_iff_toInt_lt, toInt_order ha hb, toInt_order hb ha,
      compareUnits_swap]
    simp
  · intro shared xs ys x y left right differ
    rw [toInt_order ha hb, left, right, compareUnits_shared, compareUnits_cons, if_neg differ]
  · rintro (⟨more, same⟩ | ⟨more, same⟩)
    · have cut := compareUnits_shared (units a) [] more
      rw [List.append_nil, same] at cut
      rw [toInt_order ha hb, cut, ← same]
      simp only [compareUnits_nil_left, List.length_append]
      omega
    · have cut := compareUnits_shared (units b) more []
      rw [List.append_nil, same] at cut
      rw [toInt_order ha hb, cut, ← same]
      simp only [compareUnits_nil_right, List.length_append]
      omega
  · simp only [Int32.le_iff_toInt_le, toInt_order ha hb, toInt_order hb hc, toInt_order ha hc]
    exact compareUnits_trans

/-- The last character of the first plane is behind every pair of units, and in front of them as a character. -/
theorem order_is_lexicographic_supplementary :
    "\uffff" < "😀" ∧ order "😀" "\uffff" < 0 := by
  have orders := order_is_lexicographic (a := "😀") (b := "\uffff") (c := "😀") (by decide) (by decide) (by decide)
  exact ⟨by decide, orders.2.2.2.1.mpr (by decide)⟩

end JavaEdit.Text
