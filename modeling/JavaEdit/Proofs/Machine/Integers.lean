import JavaEdit.Proofs.Machine.Tidiness
import Mathlib.Data.Int.Bitwise
import Mathlib.Tactic.Positivity

/-!
# Integer arithmetic

On `char`, `int` and `long` values the operators do what they do on integers, and keep the low 32 or 64
bits of the result (`integer_arithmetic_wraps`). The operators on bits are compared with those on
integers once for both widths (`onBits_eq_ofInt`).
-/

namespace JavaEdit

open Run

/-- How many bits an integer is computed with. -/
inductive Width where
  | int
  | long

namespace Width

@[reducible] def bits : Width → Nat
  | int => 32
  | long => 64

/-- The wider one. -/
def join : Width → Width → Width
  | int, int => int
  | _, _ => long

def number : (i : Width) → BitVec i.bits → Numeric
  | int, v => .int (.ofBitVec v)
  | long, v => .long (.ofBitVec v)

/-- The value with the low bits of an integer. -/
def value (i : Width) (z : Int) : Value := .ofNumeric (i.number (.ofInt _ z))

end Width

/-- The integer that a value is, and the width it is computed with. -/
def Value.integer? : Value → Option (Width × Int)
  | .char c => some (.int, c.toNat)
  | .int v => some (.int, v.toInt)
  | .long v => some (.long, v.toInt)
  | _ => none

namespace BinaryOperator

/-- What an operator does with integers, when it is computed with so many bits. Division drops the
fraction, a remainder has the sign of the dividend, and the distance of a shift is taken modulo the
number of bits. -/
def onIntegers? (bits : Nat) : BinaryOperator → Option (Int → Int → Int)
  | .plus => some (· + ·)
  | .minus => some (· - ·)
  | .mul => some (· * ·)
  | .div => some Int.tdiv
  | .mod => some Int.tmod
  | .bitAnd => some Int.land
  | .bitOr => some Int.lor
  | .bitXor => some Int.xor
  | .shl => some fun x y => x * 2 ^ (y % bits).toNat
  | .shr => some fun x y => x / 2 ^ (y % bits).toNat
  | .ushr => some fun x y => x % 2 ^ bits / 2 ^ (y % bits).toNat
  | _ => none

/-- A shift is computed with the bits of what is shifted. -/
def width (op : BinaryOperator) (i j : Width) : Width :=
  match op with
  | .shl | .shr | .ushr => i
  | _ => i.join j

/-- What the machine does with bits. -/
def onBits {n : Nat} (op : BinaryOperator) (v d : BitVec n) : BitVec n :=
  match op with
  | .plus => v + d
  | .minus => v - d
  | .mul => v * d
  | .div => v.sdiv d
  | .mod => v.srem d
  | .bitAnd => v &&& d
  | .bitOr => v ||| d
  | .bitXor => v ^^^ d
  | .shl => v <<< d.smod (.ofNat n n)
  | .shr => v.sshiftRight' (d.smod (.ofNat n n))
  | _ => v >>> (d % .ofNat n n)

end BinaryOperator

/-! ## Bits -/

section Bits

variable {n : Nat} (v d : BitVec n) (k : Nat)

theorem getElem_ofInt (x : Int) {i : Nat} (inside : i < n) : (BitVec.ofInt n x)[i] = x.testBit i := by
  cases x with
  | ofNat m =>
    rw [Int.ofNat_eq_natCast, BitVec.ofInt_natCast, BitVec.getElem_eq_testBit_toNat, BitVec.toNat_ofNat]
    simp [Int.testBit, inside]
  | negSucc m =>
    rw [BitVec.ofInt_negSucc_eq_not_ofNat, BitVec.getElem_not, BitVec.getElem_eq_testBit_toNat, BitVec.toNat_ofNat]
    simp [Int.testBit, inside]

theorem testBit_toInt {i : Nat} (inside : i < n) : v.toInt.testBit i = v[i] := by
  rw [← getElem_ofInt _ inside, BitVec.ofInt_toInt]

theorem shiftLeft_eq_ofInt : v <<< k = BitVec.ofInt n (v.toInt * 2 ^ k) := by
  have power : BitVec.ofInt n (2 ^ k) = BitVec.twoPow n k := by
    apply BitVec.eq_of_toNat_eq
    rw [BitVec.toNat_twoPow, BitVec.toNat_ofInt]
    norm_cast
  rw [BitVec.shiftLeft_eq_mul_twoPow, BitVec.ofInt_mul, BitVec.ofInt_toInt, power]

theorem sshiftRight_eq_ofInt : v.sshiftRight k = BitVec.ofInt n (v.toInt / 2 ^ k) := by
  rw [← BitVec.ofInt_toInt (x := v.sshiftRight k), BitVec.toInt_sshiftRight, Int.shiftRight_eq_div_pow]
  push_cast
  rfl

theorem toInt_emod_two_pow : v.toInt % 2 ^ n = v.toNat := by
  have low := BitVec.toNat_ofInt (n := n) v.toInt
  rw [BitVec.ofInt_toInt] at low
  have := Int.emod_nonneg v.toInt (show (2 ^ n : Int) ≠ 0 by positivity)
  push_cast at *
  omega

theorem ushiftRight_eq_ofInt : v >>> k = BitVec.ofInt n (v.toInt % 2 ^ n / 2 ^ k) := by
  apply BitVec.eq_of_toNat_eq
  rw [toInt_emod_two_pow, BitVec.toNat_ushiftRight, Nat.shiftRight_eq_div_pow, BitVec.toNat_ofInt]
  norm_cast
  exact (Nat.mod_eq_of_lt (Nat.lt_of_le_of_lt (Nat.div_le_self ..) v.isLt)).symm

variable (divides : n ∣ 2 ^ n) (small : 2 * n < 2 ^ n)
include divides small

/-- A distance is taken modulo the number of bits, with its sign or without. -/
theorem toNat_mod_bits : (d.smod (.ofNat n n)).toNat = (d.toInt % n).toNat ∧
    (d % .ofNat n n).toNat = (d.toInt % n).toNat := by
  have positive : 0 < n := Nat.pos_of_ne_zero fun zero => by simp [zero] at divides
  have own : (BitVec.ofNat n n).toNat = n := Nat.mod_eq_of_lt (by omega)
  have least := Int.emod_nonneg d.toInt (Int.natCast_ne_zero.mpr positive.ne')
  constructor
  · have signed : (d.smod (.ofNat n n)).toInt = d.toInt % n := by
      rw [BitVec.toInt_smod, BitVec.toInt_eq_toNat_cond (.ofNat n n), own, if_pos small,
        Int.fmod_eq_emod_of_nonneg _ (Int.natCast_nonneg n)]
    have below := (d.smod (.ofNat n n)).isLt
    rw [BitVec.toInt_eq_toNat_cond] at signed
    split at signed <;> omega
  · have low : d.toInt % n = (d.toNat % n : Nat) := by
      rw [Int.natCast_mod, ← toInt_emod_two_pow, Int.emod_emod_of_dvd _ (by exact_mod_cast divides)]
    rw [low, Int.toNat_natCast, BitVec.toNat_umod, own]

theorem onBits_eq_ofInt {op : BinaryOperator} {f : Int → Int → Int} (known : op.onIntegers? n = some f) :
    op.onBits v d = .ofInt n (f v.toInt d.toInt) := by
  have distance := toNat_mod_bits d divides small
  unfold BinaryOperator.onIntegers? at known
  split at known <;> cases known
  · exact BitVec.eq_of_toInt_eq ((BitVec.toInt_add ..).trans (BitVec.toInt_ofInt ..).symm)
  · exact BitVec.eq_of_toInt_eq (BitVec.toInt_sub.trans (BitVec.toInt_ofInt ..).symm)
  · exact BitVec.eq_of_toInt_eq ((BitVec.toInt_mul ..).trans (BitVec.toInt_ofInt ..).symm)
  · exact BitVec.eq_of_toInt_eq ((BitVec.toInt_sdiv ..).trans (BitVec.toInt_ofInt ..).symm)
  · exact (BitVec.ofInt_toInt (x := v.srem d)).symm.trans (congrArg _ (BitVec.toInt_srem ..))
  iterate 3
    · ext i inside
      simp [BinaryOperator.onBits, getElem_ofInt, testBit_toInt, inside]
  · exact (congrArg (v <<< ·) distance.1).trans (shiftLeft_eq_ofInt ..)
  · exact (congrArg v.sshiftRight distance.1).trans (sshiftRight_eq_ofInt ..)
  · exact (congrArg (v >>> ·) distance.2).trans (ushiftRight_eq_ofInt ..)

end Bits

/-! ## Numbers -/

variable {i j : Width} {x y : Int} {op : BinaryOperator} {f : Int → Int → Int}

theorem exists_number {a : Value} (h : a.integer? = some (i, x)) :
    ∃ v : BitVec i.bits, a.numeric? = some (i.number v) ∧ v.toInt = x := by
  cases a with
  | char c =>
    cases h
    have valid : c.val.toNat.isValidChar := c.valid
    unfold Nat.isValidChar at valid
    refine ⟨.ofInt 32 c.toNat, rfl, ?_⟩
    exact Int32.toInt_ofInt_of_le (by omega) (show (c.val.toNat : Int) < 2 ^ 31 by omega)
  | int v | long v =>
    cases h
    exact ⟨v.toBitVec, rfl, rfl⟩
  | _ => cases h

theorem promote_number (v : BitVec i.bits) (d : BitVec j.bits) :
    (i.number v).promote (j.number d) =
      ((i.join j).number (.ofInt _ v.toInt), (i.join j).number (.ofInt _ d.toInt)) := by
  cases i <;> cases j <;> simp [Width.join, Width.number] <;> rfl

/-- Division by zero is the one case without a result. -/
def BinaryOperator.result (op : BinaryOperator) (y : Int) (value : Value) : Except Upset Value :=
  if (op = .div ∨ op = .mod) ∧ y = 0 then .error (.trap .divisionByZero) else .ok value

theorem toInt_join (v : BitVec i.bits) (j : Width) : (BitVec.ofInt (i.join j).bits v.toInt).toInt = v.toInt ∧
    (BitVec.ofInt (j.join i).bits v.toInt).toInt = v.toInt := by
  cases i <;> cases j <;> exact ⟨BitVec.toInt_signExtend_of_le (by decide), BitVec.toInt_signExtend_of_le (by decide)⟩

theorem arithmetic_numbers (v : BitVec i.bits) (d : BitVec j.bits) (known : op.onIntegers? (i.join j).bits = some f)
    (notShift : op.width .int .long = .long) : Numeric.arithmetic op (i.number v) (j.number d) =
      op.result d.toInt ((i.join j).value (f v.toInt d.toInt)) := by
  unfold Numeric.arithmetic
  rw [promote_number]
  have left := (toInt_join v j).1
  have right := (toInt_join d i).2
  generalize BitVec.ofInt _ v.toInt = v' at *
  generalize BitVec.ofInt _ d.toInt = d' at *
  rw [← left, ← right]
  unfold Width.value
  generalize i.join j = k at *
  have zero : ∀ d : BitVec 32, (Int32.ofBitVec d == 0) = decide (d.toInt = 0) := fun d => by
    rw [beq_eq_decide, decide_eq_decide, ← Int32.toInt_inj]
    rfl
  have zero' : ∀ d : BitVec 64, (Int64.ofBitVec d == 0) = decide (d.toInt = 0) := fun d => by
    rw [beq_eq_decide, decide_eq_decide, ← Int64.toInt_inj]
    rfl
  cases k with
  | int | long =>
    rw [← onBits_eq_ofInt v' d' (by decide) (by decide) known]
    unfold BinaryOperator.onIntegers? at known
    split at known <;> cases known <;> cases notShift
    all_goals
      simp [Width.number, Numeric.onInts, Numeric.onLongs, BinaryOperator.result, zero, zero']
      rfl

theorem shift_numbers (v : BitVec i.bits) (d : BitVec j.bits) (known : op.onIntegers? i.bits = some f)
    (isShift : op.width .int .long = .int) :
    Numeric.shift op (i.number v) (j.number d) = .ok (i.value (f v.toInt d.toInt)) := by
  -- the distance is cut down to the bits of what is shifted, which does not change its remainder
  have same : ∀ x, f x (BitVec.ofInt i.bits d.toInt).toInt = f x d.toInt := fun x => by
    have rest : (BitVec.ofInt i.bits d.toInt).toInt % i.bits = d.toInt % i.bits := by
      have divides : (i.bits : Int) ∣ (2 ^ i.bits : Nat) := by cases i <;> decide
      rw [BitVec.toInt_ofInt, ← Int.emod_emod_of_dvd _ divides, Int.bmod_emod, Int.emod_emod_of_dvd _ divides]
    unfold BinaryOperator.onIntegers? at known
    split at known <;> cases known <;> cases isShift <;> dsimp only <;> rw [rest]
  have wide : (j.number d).toInt64 = .ofInt d.toInt := by
    cases j
    · rfl
    · exact (Int64.ofInt_toInt _).symm
  unfold Width.value
  rw [← same]
  cases i with
  | int =>
    rw [← onBits_eq_ofInt v _ (by decide) (by decide) known]
    show Except.ok (Value.int (Numeric.shiftInt op _ (j.number d).toInt64)) = _
    unfold Numeric.shiftInt
    rw [wide, Int64.toInt32_ofInt]
    cases op <;> first | rfl | cases isShift
  | long =>
    rw [← onBits_eq_ofInt v _ (by decide) (by decide) known]
    show Except.ok (Value.long (Numeric.shiftLong op _ (j.number d).toInt64)) = _
    rw [wide]
    cases op <;> first | rfl | cases isShift

/-! ## Values -/

section

variable {a b : Value} (left : a.integer? = some (i, x)) (right : b.integer? = some (j, y)) (p : Program) (c : Calls)
  (w : World)
include left

theorem unary_integer {operator : UnaryOperator} {z : Int} (notNot : operator ≠ .not)
    (known : ∀ v : BitVec i.bits, v.toInt = x → (i.number v).unary? operator = some (i.number (.ofInt _ z))) :
    (unary operator a).on w = (.ok (i.value z), w) := by
  obtain ⟨v, numeric, is⟩ := exists_number left
  unfold unary
  split
  · exact absurd rfl notNot
  · rw [numeric, Option.bind_some, known v is]
    rfl

include right

theorem binary_integers (known : op.onIntegers? (op.width i j).bits = some f) : (binary p c op a b).on w =
    (ofExcept (op.result y ((op.width i j).value (f x y)))).on w := by
  have noText : ∀ {v : Value} {k}, v.integer? = some k → isString v = false := fun {v} {k} is => by
    cases v <;> first | rfl | cases is
  have noBoolean : ∀ {v : Value} {k}, v.integer? = some k → ∀ t, v ≠ .boolean t := by
    rintro v k is t rfl
    cases is
  obtain ⟨v, numeric, rfl⟩ := exists_number left
  obtain ⟨d, numeric', rfl⟩ := exists_number right
  have operated : Numeric.operate op (i.number v) (j.number d) =
      op.result d.toInt ((op.width i j).value (f v.toInt d.toInt)) := by
    cases op with
    | shl | shr | ushr => exact (shift_numbers v d known rfl).trans (if_neg (by simp)).symm
    | plus | minus | mul | div | mod | bitAnd | bitOr | bitXor => exact arithmetic_numbers v d known rfl
    | _ => cases known
  unfold binary
  rw [noText left, noText right, Bool.or_self, Bool.and_false, if_neg Bool.false_ne_true, on_bind, ← operated]
  show (ofExcept (combine w op a b)).on w = _
  unfold combine
  rw [numeric, numeric']
  split
  · cases known
  · cases known
  · split
    · exact absurd rfl (noBoolean left _)
    · rfl

omit left right in
theorem Width.integer?_value (i : Width) (z : Int) : (i.value z).integer? = some (i, z.bmod (2 ^ i.bits)) := by
  cases i <;> exact congrArg (fun z => some (_, z)) (BitVec.toInt_ofInt ..)

omit right in
/-- A value is equal to its promotion. -/
theorem same_promoted (j : Width) : a.same ((i.join j).value x) = true := by
  obtain ⟨v, numeric, rfl⟩ := exists_number left
  have value : ((i.join j).value v.toInt).numeric? = some ((i.join j).number (.ofInt _ v.toInt)) := by
    cases i.join j <;> rfl
  have numbers : a.same ((i.join j).value v.toInt) = (i.number v).same ((i.join j).number (.ofInt _ v.toInt)) := by
    unfold Value.same
    rw [numeric, value]
    cases a <;> first | rfl | cases left
  rw [numbers, Numeric.same, promote_number, (toInt_join v j).1]
  cases i <;> cases j <;> exact beq_self_eq_true _

/-- Dividing and multiplying back gives the dividend. -/
theorem division_restores (nonzero : y ≠ 0) : (do
      let quotient ← binary p c .div a b
      let whole ← binary p c .mul quotient b
      let rest ← binary p c .mod a b
      let sum ← binary p c .plus whole rest
      binary p c .eq a sum).on w = (.ok (.boolean true), w) := by
  have step : ∀ {a b : Value} {i j : Width} {x z : Int} (op : BinaryOperator) {f : Int → Int → Int},
      a.integer? = some (i, x) → b.integer? = some (j, z) → op.onIntegers? (op.width i j).bits = some f →
      ¬ ((op = .div ∨ op = .mod) ∧ z = 0) → (binary p c op a b).on w = (.ok ((op.width i j).value (f x z)), w) := by
    intro a b i j x z op f left right known fine
    rw [binary_integers left right p c w known, BinaryOperator.result, if_neg fine]
    rfl
  have integer := Width.integer?_value
  rw [on_bind, step .div left right rfl fun both => nonzero both.2]
  dsimp only
  rw [on_bind, step .mul (integer _ _) right rfl (by simp)]
  dsimp only
  rw [on_bind, step .mod left right rfl fun both => nonzero both.2]
  dsimp only
  rw [on_bind, step .plus (integer _ _) (integer _ _) rfl (by simp)]
  have joined : (i.join j).join j = i.join j ∧ (i.join j).join (i.join j) = i.join j := by
    cases i <;> cases j <;> exact ⟨rfl, rfl⟩
  have restored : (i.join j).value (((x.tdiv y).bmod (2 ^ (i.join j).bits) * y).bmod (2 ^ (i.join j).bits) +
      (x.tmod y).bmod (2 ^ (i.join j).bits)) = (i.join j).value x := by
    have same : ∀ {n : Nat} {z z' : Int}, z.bmod (2 ^ n) = z'.bmod (2 ^ n) → BitVec.ofInt n z = .ofInt n z' :=
      fun same => BitVec.eq_of_toInt_eq (by rwa [BitVec.toInt_ofInt, BitVec.toInt_ofInt])
    exact congrArg (Value.ofNumeric ∘ Width.number _) (same (by simp [Int.tdiv_mul_add_tmod]))
  dsimp only [BinaryOperator.width]
  rw [joined.1, joined.2, restored]
  show (Except.ok (Value.boolean (a.same ((i.join j).value x))), w) = _
  rw [same_promoted left]

omit left right in
theorem on_trap (t : Trap) : ∃ ref w', (trap t : Run Value).on w = (.error (.thrown (.object ref)), w') ∧
    w'.classOf ref = t.className ∧ w'.message? ref = t.message? := by
  have made : (w.allocThrowable t.className t.message?).2.object w.objects.size =
      ⟨t.className, [(World.messageField, Slot.make (t.message?.elim .null .string) none)]⟩ := by
    simp [World.allocThrowable, World.allocObject, World.setMessage, World.setField, World.object, Array.getElem_modify,
      Scope.insert]
  refine ⟨w.objects.size, (w.allocThrowable t.className t.message?).2, rfl, congrArg HeapObject.className made, ?_⟩
  unfold World.message? World.field?
  rw [made]
  cases t.message? <;> rfl

end

/-- Arithmetic on integers is exact up to the low bits of the result, with as many bits as the wider
operand has; a shift has those of its left operand. The one failure is division by zero. -/
theorem integer_arithmetic_wraps (p : Program) (c : Calls) (w : World) {a b : Value} {i j : Width} {x y : Int}
    (left : a.integer? = some (i, x)) (right : b.integer? = some (j, y)) :
    (∀ op f, op.onIntegers? (op.width i j).bits = some f → (binary p c op a b).on w =
      if (op = .div ∨ op = .mod) ∧ y = 0 then (trap .divisionByZero).on w
      else (.ok ((op.width i j).value (f x y)), w)) ∧
    (unary .neg a).on w = (.ok (i.value (-x)), w) ∧ (unary .compl a).on w = (.ok (i.value (-x - 1)), w) ∧
    (y ≠ 0 → (do
      let quotient ← binary p c .div a b
      let whole ← binary p c .mul quotient b
      let rest ← binary p c .mod a b
      let sum ← binary p c .plus whole rest
      binary p c .eq a sum).on w = (.ok (.boolean true), w)) ∧
    (∃ ref w', (trap .divisionByZero : Run Value).on w = (.error (.thrown (.object ref)), w') ∧
      w'.classOf ref = "ArithmeticException" ∧ w'.message? ref = some "/ by zero") := by
  refine ⟨fun op f known => ?_, unary_integer left w (by decide) ?_, unary_integer left w (by decide) ?_,
    division_restores left right p c w, on_trap w .divisionByZero⟩
  · rw [binary_integers left right p c w known, BinaryOperator.result]
    split <;> rfl
  · rintro v rfl
    rw [BitVec.ofInt_neg, BitVec.ofInt_toInt]
    cases i <;> rfl
  · rintro v rfl
    have flipped : BitVec.ofInt i.bits (-v.toInt - 1) = ~~~v := by
      simp [BitVec.not_eq_neg_add, BitVec.sub_eq_add_neg, Int.sub_eq_add_neg, BitVec.ofInt_add, BitVec.ofInt_neg]
    rw [flipped]
    cases i <;> rfl

/-- The least `int` divided by `-1` is itself again. -/
theorem least_divided_by_minus_one : (binary ⟨[]⟩ (machine ⟨[]⟩ 0) .div (.int (-2147483648)) (.int (-1))).on .start =
    (.ok (.int (-2147483648)), .start) :=
  ((integer_arithmetic_wraps ⟨[]⟩ (machine ⟨[]⟩ 0) .start rfl rfl).1 .div _ rfl).trans (if_neg (by decide))

end JavaEdit
