import Mathlib.Algebra.Order.Ring.Nat

/-! Fields of a machine word: the number in some of its bits, read with a mask and a shift, and
words put together from shifted parts. -/
namespace SocketCPlusPlus.Foundation

/-- The number in the `width` bits from bit `shift` on. -/
def bitField (shift width x : Nat) : Nat := x / 2 ^ shift % 2 ^ width

theorem and_mask (shift width x : Nat) :
    x &&& (2 ^ width - 1) * 2 ^ shift = bitField shift width x * 2 ^ shift := by
  rw [← Nat.shiftLeft_eq, ← Nat.shiftLeft_eq, bitField, ← Nat.shiftRight_eq_div_pow,
    ← Nat.and_two_pow_sub_one_eq_mod]
  apply Nat.eq_of_testBit_eq
  intro i
  simp only [Nat.testBit_and, Nat.testBit_shiftLeft, Nat.testBit_shiftRight]
  by_cases hi : shift ≤ i
  · simp [hi]
  · simp [hi]

theorem bitField_mod {shift width n : Nat} (h : shift + width ≤ n) (x : Nat) :
    bitField shift width (x % 2 ^ n) = bitField shift width x := by
  obtain ⟨k, rfl⟩ := Nat.exists_eq_add_of_le h
  rw [bitField, bitField, Nat.add_assoc, Nat.pow_add, Nat.mod_mul_right_div_self,
    Nat.mod_mod_of_dvd _ (Nat.pow_dvd_pow 2 (Nat.le_add_right width k))]

theorem bitField_append {shift low : Nat} (width high : Nat) (h : low < 2 ^ shift) :
    bitField shift width (high * 2 ^ shift + low) = high % 2 ^ width := by
  rw [bitField, Nat.mul_comm, Nat.mul_add_div (Nat.two_pow_pos shift), Nat.div_eq_of_lt h,
    Nat.add_zero]

theorem append_lt {shift width high low : Nat} (hhigh : high < 2 ^ width) (hlow : low < 2 ^ shift) :
    high * 2 ^ shift + low < 2 ^ (width + shift) := by
  have hle : (high + 1) * 2 ^ shift ≤ 2 ^ width * 2 ^ shift := Nat.mul_le_mul_right _ hhigh
  rw [Nat.pow_add]
  rw [Nat.add_mul, Nat.one_mul] at hle
  omega

theorem bitField_above (shift width high low : Nat) :
    bitField shift width (high * 2 ^ (shift + width) + low) = bitField shift width low := by
  rw [bitField, bitField, Nat.pow_add, Nat.mul_left_comm, Nat.mul_add_div (Nat.two_pow_pos shift),
    Nat.mul_add_mod_self_right]

theorem bitField_le (shift width x : Nat) : bitField shift width x * 2 ^ shift ≤ x :=
  Nat.le_trans (Nat.mul_le_mul_right _ (Nat.mod_le ..)) (Nat.div_mul_le_self ..)

theorem bitField_mul_lt (shift width x : Nat) :
    bitField shift width x * 2 ^ shift < 2 ^ (width + shift) := by
  rw [Nat.pow_add]
  exact Nat.mul_lt_mul_of_pos_right (Nat.mod_lt _ (Nat.two_pow_pos width)) (Nat.two_pow_pos shift)

theorem bitField_sub (shift width k x : Nat) :
    bitField shift width (x - bitField (width + shift) k x * 2 ^ (width + shift)) =
      bitField shift width x := by
  have hle := bitField_le (width + shift) k x
  have hsplit : x = bitField (width + shift) k x * 2 ^ (shift + width) +
      (x - bitField (width + shift) k x * 2 ^ (width + shift)) := by
    rw [Nat.add_comm shift width]
    omega
  conv_rhs => rw [hsplit]
  rw [bitField_above]

/-- A disjunction of a shifted part and what fits below it is their sum. -/
theorem or_append {shift low : Nat} (high : Nat) (h : low < 2 ^ shift) :
    high * 2 ^ shift ||| low = high * 2 ^ shift + low := by
  rw [Nat.mul_comm, Nat.two_pow_add_eq_or_of_lt h]

/-! Nonnegative integers of 32 bits compute as natural numbers. -/

theorem int_ofNat_and (x y : Nat) : Int32.ofNat x &&& Int32.ofNat y = Int32.ofNat (x &&& y) := by
  apply Int32.toBitVec_inj.mp
  exact BitVec.ofNat_and.symm

private theorem shift_smod {k : Nat} (h : k < 32) : ((BitVec.ofNat 32 k).smod 32).toNat = k := by
  have hall : ∀ k : Fin 32, ((BitVec.ofNat 32 k).smod 32).toNat = k := by decide
  exact hall ⟨k, h⟩

theorem int_ofNat_shiftLeft (x : Nat) {k : Nat} (h : k < 32) :
    Int32.ofNat x <<< Int32.ofNat k = Int32.ofNat (x * 2 ^ k) := by
  apply Int32.toBitVec_inj.mp
  change BitVec.ofNat 32 x <<< (BitVec.ofNat 32 k).smod 32 = BitVec.ofNat 32 (x * 2 ^ k)
  apply BitVec.eq_of_toNat_eq
  rw [BitVec.shiftLeft_eq', BitVec.toNat_shiftLeft, shift_smod h, BitVec.toNat_ofNat,
    BitVec.toNat_ofNat, Nat.shiftLeft_eq, Nat.mod_mul_mod]

theorem int_ofNat_shiftRight {x k : Nat} (hx : x < 2 ^ 31) (h : k < 32) :
    Int32.ofNat x >>> Int32.ofNat k = Int32.ofNat (x / 2 ^ k) := by
  have hmsb : (BitVec.ofNat 32 x).msb = false := by
    rw [BitVec.msb_eq_false_iff_two_mul_lt, BitVec.toNat_ofNat]
    omega
  have hword : x < 2 ^ 32 := by omega
  apply Int32.toBitVec_inj.mp
  change (BitVec.ofNat 32 x).sshiftRight' ((BitVec.ofNat 32 k).smod 32) = BitVec.ofNat 32 (x / 2 ^ k)
  apply BitVec.eq_of_toNat_eq
  rw [BitVec.sshiftRight', BitVec.toNat_sshiftRight_of_msb_false hmsb, shift_smod h,
    BitVec.toNat_ofNat, BitVec.toNat_ofNat, Nat.mod_eq_of_lt hword, Nat.shiftRight_eq_div_pow,
    Nat.mod_eq_of_lt (Nat.lt_of_le_of_lt (Nat.div_le_self ..) hword)]

theorem int_eq_ofNat {x : Int32} (h : 0 ≤ x.toInt) : x = Int32.ofNat x.toInt.toNat := by
  rw [← Int32.ofInt_eq_ofNat, Int.toNat_of_nonneg h, Int32.ofInt_toInt]

theorem int_ofNat_range {m k : Nat} (hm : m < 2 ^ 32) (hk : k ≤ 2 ^ 31) :
    0 ≤ (Int32.ofNat m).toInt ∧ (Int32.ofNat m).toInt < k ↔ m < k := by
  rw [Int32.toInt_ofNat', Int.bmod_def]
  simp only [Int32.size]
  omega

/-! A field of a 64-bit word, its mask in place. -/

section Word
variable {mask shift : UInt64} {width : Nat}

private theorem mask_in_place (hmask : mask.toNat = 2 ^ width - 1) (hwidth : 0 < width)
    (hfits : shift.toNat + width ≤ 64) :
    (mask <<< shift).toNat = (2 ^ width - 1) * 2 ^ shift.toNat := by
  have hshift : shift.toNat < 64 := by omega
  have hlt : (2 ^ width - 1) * 2 ^ shift.toNat < 2 ^ 64 := by
    have hpow : 2 ^ width * 2 ^ shift.toNat ≤ 2 ^ 64 := by
      rw [← Nat.pow_add, Nat.add_comm]
      exact Nat.pow_le_pow_right (by decide) hfits
    have hone := Nat.two_pow_pos shift.toNat
    rw [Nat.sub_mul, Nat.one_mul]
    omega
  rw [UInt64.toNat_shiftLeft, Nat.mod_eq_of_lt hshift, hmask, Nat.shiftLeft_eq,
    Nat.mod_eq_of_lt hlt]

theorem u64_shiftLeft_mask (hmask : mask.toNat = 2 ^ width - 1) (hwidth : 0 < width)
    (hfits : shift.toNat + width ≤ 64) (u : UInt64) :
    ((u <<< shift) &&& (mask <<< shift)).toNat = u.toNat % 2 ^ width * 2 ^ shift.toNat := by
  have hshift : shift.toNat < 64 := by omega
  have hpos : 0 < 2 ^ shift.toNat := Nat.two_pow_pos _
  have hfield := bitField_append width u.toNat hpos
  rw [Nat.add_zero] at hfield
  rw [UInt64.toNat_and, mask_in_place hmask hwidth hfits, and_mask, UInt64.toNat_shiftLeft,
    Nat.mod_eq_of_lt hshift, Nat.shiftLeft_eq, bitField_mod hfits, hfield]

theorem u64_mask_shiftRight (hmask : mask.toNat = 2 ^ width - 1) (hwidth : 0 < width)
    (hfits : shift.toNat + width ≤ 64) (u : UInt64) :
    ((u &&& (mask <<< shift)) >>> shift).toNat = bitField shift.toNat width u.toNat := by
  have hshift : shift.toNat < 64 := by omega
  rw [UInt64.toNat_shiftRight, Nat.mod_eq_of_lt hshift, UInt64.toNat_and,
    mask_in_place hmask hwidth hfits, and_mask, Nat.shiftRight_eq_div_pow,
    Nat.mul_div_cancel _ (Nat.two_pow_pos _)]

theorem u64_bit (hshift : shift.toNat < 64) (u : UInt64) :
    u &&& ((1 : UInt64) <<< shift) = 0 ↔ bitField shift.toNat 1 u.toNat = 0 := by
  have hmask : (1 : UInt64).toNat = 2 ^ 1 - 1 := rfl
  have hpos := Nat.two_pow_pos shift.toNat
  rw [← UInt64.toNat_inj, UInt64.toNat_and, mask_in_place hmask Nat.one_pos hshift, and_mask]
  constructor
  · intro h
    exact (Nat.mul_eq_zero.mp h).resolve_right (Nat.ne_of_gt hpos)
  · intro h
    rw [h, Nat.zero_mul]
    rfl

end Word

end SocketCPlusPlus.Foundation
