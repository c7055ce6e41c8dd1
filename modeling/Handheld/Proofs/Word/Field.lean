import Handheld.Word
import Mathlib.Data.Nat.Bitwise

/-!
# Fields as arithmetic

The field of `n` bits at bit `i` of a word is `w.toNat / 2 ^ i % 2 ^ n`.  Opcodes are taken apart by
masks and shifts; this file says what each of those reads, so that an opcode that is put together as
a sum is decoded by arithmetic.
-/

namespace Handheld.Word

/-! ## 1. Masks of one field -/

/-- A mask of one field keeps that field, in its place. -/
theorem toNat_and_mask {m : Word} {i n : Nat} (hm : m.toNat = (2 ^ n - 1) * 2 ^ i) (w : Word) :
    (w &&& m).toNat = w.toNat / 2 ^ i % 2 ^ n * 2 ^ i := by
  have hpos := Nat.two_pow_pos i
  have hhigh : (w.toNat &&& m.toNat) / 2 ^ i = w.toNat / 2 ^ i % 2 ^ n := by
    rw [Nat.and_div_two_pow, hm, Nat.mul_div_cancel _ hpos, Nat.and_two_pow_sub_one_eq_mod]
  have hlow : (w.toNat &&& m.toNat) % 2 ^ i = 0 := by
    rw [Nat.and_mod_two_pow, hm, Nat.mul_mod_left, Nat.and_zero]
  rw [UInt32.toNat_and, ← Nat.div_add_mod (w.toNat &&& m.toNat) (2 ^ i), hhigh, hlow, Nat.add_zero,
    Nat.mul_comm]

/-- A comparison under a mask fixes every field that the mask covers. -/
theorem field_eq_of_and_eq {w m v : Word} (h : w &&& m = v) (i n : Nat)
    (hm : m.toNat / 2 ^ i % 2 ^ n = 2 ^ n - 1) :
    w.toNat / 2 ^ i % 2 ^ n = v.toNat / 2 ^ i % 2 ^ n := by
  subst h
  rw [UInt32.toNat_and, Nat.and_div_two_pow, Nat.and_mod_two_pow, hm,
    Nat.and_two_pow_sub_one_of_lt_two_pow (Nat.mod_lt _ (Nat.two_pow_pos n))]

/-- A comparison under a mask holds under each part of it. -/
theorem and_eq_of_and_eq {w m n v : Word} (h : w &&& m = v) (hn : m &&& n = n) :
    w &&& n = v &&& n := by
  subst h
  rw [UInt32.and_assoc, hn]

/-- A comparison that asks for another value of some field fails. -/
theorem and_ne_of_field_ne {w m v : Word} {k : Nat} (i n : Nat)
    (hw : w.toNat / 2 ^ i % 2 ^ n = k) (hm : m.toNat / 2 ^ i % 2 ^ n = 2 ^ n - 1)
    (hv : v.toNat / 2 ^ i % 2 ^ n ≠ k) : ¬ w &&& m = v := by
  intro h
  exact hv ((field_eq_of_and_eq h i n hm).symm.trans hw)

/-- A comparison under a mask of one field compares that field. -/
theorem and_eq_iff_field {m v : Word} {i n k : Nat} (hm : m.toNat = (2 ^ n - 1) * 2 ^ i)
    (hv : v.toNat = k * 2 ^ i) (w : Word) : w &&& m = v ↔ w.toNat / 2 ^ i % 2 ^ n = k := by
  rw [← UInt32.toNat_inj, toNat_and_mask hm, hv]
  exact Nat.mul_left_inj (Nat.ne_of_gt (Nat.two_pow_pos i))

/-- A comparison under a mask fixes what is read of the bits that the mask covers. -/
theorem shiftRight_and_eq_of_and_eq {w m v : Word} (h : w &&& m = v) (i n : Word)
    (hm : (m >>> i) &&& n = n) : (w >>> i) &&& n = (v >>> i) &&& n := by
  subst h
  rw [UInt32.shiftRight_and, UInt32.and_assoc, hm]

theorem bit_eq_of_and_eq {w m v i : Word} (h : w &&& m = v) (hm : m.bit i = true) :
    w.bit i = v.bit i := by
  unfold bit at hm ⊢
  rw [shiftRight_and_eq_of_and_eq h i 1 (beq_iff_eq.1 hm)]

/-! ## 2. Bits, fields and registers -/

theorem toNat_shiftRight {i : Word} (hi : i.toNat < 32) (w : Word) :
    (w >>> i).toNat = w.toNat / 2 ^ i.toNat := by
  rw [UInt32.toNat_shiftRight, Nat.mod_eq_of_lt hi, Nat.shiftRight_eq_div_pow]

/-- A field moved to the low end and masked. -/
theorem shiftRight_and_eq {w i m v : Word} {n : Nat} (hi : i.toNat < 32) (hm : m.toNat = 2 ^ n - 1)
    (h : w.toNat / 2 ^ i.toNat % 2 ^ n = v.toNat) : (w >>> i) &&& m = v := by
  rw [← Nat.mul_one (2 ^ n - 1), ← Nat.pow_zero 2] at hm
  rw [← UInt32.toNat_inj, toNat_and_mask hm, toNat_shiftRight hi, Nat.pow_zero, Nat.div_one,
    Nat.mul_one, h]

theorem toNat_twoPow {n : Word} (hn : n.toNat < 32) : ((1 : Word) <<< n).toNat = 2 ^ n.toNat := by
  have hlt : 2 ^ n.toNat < 2 ^ 32 := Nat.pow_lt_pow_right (by decide) hn
  rw [UInt32.toNat_shiftLeft, Nat.mod_eq_of_lt hn, UInt32.toNat_one, Nat.shiftLeft_eq, Nat.one_mul,
    Nat.mod_eq_of_lt hlt]

theorem toNat_field {i n : Word} (hi : i.toNat < 32) (hn : n.toNat < 32) (w : Word) :
    (w.field i n).toNat = w.toNat / 2 ^ i.toNat % 2 ^ n.toNat := by
  have hle : (1 : Word) ≤ 1 <<< n := by
    rw [UInt32.le_iff_toNat_le, toNat_twoPow hn]
    exact Nat.two_pow_pos _
  have hmask : ((1 : Word) <<< n - 1).toNat = (2 ^ n.toNat - 1) * 2 ^ 0 := by
    rw [UInt32.toNat_sub_of_le _ _ hle, toNat_twoPow hn, UInt32.toNat_one, Nat.pow_zero,
      Nat.mul_one]
  unfold field
  rw [toNat_and_mask hmask, toNat_shiftRight hi, Nat.pow_zero, Nat.div_one, Nat.mul_one]

theorem field_lt {i n v : Word} (hi : i.toNat < 32) (hn : n.toNat < 32)
    (hv : v.toNat = 2 ^ n.toNat) (w : Word) : w.field i n < v := by
  rw [UInt32.lt_iff_toNat_lt, toNat_field hi hn, hv]
  exact Nat.mod_lt _ (Nat.two_pow_pos _)

theorem bit_eq_decide {i : Word} (hi : i.toNat < 32) (w : Word) :
    w.bit i = decide (w.toNat / 2 ^ i.toNat % 2 = 1) := by
  have hbit : ((w >>> i) &&& 1).toNat = w.toNat / 2 ^ i.toNat % 2 :=
    toNat_field (n := 1) hi (by decide) w
  unfold bit
  rw [Bool.eq_iff_iff, beq_iff_eq, decide_eq_true_iff, ← UInt32.toNat_inj, hbit, UInt32.toNat_one]

theorem field_one (w i : Word) : w.field i 1 = (w.bit i).toUInt32 := by
  have hle : ((w >>> i) &&& 1).toNat ≤ 1 := by
    rw [UInt32.toNat_and]
    exact Nat.and_le_right
  have hbit : (w >>> i) &&& 1 = 0 ∨ (w >>> i) &&& 1 = 1 := by
    rw [← UInt32.toNat_inj, ← UInt32.toNat_inj]
    exact Nat.le_one_iff_eq_zero_or_eq_one.1 hle
  show (w >>> i) &&& 1 = (((w >>> i) &&& 1) == 1).toUInt32
  rcases hbit with h | h <;> rw [h] <;> rfl

theorem bit_eq_testBit {i : Word} (hi : i.toNat < 32) (w : Word) :
    w.bit i = w.toNat.testBit i.toNat := by
  rw [bit_eq_decide hi, Nat.testBit_eq_decide_div_mod_eq]

theorem bit_eq_of_field {w i : Word} {b : Bool} (hi : i.toNat < 32)
    (h : w.toNat / 2 ^ i.toNat % 2 = b.toNat) : w.bit i = b := by
  rw [bit_eq_decide hi, h]
  cases b <;> rfl

theorem reg_eq_of_field {w i : Word} {r : Reg} (hi : i.toNat < 32)
    (h : w.toNat / 2 ^ i.toNat % 16 = r.val) : w.reg i = r := by
  apply Fin.ext
  show (w >>> i).toNat % 16 = r.val
  rw [toNat_shiftRight hi, h]

/-- A register is read from its field alone. -/
theorem reg_eq_of_field_eq {i w v : Word} (h : w.field i 4 = v.field i 4) : w.reg i = v.reg i := by
  have hmask : (0xF : Word).toNat = (2 ^ 4 - 1) * 2 ^ 0 := by decide
  have hnat (x : Word) : (x.reg i).val = ((x >>> i) &&& 0xF).toNat := by
    rw [toNat_and_mask hmask]
    show (x >>> i).toNat % 16 = _
    omega
  apply Fin.ext
  rw [hnat, hnat]
  exact congrArg UInt32.toNat h

theorem toNat_field_three_lt (w i : Word) : (w.field i 3).toNat < 8 := by
  unfold field
  rw [UInt32.toNat_and]
  exact Nat.lt_succ_of_le Nat.and_le_right

theorem val_lowReg (w i : Word) : (w.lowReg i).val = (w.field i 3).toNat :=
  Nat.mod_eq_of_lt (Nat.lt_trans (toNat_field_three_lt w i) (by decide))

/-- A register named by three bits is one of `r0`-`r7`. -/
theorem val_lowReg_lt (w i : Word) : (w.lowReg i).val < 8 := by
  rw [val_lowReg]
  exact toNat_field_three_lt w i

end Handheld.Word
