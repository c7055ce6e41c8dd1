import Handheld.Word
import Mathlib.Data.Nat.Bitwise

/-!
# Bits of a halfword

The console's registers are halfwords whose bits mean one thing each.  They are compared bit by bit,
and a byte written to one of the two addresses of a halfword is eight of its bits.
-/

namespace Handheld.Half

/-! ## 1. Masks -/

theorem testBit_not (h : Half) {k : Nat} (hk : k < 16) :
    (~~~h).toNat.testBit k = !h.toNat.testBit k := by
  rw [← UInt16.toNat_toBitVec, ← UInt16.toNat_toBitVec, BitVec.testBit_toNat, BitVec.testBit_toNat]
  simp [hk]

/-- A test under a mask of one bit tests that bit. -/
theorem and_bne_zero (h : Half) {m : Half} {k : Nat} (hk : m.toNat = 2 ^ k) :
    (h &&& m != 0) = h.toNat.testBit k := by
  have hand : (h &&& m).toNat = (h.toNat.testBit k).toNat * 2 ^ k := by
    rw [UInt16.toNat_and, hk, Nat.and_two_pow]
  rw [Bool.eq_iff_iff, bne_iff_ne, ne_eq, ← UInt16.toNat_inj, hand]
  cases h.toNat.testBit k <;> simp

theorem testBit_ite (c : Prop) [Decidable c] {mask : Half} {j : Nat} (hmask : mask.toNat = 2 ^ j)
    (k : Nat) : (if c then mask else 0).toNat.testBit k = true ↔ c ∧ j = k := by
  by_cases h : c
  · rw [if_pos h, hmask, Nat.testBit_two_pow, decide_eq_true_iff, and_iff_right h]
  · rw [if_neg h]
    simp [h]

theorem testBit_of_le (h : Half) {k : Nat} (hk : 16 ≤ k) : h.toNat.testBit k = false := by
  have hpow : 2 ^ 16 ≤ 2 ^ k := Nat.pow_le_pow_right (by decide) hk
  exact Nat.testBit_lt_two_pow (Nat.lt_of_lt_of_le h.toNat_lt hpow)

theorem eq_of_testBit {g h : Half} (hbit : ∀ k < 16, g.toNat.testBit k = h.toNat.testBit k) :
    g = h := by
  apply UInt16.toNat_inj.1
  apply Nat.eq_of_testBit_eq
  intro k
  by_cases hk : k < 16
  · exact hbit k hk
  · rw [testBit_of_le g (Nat.le_of_not_lt hk), testBit_of_le h (Nat.le_of_not_lt hk)]

theorem and_ne_zero_iff (g h : Half) :
    g &&& h ≠ 0 ↔ ∃ k < 16, g.toNat.testBit k = true ∧ h.toNat.testBit k = true := by
  constructor
  · intro hne
    by_contra hnone
    apply hne
    apply eq_of_testBit
    intro k hk
    rw [UInt16.toNat_and, Nat.testBit_and, UInt16.toNat_zero, Nat.zero_testBit,
      Bool.and_eq_false_iff]
    by_contra hboth
    rw [not_or, Bool.not_eq_false, Bool.not_eq_false] at hboth
    exact hnone ⟨k, hk, hboth⟩
  · rintro ⟨k, -, hg, hh⟩ hzero
    have hbit := congrArg (fun w : Half => w.toNat.testBit k) hzero
    simp [hg, hh] at hbit

/-! ## 2. Bytes -/

theorem testBit_ofBytes (lo hi : Byte) (k : Nat) :
    (ofBytes lo hi).toNat.testBit k =
      if k < 8 then lo.toNat.testBit k else hi.toNat.testBit (k - 8) := by
  have hlo : lo.toNat < 2 ^ 8 := lo.toNat_lt
  rw [toNat_ofBytes, Nat.add_comm]
  exact Nat.testBit_two_pow_mul_add hi.toNat hlo k

theorem testBit_low (h : Half) {k : Nat} (hk : k < 8) :
    h.low.toNat.testBit k = h.toNat.testBit k := by
  have hsplit := testBit_ofBytes h.low h.high k
  rw [ofBytes_low_high, if_pos hk] at hsplit
  exact hsplit.symm

theorem testBit_high (h : Half) {k : Nat} (hk : 8 ≤ k) :
    h.high.toNat.testBit (k - 8) = h.toNat.testBit k := by
  have hsplit := testBit_ofBytes h.low h.high k
  rw [ofBytes_low_high, if_neg (by omega)] at hsplit
  exact hsplit.symm

theorem withByteAt_even {a : Word} (ha : a.bit 0 = false) (h : Half) (v : Byte) :
    h.withByteAt a v = ofBytes v h.high := by
  unfold withByteAt
  rw [ha, if_neg (by decide)]

theorem withByteAt_odd {a : Word} (ha : a.bit 0 = true) (h : Half) (v : Byte) :
    h.withByteAt a v = ofBytes h.low v := by
  unfold withByteAt
  rw [if_pos ha]

/-! ## 3. The byte at an address -/

theorem high_not (h : Half) : (~~~h).high = ~~~h.high := by
  apply UInt8.toNat_inj.1
  have hlt := h.toNat_lt
  simp [high, Nat.shiftRight_eq_div_pow]
  omega

theorem toUInt16_high (h : Half) : h.high.toUInt16 = h >>> 8 := by
  apply UInt16.toNat_inj.1
  have hlt := h.toNat_lt
  simp [high, Nat.shiftRight_eq_div_pow]
  omega

theorem byteAt_and (g h : Half) (a : Word) : (g &&& h).byteAt a = g.byteAt a &&& h.byteAt a := by
  unfold byteAt low high
  split
  · rw [UInt16.shiftRight_and, UInt16.toUInt8_and]
  · rw [UInt16.toUInt8_and]

theorem byteAt_or (g h : Half) (a : Word) : (g ||| h).byteAt a = g.byteAt a ||| h.byteAt a := by
  unfold byteAt low high
  split
  · rw [UInt16.shiftRight_or, UInt16.toUInt8_or]
  · rw [UInt16.toUInt8_or]

theorem byteAt_not (h : Half) (a : Word) : (~~~h).byteAt a = ~~~h.byteAt a := by
  unfold byteAt
  split
  · exact high_not h
  · exact UInt16.toUInt8_not h

theorem byteAt_withByteAt (h : Half) (a b : Word) (v : Byte) :
    (h.withByteAt a v).byteAt b = if b.bit 0 = a.bit 0 then v else h.byteAt b := by
  unfold withByteAt byteAt
  cases a.bit 0 <;> cases b.bit 0 <;> simp

theorem byteAt_congr {a b : Word} (h : b.bit 0 = a.bit 0) (g : Half) : g.byteAt b = g.byteAt a := by
  unfold byteAt
  rw [h]

/-- A byte is what a mask keeps of it and what it takes away. -/
theorem and_not_or_and (v mask : Byte) : (v &&& ~~~mask) ||| (v &&& mask) = v := by
  apply UInt8.toBitVec_inj.1
  ext i hi
  cases hm : mask.toBitVec[i] <;> simp [hm]

end Handheld.Half
