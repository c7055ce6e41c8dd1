import Handheld.Proofs.Word.Field

/-!
# Words bit by bit

Two words are equal when their 32 bits are.  A shift or rotation by less than 32 places moves bits
about; this file says where each bit of the result comes from.
-/

namespace Handheld.Word

theorem testBit_of_le (w : Word) {k : Nat} (hk : 32 ≤ k) : w.toNat.testBit k = false := by
  have hpow : 2 ^ 32 ≤ 2 ^ k := Nat.pow_le_pow_right (by decide) hk
  exact Nat.testBit_lt_two_pow (Nat.lt_of_lt_of_le w.toNat_lt hpow)

theorem eq_of_testBit {v w : Word} (hbit : ∀ k < 32, v.toNat.testBit k = w.toNat.testBit k) :
    v = w := by
  apply UInt32.toNat_inj.1
  apply Nat.eq_of_testBit_eq
  intro k
  by_cases hk : k < 32
  · exact hbit k hk
  · rw [testBit_of_le v (Nat.le_of_not_lt hk), testBit_of_le w (Nat.le_of_not_lt hk)]

theorem testBit_not (w : Word) {k : Nat} (hk : k < 32) :
    (~~~w).toNat.testBit k = !w.toNat.testBit k := by
  rw [← UInt32.toNat_toBitVec, ← UInt32.toNat_toBitVec, BitVec.testBit_toNat, BitVec.testBit_toNat]
  simp [hk]

theorem testBit_or (v w : Word) (k : Nat) :
    (v ||| w).toNat.testBit k = (v.toNat.testBit k || w.toNat.testBit k) := by
  rw [UInt32.toNat_or, Nat.testBit_or]

theorem testBit_shiftLeft (w : Word) {n : Word} (hn : n.toNat < 32) {k : Nat} (hk : k < 32) :
    (w <<< n).toNat.testBit k = (decide (n.toNat ≤ k) && w.toNat.testBit (k - n.toNat)) := by
  rw [UInt32.toNat_shiftLeft, Nat.mod_eq_of_lt hn, Nat.testBit_mod_two_pow, Nat.testBit_shiftLeft]
  simp [hk]

theorem testBit_shiftRight (w : Word) {n : Word} (hn : n.toNat < 32) (k : Nat) :
    (w >>> n).toNat.testBit k = w.toNat.testBit (k + n.toNat) := by
  rw [UInt32.toNat_shiftRight, Nat.mod_eq_of_lt hn, Nat.testBit_shiftRight, Nat.add_comm]

/-- Beyond its top bit a number goes on with copies of it. -/
theorem testBit_shiftRightSigned (w : Word) {n : Word} (hn : n.toNat < 32) {k : Nat}
    (hk : k < 32) :
    (w.shiftRightSigned n).toNat.testBit k = w.toNat.testBit (min (k + n.toNat) 31) := by
  have hsign : w.bit 31 = w.toNat.testBit 31 := bit_eq_testBit (by decide) w
  unfold shiftRightSigned
  by_cases hinside : k + n.toNat < 32
  · rw [Nat.min_eq_left (by omega)]
    split
    · rw [testBit_not _ hk, testBit_shiftRight _ hn, testBit_not w hinside, Bool.not_not]
    · exact testBit_shiftRight w hn k
  · rw [Nat.min_eq_right (by omega)]
    -- The bit that is moved here is above the top one.
    split
    next h =>
      rw [testBit_not _ hk, testBit_shiftRight _ hn, testBit_of_le _ (by omega), ← hsign, h]
      rfl
    next h =>
      rw [testBit_shiftRight w hn, testBit_of_le w (by omega), ← hsign]
      exact (Bool.eq_false_iff.2 h).symm

theorem testBit_rotateRight (w : Word) {n : Word} (hn : n.toNat < 32) {k : Nat} (hk : k < 32) :
    (w.rotateRight n).toNat.testBit k = w.toNat.testBit ((k + n.toNat) % 32) := by
  unfold rotateRight
  by_cases hzero : n = 0
  · subst hzero
    show ((w >>> 0) ||| (w <<< 32)).toNat.testBit k = w.toNat.testBit ((k + 0) % 32)
    have hback : (w <<< (32 : Word)) = w <<< 0 := rfl
    rw [hback, UInt32.shiftRight_zero, UInt32.shiftLeft_zero, testBit_or, Bool.or_self,
      Nat.add_zero, Nat.mod_eq_of_lt hk]
  · have hpos : 0 < n.toNat := Nat.pos_of_ne_zero fun h => hzero (UInt32.toNat_inj.1 h)
    have hrest : (32 - n).toNat = 32 - n.toNat :=
      UInt32.toNat_sub_of_le _ _ (UInt32.le_iff_toNat_le.2 (Nat.le_of_lt hn))
    rw [testBit_or, testBit_shiftRight w hn, testBit_shiftLeft w (by omega) hk, hrest]
    by_cases hinside : k + n.toNat < 32
    · rw [Nat.mod_eq_of_lt hinside, decide_eq_false (by omega), Bool.false_and, Bool.or_false]
    · have hwrapped : (k + n.toNat) % 32 = k - (32 - n.toNat) := by omega
      rw [testBit_of_le w (by omega), Bool.false_or, decide_eq_true (by omega), Bool.true_and,
        hwrapped]

end Handheld.Word
