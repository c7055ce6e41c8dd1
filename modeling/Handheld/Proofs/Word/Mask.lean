import Handheld.Word
import Mathlib.Data.Nat.Bitwise

/-!
# Masks

A mask is a set of bits of a word.  The status words are read and written through masks, so the laws
of this file say when two masked accesses meet and when they pass each other by.  Each is settled
bit by bit: two words are equal when their bits are.
-/

namespace Handheld.Word

/-! ## 1. Masks that share no bit -/

/-- A bit of one mask is no bit of a mask that shares none with it. -/
theorem getElem_eq_false_of_and_eq_zero {m n : Word} (h : m &&& n = 0) {i : Nat} (hi : i < 32)
    (hm : m.toBitVec[i] = true) : n.toBitVec[i] = false := by
  have hbit := congrArg (fun w : Word => w.toBitVec[i]) h
  simpa [hm] using hbit

theorem or_and_of_disjoint {m n : Word} (h : m &&& n = 0) (w : Word) :
    (w ||| m) &&& n = w &&& n := by
  apply UInt32.toBitVec_inj.1
  ext i hi
  -- Where `m` has the bit, `n` reads nothing.
  cases hm : m.toBitVec[i] with
  | false => simp [hm]
  | true => simp [getElem_eq_false_of_and_eq_zero h hi hm]

theorem and_not_and_of_disjoint {m n : Word} (h : m &&& n = 0) (w : Word) :
    w &&& ~~~m &&& n = w &&& n := by
  apply UInt32.toBitVec_inj.1
  ext i hi
  cases hm : m.toBitVec[i] with
  | false => simp [hm]
  | true => simp [getElem_eq_false_of_and_eq_zero h hi hm]

theorem or_and_self (w m : Word) : (w ||| m) &&& m = m := by
  apply UInt32.toBitVec_inj.1
  ext i hi
  cases hm : m.toBitVec[i] <;> simp [hm]

/-- Setting the bits of one mask and clearing those of another can be done in either order. -/
theorem or_and_not_comm {m n : Word} (h : m &&& n = 0) (w : Word) :
    (w ||| m) &&& ~~~n = w &&& ~~~n ||| m := by
  apply UInt32.toBitVec_inj.1
  ext i hi
  cases hm : m.toBitVec[i] with
  | false => simp [hm]
  | true => simp [hm, getElem_eq_false_of_and_eq_zero h hi hm]

theorem and_or_left (w m n : Word) : w &&& (m ||| n) = (w &&& m) ||| (w &&& n) :=
  UInt32.toBitVec_inj.1 BitVec.and_or_distrib_left

/-- Inside the mask an overlay reads as what was laid over. -/
theorem overlay_and_self (w m v : Word) : w.overlay m v &&& m = v &&& m := by
  apply UInt32.toBitVec_inj.1
  ext i hi
  cases hm : m.toBitVec[i] <;> simp [overlay, hm]

/-- Outside the mask it reads as before. -/
theorem overlay_and_of_disjoint {m n : Word} (h : m &&& n = 0) (w v : Word) :
    w.overlay m v &&& n = w &&& n := by
  apply UInt32.toBitVec_inj.1
  ext i hi
  cases hm : m.toBitVec[i] with
  | false => simp [overlay, hm]
  | true => simp [overlay, getElem_eq_false_of_and_eq_zero h hi hm]

/-! ## 2. Masks of one bit -/

theorem ne_zero_of_twoPow {m : Word} {k : Nat} (hk : m.toNat = 2 ^ k) : m ≠ 0 := by
  rintro rfl
  exact absurd hk.symm (Nat.two_pow_pos k).ne'

/-- A mask of one bit is met in full or not at all. -/
theorem and_twoPow (w : Word) {m : Word} {k : Nat} (hk : m.toNat = 2 ^ k) :
    w &&& m = 0 ∨ w &&& m = m := by
  have hand : (w &&& m).toNat = (w.toNat.testBit k).toNat * 2 ^ k := by
    rw [UInt32.toNat_and, hk, Nat.and_two_pow]
  cases hb : w.toNat.testBit k with
  | false =>
    left
    apply UInt32.toNat_inj.1
    simp [hand, hb]
  | true =>
    right
    apply UInt32.toNat_inj.1
    simp [hand, hb, hk]

/-- A test under a mask leaves two values for the mask with one bit more. -/
theorem and_insert_bit {w m v b : Word} {k : Nat} (h : w &&& m = v) (hb : b.toNat = 2 ^ k) :
    w &&& (m ||| b) = v ∨ w &&& (m ||| b) = v ||| b := by
  rw [and_or_left, h]
  rcases and_twoPow w hb with hbit | hbit
  · exact .inl (by rw [hbit, UInt32.or_zero])
  · exact .inr (by rw [hbit])

theorem or_eq_self_of_and_eq {w m : Word} (h : w &&& m = m) : w ||| m = w := by
  rw [← h]
  apply UInt32.toBitVec_inj.1
  ext i hi
  cases hw : w.toBitVec[i] <;> simp [hw]

theorem and_not_eq_self_of_and_eq_zero {w m : Word} (h : w &&& m = 0) : w &&& ~~~m = w := by
  apply UInt32.toBitVec_inj.1
  ext i hi
  cases hw : w.toBitVec[i] with
  | false => simp [hw]
  | true => simp [hw, getElem_eq_false_of_and_eq_zero h hi hw]

/-! ## 3. Masks bit by bit -/

theorem testBit_and_of_set {m : Word} {i : Nat} (hi : m.toNat.testBit i = true) (w : Word) :
    (w &&& m).toNat.testBit i = w.toNat.testBit i := by
  rw [UInt32.toNat_and, Nat.testBit_and, hi, Bool.and_true]

/-- Words that agree under a mask agree in each of its bits. -/
theorem testBit_eq_of_and_eq {w v m : Word} {i : Nat} (h : w &&& m = v &&& m)
    (hi : m.toNat.testBit i = true) : w.toNat.testBit i = v.toNat.testBit i := by
  rw [← testBit_and_of_set hi w, h, testBit_and_of_set hi v]

theorem testBit_overlay_of_clear {m : Word} {i : Nat} (h32 : i < 32)
    (hi : m.toNat.testBit i = false) (w v : Word) :
    (w.overlay m v).toNat.testBit i = w.toNat.testBit i := by
  have hm : m.toBitVec[i] = false := by
    rw [← BitVec.getLsbD_eq_getElem h32, ← BitVec.testBit_toNat]
    exact hi
  rw [← UInt32.toNat_toBitVec, ← UInt32.toNat_toBitVec, BitVec.testBit_toNat, BitVec.testBit_toNat]
  simp [overlay, h32, hm]

/-- A test under a mask of one bit tests that bit. -/
theorem and_bne_zero (w : Word) {m : Word} {k : Nat} (hk : m.toNat = 2 ^ k) :
    (w &&& m != 0) = w.toNat.testBit k := by
  have hbit : (w &&& m).toNat.testBit k = w.toNat.testBit k :=
    testBit_and_of_set (by rw [hk, Nat.testBit_two_pow_self]) w
  rw [← hbit]
  rcases and_twoPow w hk with h | h
  · simp [h]
  · simp [h, ne_zero_of_twoPow hk, hk, Nat.testBit_two_pow_self]

end Handheld.Word
