import Handheld.Alu
import Handheld.Proofs.Word.Bits

/-!
# The adder as arithmetic

Results of the adder are sums and differences modulo `2 ^ 32`.  The carry and the overflow say how
the exact result, on operands read as unsigned and as signed numbers, differs from that.
-/

namespace Handheld

/-! ## 1. Signed words -/

namespace Word

/-- The two's complement number that a word stands for. -/
def signed (w : Word) : Int := w.toInt32.toInt

theorem signed_eq (w : Word) :
    w.signed = if w.toNat < 2 ^ 31 then (w.toNat : Int) else (w.toNat : Int) - 2 ^ 32 := by
  show w.toBitVec.toInt = _
  rw [BitVec.toInt_eq_toNat_cond, UInt32.toNat_toBitVec]
  split <;> split <;> omega

theorem signed_not (w : Word) : (~~~w).signed = -1 - w.signed := by
  have hlt := w.toNat_lt
  have hnot : (~~~w).toNat = 2 ^ 32 - 1 - w.toNat := UInt32.toNat_not w
  -- One of the two is in the upper half, the other in the lower.
  rw [signed_eq, signed_eq, hnot]
  split <;> split <;> omega

theorem testBit_top (w : Word) : w.toNat.testBit 31 = decide (2 ^ 31 ≤ w.toNat) := by
  have hlt := w.toNat_lt
  rw [Nat.testBit_eq_decide_div_mod_eq]
  apply decide_eq_decide.2
  omega

end Word

/-! ## 2. Sums and differences of words -/

namespace Alu

theorem value_add (a b : Word) (carry : Bool) :
    (add a b carry).value = a + b + carry.toUInt32 := by
  apply UInt32.toNat_inj.1
  cases carry <;> simp [add, Bool.toUInt32, Bool.toUInt64]

/-- A subtraction adds the complement and one. -/
theorem value_sub (a b : Word) : (sub a b true).value = a - b := by
  unfold sub
  rw [value_add, UInt32.sub_eq_add_neg]
  show a + ~~~b + 1 = a + -b
  rw [UInt32.neg_eq_not_add, UInt32.add_assoc]

theorem toNat_value_add (a b : Word) (c : Bool) :
    (add a b c).value.toNat = (a.toNat + b.toNat + c.toNat) % 2 ^ 32 := by
  rw [value_add, UInt32.toNat_add, UInt32.toNat_add]
  cases c <;> simp [Bool.toUInt32]

theorem carry_add (a b : Word) (c : Bool) :
    (add a b c).carry = decide (2 ^ 32 ≤ a.toNat + b.toNat + c.toNat) := by
  have ha := a.toNat_lt
  have hb := b.toNat_lt
  have hc := Bool.toNat_lt c
  -- The sum that the carry is read off has 64 bits, so it does not wrap.
  have hwide : (a.toUInt64 + b.toUInt64 + c.toUInt64).toNat = a.toNat + b.toNat + c.toNat := by
    have hcarry : c.toUInt64.toNat = c.toNat := by cases c <;> rfl
    rw [UInt64.toNat_add, UInt64.toNat_add, UInt32.toNat_toUInt64, UInt32.toNat_toUInt64, hcarry]
    omega
  show decide (0xFFFFFFFF < a.toUInt64 + b.toUInt64 + c.toUInt64) = _
  apply decide_eq_decide.2
  rw [UInt64.lt_iff_toNat_lt, hwide]
  show 0xFFFFFFFF < _ ↔ _
  omega

/-- Overflow by the three signs: the operands have one that the result does not have. -/
theorem overflow_add (a b : Word) (c : Bool) :
    (add a b c).overflow =
      ((a.toNat.testBit 31 == b.toNat.testBit 31) &&
        (a.toNat.testBit 31 != (add a b c).value.toNat.testBit 31)) := by
  show Word.bit (~~~(a ^^^ b) &&& (a ^^^ (add a b c).value)) 31 = _
  rw [Word.bit_eq_testBit (by decide), UInt32.toNat_and, Nat.testBit_and]
  show ((~~~(a ^^^ b)).toNat.testBit 31 && (a ^^^ (add a b c).value).toNat.testBit 31) = _
  rw [Word.testBit_not _ (by decide), UInt32.toNat_xor, Nat.testBit_xor, UInt32.toNat_xor,
    Nat.testBit_xor]
  cases a.toNat.testBit 31 <;> cases b.toNat.testBit 31 <;> rfl

end Alu

/-! ## 3. Exact results -/

/-- What an exact result leaves in a word and two flags.  On operands read as unsigned numbers the
result is `u`, and the carry tells whether it reaches `bound`; on operands read as signed numbers it
is `s`. -/
structure AluResult.IsExact (r : AluResult) (u s bound : Int) : Prop where
  value : (r.value.toNat : Int) = u % 2 ^ 32
  carry : r.carry = decide (bound ≤ u)
  overflow : r.overflow = decide (s < -2 ^ 31 ∨ 2 ^ 31 ≤ s)

namespace AluResult.IsExact

variable {r : AluResult} {u s bound : Int}

theorem value_eq (h : r.IsExact u s bound) : r.value = UInt32.ofInt u := by
  have hvalue := h.value
  show r.value = UInt32.ofNat (u % 2 ^ 32).toNat
  rw [← hvalue, Int.toNat_natCast, UInt32.ofNat_toNat]

theorem zero (h : r.IsExact u s bound) : (r.value == 0) = decide (u % 2 ^ 32 = 0) := by
  rw [Bool.eq_iff_iff, beq_iff_eq, decide_eq_true_iff, ← UInt32.toNat_inj, UInt32.toNat_zero,
    ← h.value]
  omega

theorem negative (h : r.IsExact u s bound) :
    r.value.bit 31 = decide (2 ^ 31 ≤ u % 2 ^ 32) := by
  rw [Word.bit_eq_testBit (by decide)]
  show r.value.toNat.testBit 31 = _
  rw [Word.testBit_top, ← h.value]
  apply decide_eq_decide.2
  omega

end AluResult.IsExact

namespace Alu

theorem isExact_add (a b : Word) (c : Bool) :
    (add a b c).IsExact (a.toNat + b.toNat + c.toNat) (a.signed + b.signed + c.toNat) (2 ^ 32) := by
  have hvalue := toNat_value_add a b c
  refine ⟨by omega, ?_, ?_⟩
  · rw [carry_add]
    apply decide_eq_decide.2
    omega
  -- A sum of two numbers of different sign is in range, and one of two of a sign is so when it
  -- keeps the sign.
  · have ha := a.toNat_lt
    have hb := b.toNat_lt
    have hc := Bool.toNat_lt c
    rw [overflow_add, Word.testBit_top, Word.testBit_top, Word.testBit_top, hvalue, Word.signed_eq,
      Word.signed_eq, Bool.eq_iff_iff]
    simp only [Bool.and_eq_true, beq_iff_eq, bne_iff_ne, ne_eq, decide_eq_decide,
      decide_eq_true_iff]
    split <;> split <;> omega

theorem isExact_add_false (a b : Word) :
    (add a b false).IsExact (a.toNat + b.toNat) (a.signed + b.signed) (2 ^ 32) := by
  simpa using isExact_add a b false

theorem isExact_sub (a b : Word) (c : Bool) :
    (sub a b c).IsExact (a.toNat - b.toNat - (1 - c.toNat)) (a.signed - b.signed - (1 - c.toNat))
      0 := by
  -- The complement stands for `-1 - b`, so a clear carry takes one off.  As an unsigned number it
  -- is `2 ^ 32` more than that, so the carry of the sum tells whether the difference reaches zero.
  have hsum := isExact_add a (~~~b) c
  have hlt := b.toNat_lt
  have hnot : (~~~b).toNat = 2 ^ 32 - 1 - b.toNat := UInt32.toNat_not b
  have hsigned := Word.signed_not b
  refine ⟨?_, ?_, ?_⟩
  · rw [sub, hsum.value]
    omega
  · rw [sub, hsum.carry]
    apply decide_eq_decide.2
    omega
  · rw [sub, hsum.overflow]
    apply decide_eq_decide.2
    omega

theorem isExact_sub_true (a b : Word) :
    (sub a b true).IsExact (a.toNat - b.toNat) (a.signed - b.signed) 0 := by
  simpa using isExact_sub a b true

end Alu

end Handheld
