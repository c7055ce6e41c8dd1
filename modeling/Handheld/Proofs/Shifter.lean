import Handheld.Proofs.Word.Bits
import Handheld.Shifter
import Mathlib.Logic.Function.Iterate

/-!
# The barrel shifter as a shifter of one place

The plainest shifter moves a word by one place at a time and keeps the bit that falls out as its
carry.  The barrel shifter moves by any amount at once, and takes another branch where the amount is
32 or more.  Both are compared bit by bit: each bit of a moved word is a bit of the old one, and the
carry is the last bit that fell out.
-/

namespace Handheld

namespace Shifted

/-! ## 1. The shifter of one place -/

/-- Move by one place.  The bit that falls out is the carry; a rotation also brings it back in. -/
def step : ShiftKind → Shifted → Shifted
  | .lsl, s => ⟨s.value <<< 1, s.value.bit 31⟩
  | .lsr, s => ⟨s.value >>> 1, s.value.bit 0⟩
  | .asr, s => ⟨(s.value >>> 1) ||| (s.value &&& 0x80000000), s.value.bit 0⟩
  | .ror, s => ⟨(s.value >>> 1) ||| (s.value <<< 31), s.value.bit 0⟩

/-- The 33 bits of a word with its carry on top. -/
def wide (s : Shifted) : Nat := 2 ^ 32 * s.carry.toNat + s.value.toNat

def ofWide (n : Nat) : Shifted := ⟨UInt32.ofNat n, n.testBit 32⟩

/-- Rotate the 33 bits right by one place. -/
def rotateWide (s : Shifted) : Shifted := ofWide (s.wide / 2 + 2 ^ 32 * (s.wide % 2))

/-- What an amount `n` in an opcode stands for: `n` steps, but 32 of them or a rotation of all 33
bits where no step would be of no use. -/
def moveByField (kind : ShiftKind) (n : Nat) (s : Shifted) : Shifted :=
  match kind, n with
  | .lsr, 0 => (step .lsr)^[32] s
  | .asr, 0 => (step .asr)^[32] s
  | .ror, 0 => s.rotateWide
  | kind, n => (step kind)^[n] s

/-! ## 2. Where a bit comes from -/

/-- Bit `i` of a word that was moved by `n` places. -/
def movedBit (kind : ShiftKind) (w : Word) (n i : Nat) : Bool :=
  match kind with
  | .lsl => decide (n ≤ i) && w.toNat.testBit (i - n)
  | .lsr => w.toNat.testBit (i + n)
  | .asr => w.toNat.testBit (min (i + n) 31)
  | .ror => w.toNat.testBit ((i + n) % 32)

/-- The place at which bits fall out. -/
def exit : ShiftKind → Nat
  | .lsl => 31
  | _ => 0

theorem exit_lt (kind : ShiftKind) : exit kind < 32 := by cases kind <;> decide

theorem movedBit_zero (kind : ShiftKind) (w : Word) {i : Nat} (hi : i < 32) :
    movedBit kind w 0 i = w.toNat.testBit i := by
  cases kind with
  | lsl => simp [movedBit]
  | lsr => rfl
  | asr => exact congrArg w.toNat.testBit (Nat.min_eq_left (by omega))
  | ror => exact congrArg w.toNat.testBit (Nat.mod_eq_of_lt hi)

theorem testBit_step (kind : ShiftKind) (s : Shifted) {i : Nat} (hi : i < 32) :
    (step kind s).value.toNat.testBit i = movedBit kind s.value 1 i := by
  have hright : (s.value >>> 1).toNat.testBit i = s.value.toNat.testBit (i + 1) :=
    Word.testBit_shiftRight s.value (by decide) i
  cases kind with
  | lsl => exact Word.testBit_shiftLeft s.value (by decide) hi
  | lsr => exact hright
  | asr =>
    have hmask : (0x80000000 : Word).toNat = 2 ^ 31 := rfl
    show ((s.value >>> 1) ||| (s.value &&& 0x80000000)).toNat.testBit i = _
    rw [Word.testBit_or, hright, UInt32.toNat_and, hmask, Nat.testBit_and, Nat.testBit_two_pow]
    -- The top bit stays, and moves as well.
    by_cases htop : i = 31
    · subst htop
      rw [Word.testBit_of_le s.value (by decide)]
      simp [movedBit]
    · rw [decide_eq_false (Ne.symm htop), Bool.and_false, Bool.or_false]
      exact congrArg s.value.toNat.testBit (Nat.min_eq_left (by omega)).symm
  | ror => exact Word.testBit_rotateRight s.value (by decide) hi

theorem carry_step (kind : ShiftKind) (s : Shifted) :
    (step kind s).carry = s.value.toNat.testBit (exit kind) := by
  cases kind <;> exact Word.bit_eq_testBit (by decide) s.value

/-- Moving by `n` places and by one more. -/
theorem movedBit_succ {kind : ShiftKind} {v w : Word} {n : Nat}
    (hv : ∀ i < 32, v.toNat.testBit i = movedBit kind w n i) {i : Nat} (hi : i < 32) :
    movedBit kind v 1 i = movedBit kind w (n + 1) i := by
  cases kind with
  | lsl =>
    cases i with
    | zero => rfl
    | succ i =>
      have hbit : v.toNat.testBit i = (decide (n ≤ i) && w.toNat.testBit (i - n)) := hv i (by omega)
      simp [movedBit, hbit]
  | lsr =>
    show v.toNat.testBit (i + 1) = w.toNat.testBit (i + (n + 1))
    by_cases htop : i = 31
    · rw [Word.testBit_of_le v (by omega), Word.testBit_of_le w (by omega)]
    · rw [hv (i + 1) (by omega)]
      exact congrArg w.toNat.testBit (by omega)
  | asr =>
    show v.toNat.testBit (min (i + 1) 31) = w.toNat.testBit (min (i + (n + 1)) 31)
    rw [hv (min (i + 1) 31) (by omega)]
    exact congrArg w.toNat.testBit (by omega)
  | ror =>
    show v.toNat.testBit ((i + 1) % 32) = w.toNat.testBit ((i + (n + 1)) % 32)
    rw [hv ((i + 1) % 32) (Nat.mod_lt _ (by decide))]
    exact congrArg w.toNat.testBit (by omega)

/-! ## 3. Many steps -/

theorem testBit_steps (kind : ShiftKind) (n : Nat) (s : Shifted) :
    ∀ i < 32, ((step kind)^[n] s).value.toNat.testBit i = movedBit kind s.value n i := by
  induction n with
  | zero =>
    intro i hi
    exact (movedBit_zero kind s.value hi).symm
  | succ n ih =>
    intro i hi
    rw [Function.iterate_succ_apply', testBit_step kind _ hi, movedBit_succ ih hi]

/-- The carry is the bit that the last step let fall out. -/
theorem carry_steps (kind : ShiftKind) (n : Nat) (s : Shifted) :
    ((step kind)^[n + 1] s).carry = movedBit kind s.value n (exit kind) := by
  rw [Function.iterate_succ_apply', carry_step, testBit_steps kind n s _ (exit_lt kind)]

/-- What has the bits and the carry of `n + 1` steps is the result of `n + 1` steps. -/
theorem eq_steps {kind : ShiftKind} {n : Nat} {r : Shifted} {w : Word} (carry : Bool)
    (hvalue : ∀ i < 32, r.value.toNat.testBit i = movedBit kind w (n + 1) i)
    (hcarry : r.carry = movedBit kind w n (exit kind)) :
    r = (step kind)^[n + 1] ⟨w, carry⟩ := by
  have hword : r.value = ((step kind)^[n + 1] ⟨w, carry⟩).value := by
    apply Word.eq_of_testBit
    intro i hi
    rw [hvalue i hi, testBit_steps kind (n + 1) ⟨w, carry⟩ i hi]
  have hbit : r.carry = ((step kind)^[n + 1] ⟨w, carry⟩).carry := by rw [hcarry, carry_steps]
  show (⟨r.value, r.carry⟩ : Shifted) = _
  rw [hword, hbit]

end Shifted

namespace Shifter

open Shifted

/-! ## 4. The barrel shifter -/

variable (w : Word) (carry : Bool) {n : Word} {k : Nat}

/-- The bit that is the last to leave at the low end. -/
theorem bit_pred (hlt : n.toNat < 32) (hn : n.toNat = k + 1) :
    w.bit (n - 1) = w.toNat.testBit (0 + k) := by
  have hone : (1 : Word) ≤ n := UInt32.le_iff_toNat_le.2 (show 1 ≤ n.toNat by omega)
  have hpred : (n - 1).toNat = k := by
    rw [UInt32.toNat_sub_of_le _ _ hone, hn]
    rfl
  rw [Word.bit_eq_testBit (by omega), hpred, Nat.zero_add]

/-- Once every bit has left the word is zero.  The carry is the last of them if that is the one that
left just now. -/
theorem cleared_eq_steps {kind : ShiftKind} {last : Bool} (hn : n.toNat = k + 1)
    (hcleared : ∀ i < 32, movedBit kind w (k + 1) i = false)
    (hlast : movedBit kind w 31 (exit kind) = last)
    (hgone : k ≠ 31 → movedBit kind w k (exit kind) = false) :
    (if n = 32 then ⟨0, last⟩ else ⟨0, false⟩) = (step kind)^[k + 1] ⟨w, carry⟩ := by
  have hzero : ∀ i < 32, (0 : Word).toNat.testBit i = movedBit kind w (k + 1) i := by
    intro i hi
    rw [hcleared i hi]
    exact Nat.zero_testBit i
  by_cases hall : n = 32
  · obtain rfl : k = 31 := by
      rw [hall] at hn
      exact (Nat.succ.inj hn).symm
    rw [if_pos hall]
    exact eq_steps carry hzero hlast.symm
  · have hk : k ≠ 31 := by
      rintro rfl
      exact hall (UInt32.toNat_inj.1 hn)
    rw [if_neg hall]
    exact eq_steps carry hzero (hgone hk).symm

theorem shiftLeft_eq_steps (hn : n.toNat = k + 1) :
    shiftLeft w n = (step .lsl)^[k + 1] ⟨w, carry⟩ := by
  unfold shiftLeft
  by_cases hlt : n < 32
  · have hlt' : n.toNat < 32 := UInt32.lt_iff_toNat_lt.1 hlt
    have hlast : (32 - n).toNat = 31 - k := by
      rw [UInt32.toNat_sub_of_le _ _ (UInt32.le_iff_toNat_le.2 (Nat.le_of_lt hlt'))]
      show 32 - n.toNat = 31 - k
      omega
    rw [if_pos hlt]
    apply eq_steps
    · intro i hi
      rw [Word.testBit_shiftLeft w hlt' hi, hn]
      rfl
    · show w.bit (32 - n) = (decide (k ≤ 31) && w.toNat.testBit (31 - k))
      rw [Word.bit_eq_testBit (by omega), hlast, decide_eq_true (by omega), Bool.true_and]
  · have hge : 32 ≤ n.toNat := Nat.le_of_not_lt fun h => hlt (UInt32.lt_iff_toNat_lt.2 h)
    rw [if_neg hlt]
    apply cleared_eq_steps w carry hn
    · intro i hi
      show (decide (k + 1 ≤ i) && w.toNat.testBit (i - (k + 1))) = false
      rw [decide_eq_false (by omega), Bool.false_and]
    · exact (Word.bit_eq_testBit (i := 0) (by decide) w).symm
    · intro hk
      show (decide (k ≤ 31) && w.toNat.testBit (31 - k)) = false
      rw [decide_eq_false (by omega), Bool.false_and]

theorem shiftRight_eq_steps (hn : n.toNat = k + 1) :
    shiftRight w n = (step .lsr)^[k + 1] ⟨w, carry⟩ := by
  unfold shiftRight
  by_cases hlt : n < 32
  · have hlt' : n.toNat < 32 := UInt32.lt_iff_toNat_lt.1 hlt
    rw [if_pos hlt]
    apply eq_steps
    · intro i _
      rw [Word.testBit_shiftRight w hlt' i, hn]
      rfl
    · exact bit_pred w hlt' hn
  · have hge : 32 ≤ n.toNat := Nat.le_of_not_lt fun h => hlt (UInt32.lt_iff_toNat_lt.2 h)
    rw [if_neg hlt]
    apply cleared_eq_steps w carry hn
    · intro i _
      exact Word.testBit_of_le w (by omega)
    · exact (Word.bit_eq_testBit (i := 31) (by decide) w).symm
    · intro hk
      exact Word.testBit_of_le w (by omega)

theorem shiftRightSigned_eq_steps (hn : n.toNat = k + 1) :
    shiftRightSigned w n = (step .asr)^[k + 1] ⟨w, carry⟩ := by
  unfold shiftRightSigned
  by_cases hlt : n < 32
  · have hlt' : n.toNat < 32 := UInt32.lt_iff_toNat_lt.1 hlt
    rw [if_pos hlt]
    apply eq_steps
    · intro i hi
      rw [Word.testBit_shiftRightSigned w hlt' hi, hn]
      rfl
    · show w.bit (n - 1) = w.toNat.testBit (min (0 + k) 31)
      rw [Nat.min_eq_left (by omega)]
      exact bit_pred w hlt' hn
  · have hge : 32 ≤ n.toNat := Nat.le_of_not_lt fun h => hlt (UInt32.lt_iff_toNat_lt.2 h)
    -- Every bit, and the carry, is a copy of the sign.
    have hsign : w.bit 31 = w.toNat.testBit 31 := Word.bit_eq_testBit (by decide) w
    have hcopy (i : Nat) : movedBit .asr w (k + 1) i = w.bit 31 := by
      rw [hsign]
      exact congrArg w.toNat.testBit (Nat.min_eq_right (by omega))
    have hcarry : movedBit .asr w k (exit .asr) = w.bit 31 := by
      rw [hsign]
      exact congrArg w.toNat.testBit (Nat.min_eq_right (by omega))
    rw [if_neg hlt]
    split
    next h =>
      apply eq_steps
      · intro i hi
        rw [hcopy, h]
        exact Nat.testBit_two_pow_sub_one 32 i ▸ decide_eq_true hi
      · rw [hcarry, h]
    next h =>
      apply eq_steps
      · intro i _
        rw [hcopy, Bool.eq_false_iff.2 h]
        exact Nat.zero_testBit i
      · rw [hcarry, Bool.eq_false_iff.2 h]

theorem rotateRight_eq_steps (hn : n.toNat = k + 1) :
    rotateRight w n = (step .ror)^[k + 1] ⟨w, carry⟩ := by
  have hmask : (n &&& 31).toNat = (k + 1) % 32 := by
    rw [Word.toNat_and_mask (i := 0) (n := 5) rfl, hn]
    omega
  have hlt : (n &&& 31).toNat < 32 := by omega
  have hvalue : ∀ i < 32, (w.rotateRight (n &&& 31)).toNat.testBit i =
      movedBit .ror w (k + 1) i := by
    intro i hi
    rw [Word.testBit_rotateRight w hlt hi, hmask]
    exact congrArg w.toNat.testBit (by omega)
  apply eq_steps
  · exact hvalue
  -- What fell out last has come back in at the top.
  · show (w.rotateRight (n &&& 31)).bit 31 = w.toNat.testBit ((0 + k) % 32)
    rw [Word.bit_eq_testBit (by decide)]
    refine (hvalue 31 (by decide)).trans ?_
    exact congrArg w.toNat.testBit (by omega)

/-- Moving by any number of places, 32 and more among them. -/
theorem shift_eq_steps (kind : ShiftKind) (hn : n ≠ 0) :
    shift kind w n = (step kind)^[n.toNat] ⟨w, carry⟩ := by
  obtain ⟨k, hk⟩ : ∃ k, n.toNat = k + 1 :=
    Nat.exists_eq_add_one_of_ne_zero fun h => hn (UInt32.toNat_inj.1 h)
  rw [hk]
  cases kind with
  | lsl => exact shiftLeft_eq_steps w carry hk
  | lsr => exact shiftRight_eq_steps w carry hk
  | asr => exact shiftRightSigned_eq_steps w carry hk
  | ror => exact rotateRight_eq_steps w carry hk

/-! ## 5. Amounts in registers and opcodes -/

theorem byRegister_eq_steps (kind : ShiftKind) (amount : Word) :
    byRegister kind w amount carry = (step kind)^[amount.toNat % 256] ⟨w, carry⟩ := by
  have hmask : (amount &&& 0xFF).toNat = amount.toNat % 256 := by
    rw [Word.toNat_and_mask (i := 0) (n := 8) rfl]
    omega
  rw [← hmask]
  unfold byRegister
  dsimp only
  by_cases hzero : amount &&& 0xFF = 0
  · rw [if_pos hzero, hzero]
    rfl
  · rw [if_neg hzero]
    exact shift_eq_steps w carry kind hzero

theorem rotateThroughCarry_eq_rotateWide :
    rotateThroughCarry w carry = rotateWide ⟨w, carry⟩ := by
  have hw := w.toNat_lt
  have hc := Bool.toNat_lt carry
  let rest := 2 ^ 31 * carry.toNat + w.toNat / 2
  have hrest : rest < 2 ^ 32 := by omega
  -- The lowest of the 33 bits goes to the top, and the others move down.
  have hwide : wide ⟨w, carry⟩ / 2 + 2 ^ 32 * (wide ⟨w, carry⟩ % 2) =
      2 ^ 32 * (w.toNat % 2) + rest := by
    show (2 ^ 32 * carry.toNat + w.toNat) / 2 +
      2 ^ 32 * ((2 ^ 32 * carry.toNat + w.toNat) % 2) = _
    omega
  have hvalue : ((carry.toUInt32 <<< 31) ||| (w >>> 1)).toNat = rest := by
    have hhigh : (carry.toUInt32 <<< 31).toNat = 2 ^ 31 * carry.toNat := by cases carry <;> rfl
    rw [UInt32.toNat_or, hhigh, Word.toNat_shiftRight (by decide)]
    exact (Nat.two_pow_add_eq_or_of_lt (show w.toNat / 2 < 2 ^ 31 by omega) carry.toNat).symm
  have hbit : w.bit 0 = (2 ^ 32 * (w.toNat % 2) + rest).testBit 32 := by
    have hquotient : (2 ^ 32 * (w.toNat % 2) + rest) / 2 ^ 32 = w.toNat % 2 := by omega
    rw [Word.bit_eq_decide (by decide), Nat.testBit_eq_decide_div_mod_eq, hquotient]
    show decide (w.toNat / 1 % 2 = 1) = decide (w.toNat % 2 % 2 = 1)
    rw [Nat.div_one, Nat.mod_mod]
  unfold rotateThroughCarry rotateWide ofWide
  rw [hwide, hbit]
  congr 1
  apply UInt32.toNat_inj.1
  rw [hvalue, UInt32.toNat_ofNat']
  omega

theorem byImmediate_eq_moveByField (kind : ShiftKind) (amount : Word) :
    byImmediate kind w amount carry = moveByField kind (amount.toNat % 32) ⟨w, carry⟩ := by
  have hmask : (amount &&& 31).toNat = amount.toNat % 32 := by
    rw [Word.toNat_and_mask (i := 0) (n := 5) rfl]
    omega
  rw [← hmask]
  unfold byImmediate
  dsimp only
  by_cases hzero : amount &&& 31 = 0
  · rw [if_pos hzero, hzero]
    cases kind with
    | lsl => rfl
    | lsr => exact shift_eq_steps w carry .lsr (by decide)
    | asr => exact shift_eq_steps w carry .asr (by decide)
    | ror => exact rotateThroughCarry_eq_rotateWide w carry
  · obtain ⟨k, hk⟩ : ∃ k, (amount &&& 31).toNat = k + 1 :=
      Nat.exists_eq_add_one_of_ne_zero fun h => hzero (UInt32.toNat_inj.1 h)
    rw [if_neg hzero, shift_eq_steps w carry kind hzero, hk]
    cases kind <;> rfl

theorem rotatedImmediate_eq_byRegister (op : Word) :
    rotatedImmediate op carry =
      byRegister .ror (UInt32.ofNat (op.toNat % 256)) (UInt32.ofNat (2 * (op.toNat / 256 % 16)))
        carry := by
  have hbyte : UInt32.ofNat (op.toNat % 256) = op &&& 0xFF := by
    apply UInt32.toNat_inj.1
    rw [Word.toNat_and_mask (i := 0) (n := 8) rfl, UInt32.toNat_ofNat']
    omega
  have hfield : (op.field 8 4).toNat = op.toNat / 256 % 16 :=
    Word.toNat_field (by decide) (by decide) op
  have hdouble : (2 * op.field 8 4).toNat = 2 * (op.toNat / 256 % 16) := by
    rw [UInt32.toNat_mul, hfield]
    show 2 * (op.toNat / 256 % 16) % 2 ^ 32 = _
    omega
  have hamount : UInt32.ofNat (2 * (op.toNat / 256 % 16)) = 2 * op.field 8 4 := by
    rw [← hdouble, UInt32.ofNat_toNat]
  -- The amount is at most 30, so a register would give all of it.
  have hmask : 2 * op.field 8 4 &&& 0xFF = 2 * op.field 8 4 := by
    apply UInt32.toNat_inj.1
    rw [Word.toNat_and_mask (i := 0) (n := 8) rfl, hdouble]
    omega
  rw [hbyte, hamount]
  unfold rotatedImmediate byRegister
  dsimp only
  rw [hmask]
  rfl

/-- The barrel shifter does at once what the shifter of one place does step by step.  The low byte
of a register is the number of steps.  A five-bit field in an opcode is so as well, unless it is
zero: it then stands for 32 steps to the right, or for a rotation through the carry.  A rotated
constant is a byte rotated by twice its four-bit field. -/
theorem shifter_eq_steps (kind : ShiftKind) (amount : Word) :
    byRegister kind w amount carry = (step kind)^[amount.toNat % 256] ⟨w, carry⟩ ∧
      byImmediate kind w amount carry = moveByField kind (amount.toNat % 32) ⟨w, carry⟩ ∧
      ∀ op : Word,
        rotatedImmediate op carry =
          byRegister .ror (UInt32.ofNat (op.toNat % 256))
            (UInt32.ofNat (2 * (op.toNat / 256 % 16))) carry :=
  ⟨byRegister_eq_steps w carry kind amount, byImmediate_eq_moveByField w carry kind amount,
    rotatedImmediate_eq_byRegister carry⟩

end Shifter

end Handheld
