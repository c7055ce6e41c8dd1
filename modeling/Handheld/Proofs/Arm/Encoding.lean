import Handheld.Arm.Decode
import Handheld.Arm.Execute
import Handheld.Condition
import Handheld.Proofs.Word.Field
import Handheld.Proofs.Word.Mask

/-!
# Encoding data processing and multiplication

An opcode is a sum of its fields.  Decoding gives back the instruction that was encoded.
-/

namespace Handheld

/-! ## 1. Fields -/

/-- A register as a four-bit number. -/
def Reg.code (r : Reg) : Word := UInt32.ofNat r.val

theorem Reg.toNat_code (r : Reg) : r.code.toNat = r.val := by
  have := r.isLt
  simp [code]
  omega

@[grind =]
theorem Reg.code_zero : Reg.zero.code = 0 := rfl

@[grind =]
theorem Word.code_lowReg (w i : Word) : (w.lowReg i).code = w.field i 3 := by
  apply UInt32.toNat_inj.1
  rw [Reg.toNat_code, val_lowReg]

theorem toNat_bool (b : Bool) : b.toUInt32.toNat = b.toNat := by cases b <;> rfl

/-- The two bits that stand for a kind of shift. -/
@[grind =]
def ShiftKind.code : ShiftKind → Word
  | lsl => 0
  | lsr => 1
  | asr => 2
  | ror => 3

theorem ShiftKind.code_lt (kind : ShiftKind) : kind.code.toNat < 4 := by cases kind <;> decide

theorem ShiftKind.ofBits_of_and_eq {bits : Word} {kind : ShiftKind} (h : bits &&& 3 = kind.code) :
    ofBits bits = kind := by
  unfold ofBits
  rw [h]
  cases kind <;> rfl

theorem Condition.ofBits_al {w : Word} (h : w.toNat / 2 ^ 28 = 14) : ofBits (w >>> 28) = al := by
  have hfield : (w >>> 28) &&& 0xF = 0xE :=
    Word.shiftRight_and_eq (i := 28) (n := 4) (by decide) rfl
      (show w.toNat / 2 ^ 28 % 16 = 14 by omega)
  unfold ofBits
  rw [hfield]
  rfl

namespace Arm

/-- The four bits that stand for an operation. -/
@[grind =]
def AluOp.code : AluOp → Word
  | and => 0x0
  | eor => 0x1
  | sub => 0x2
  | rsb => 0x3
  | add => 0x4
  | adc => 0x5
  | sbc => 0x6
  | rsc => 0x7
  | tst => 0x8
  | teq => 0x9
  | cmp => 0xA
  | cmn => 0xB
  | orr => 0xC
  | mov => 0xD
  | bic => 0xE
  | mvn => 0xF

theorem AluOp.code_lt (op : AluOp) : op.code.toNat < 16 := by cases op <;> decide

theorem AluOp.ofBits_of_and_eq {bits : Word} {op : AluOp} (h : bits &&& 0xF = op.code) :
    ofBits bits = op := by
  unfold ofBits
  rw [h]
  cases op <;> rfl

/-- The bits of an opcode that give the second operand: bit 25 and the low twelve. -/
def Operand.encode? : Operand → Option Word
  | constant n => if n < 0x1000 then some (0x2000000 + n) else none
  | shifted r kind amount =>
    if amount < 32 then some (0x80 * amount + 0x20 * kind.code + r.code) else none
  | shiftedBy r kind amount => some (0x100 * amount.code + 0x20 * kind.code + 0x10 + r.code)

/-- The opcode of a data-processing instruction or a short multiplication that is always executed,
if there is one. -/
def Instruction.encode? : Instruction → Option Word
  | dataProcessing op setFlags dest left right =>
    if setFlags || op.writes then
      right.encode?.map fun low =>
        0xE0000000 + 0x200000 * op.code + 0x100000 * setFlags.toUInt32 + 0x10000 * left.code +
          0x1000 * dest.code + low
    else none
  | multiply accumulate setFlags dest left right addend =>
    some (0xE0000090 + 0x200000 * accumulate.toUInt32 + 0x100000 * setFlags.toUInt32 +
      0x10000 * dest.code + 0x1000 * addend.code + 0x100 * right.code + left.code)
  | _ => none

/-! ## 2. Decoding by fields -/

/-- No comparison that asks for bit 27 or 26 holds of an opcode in which both are clear. -/
theorem and_ne_of_class {w m v : Word} (hclass : w.toNat / 2 ^ 26 % 2 ^ 2 = 0)
    (hm : m.toNat / 2 ^ 26 % 2 ^ 2 = 3) (hv : v.toNat / 2 ^ 26 % 2 ^ 2 ≠ 0) : ¬ w &&& m = v := by
  intro h
  exact hv ((Word.field_eq_of_and_eq h 26 2 hm).symm.trans hclass)

/-- Nor does one that asks for the form of a multiplication or an extra transfer: bit 25 clear, bits
7 and 4 set. -/
theorem and_ne_of_form {w m v : Word}
    (hform : w.toNat / 2 ^ 25 % 2 = 1 ∨ w.toNat / 2 ^ 7 % 2 = 0 ∨ w.toNat / 2 ^ 4 % 2 = 0)
    (hm : m.toNat / 2 ^ 25 % 2 ^ 1 = 1 ∧ m.toNat / 2 ^ 7 % 2 ^ 1 = 1 ∧
      m.toNat / 2 ^ 4 % 2 ^ 1 = 1)
    (hv : v.toNat / 2 ^ 25 % 2 ^ 1 = 0 ∧ v.toNat / 2 ^ 7 % 2 ^ 1 = 1 ∧
      v.toNat / 2 ^ 4 % 2 ^ 1 = 1) : ¬ w &&& m = v := by
  intro h
  have h25 := Word.field_eq_of_and_eq h 25 1 hm.1
  have h7 := Word.field_eq_of_and_eq h 7 1 hm.2.1
  have h4 := Word.field_eq_of_and_eq h 4 1 hm.2.2
  omega

/-- Nor does one that asks for the form of a status word access: bits 24 and 23 at `10`, bit 20
clear. -/
theorem and_ne_of_status {w m v : Word}
    (hstatus : w.toNat / 2 ^ 20 % 2 = 1 ∨ w.toNat / 2 ^ 23 % 4 ≠ 2)
    (hm : m.toNat / 2 ^ 20 % 2 ^ 1 = 1 ∧ m.toNat / 2 ^ 23 % 2 ^ 2 = 3)
    (hv : v.toNat / 2 ^ 20 % 2 ^ 1 = 0 ∧ v.toNat / 2 ^ 23 % 2 ^ 2 = 2) : ¬ w &&& m = v := by
  intro h
  have h20 := Word.field_eq_of_and_eq h 20 1 hm.1
  have h23 := Word.field_eq_of_and_eq h 23 2 hm.2
  omega

/-- An opcode in the class of data processing that is none of its neighbours: no multiplication or
extra transfer by bits 25, 7 and 4, and no status word access by bits 24, 23 and 20. -/
theorem decode_eq_dataProcessing {w : Word} (hclass : w.toNat / 2 ^ 26 % 2 ^ 2 = 0)
    (hform : w.toNat / 2 ^ 25 % 2 = 1 ∨ w.toNat / 2 ^ 7 % 2 = 0 ∨ w.toNat / 2 ^ 4 % 2 = 0)
    (hstatus : w.toNat / 2 ^ 20 % 2 = 1 ∨ w.toNat / 2 ^ 23 % 4 ≠ 2) :
    decode w =
      .dataProcessing (AluOp.ofBits (w >>> 21)) (w.bit 20) (w.reg 12) (w.reg 16)
        (decodeOperand w) := by
  unfold decode
  -- The comparisons in the order in which they stand.
  rw [if_neg (and_ne_of_status hstatus (by decide) (by decide)),
    if_neg (and_ne_of_class hclass rfl (by decide)), if_neg (and_ne_of_class hclass rfl (by decide)),
    if_neg (and_ne_of_class hclass rfl (by decide)), if_neg (and_ne_of_class hclass rfl (by decide)),
    if_neg (and_ne_of_class hclass rfl (by decide)),
    if_neg (and_ne_of_form hform (by decide) (by decide)),
    if_neg (and_ne_of_form hform (by decide) (by decide)),
    if_neg (and_ne_of_status hstatus (by decide) (by decide)),
    if_neg fun h => and_ne_of_form hform (by decide) (by decide) h.1,
    if_neg (and_ne_of_status hstatus (by decide) (by decide))]

theorem decode_eq_multiply {w : Word} (hclass : w.toNat / 2 ^ 22 % 2 ^ 6 = 0)
    (hform : w.toNat / 2 ^ 4 % 2 ^ 4 = 9) :
    decode w =
      .multiply (w.bit 21) (w.bit 20) (w.reg 16) (w.reg 0) (w.reg 8) (w.reg 12) := by
  have hclass' : w.toNat / 2 ^ 26 % 2 ^ 2 = 0 := by omega
  have hexchange : ¬ w &&& 0x0FFFFFF0 = 0x012FFF10 := by
    intro h
    exact absurd ((Word.field_eq_of_and_eq h 22 6 rfl).symm.trans hclass) (by decide)
  have hhigh : w &&& 0x0FC00000 = 0 := by
    rw [← UInt32.toNat_inj, Word.toNat_and_mask (i := 22) (n := 6) rfl, hclass]
    rfl
  have hlow : w &&& 0xF0 = 0x90 := by
    rw [← UInt32.toNat_inj, Word.toNat_and_mask (i := 4) (n := 4) rfl, hform]
    rfl
  -- The mask of the family is made of two fields.
  have hmatch : w &&& 0x0FC000F0 = 0x00000090 := by
    show w &&& (0x0FC00000 ||| 0xF0) = 0x90
    rw [Word.and_or_left, hhigh, hlow]
    rfl
  unfold decode
  rw [if_neg hexchange, if_neg (and_ne_of_class hclass' rfl (by decide)),
    if_neg (and_ne_of_class hclass' rfl (by decide)),
    if_neg (and_ne_of_class hclass' rfl (by decide)),
    if_neg (and_ne_of_class hclass' rfl (by decide)),
    if_neg (and_ne_of_class hclass' rfl (by decide)), if_pos hmatch]

theorem decode_eq_multiplyLong {w : Word} (h : w &&& 0x0F8000F0 = 0x00800090) :
    decode w =
      .multiplyLong (w.bit 22) (w.bit 21) (w.bit 20) (w.reg 16) (w.reg 12) (w.reg 0) (w.reg 8) := by
  have hfield : w.toNat / 2 ^ 23 % 2 ^ 5 = 1 := Word.field_eq_of_and_eq h 23 5 rfl
  have hclass : w.toNat / 2 ^ 26 % 2 ^ 2 = 0 := by omega
  unfold decode
  rw [if_neg (Word.and_ne_of_field_ne 23 5 hfield rfl (by decide)),
    if_neg (and_ne_of_class hclass rfl (by decide)), if_neg (and_ne_of_class hclass rfl (by decide)),
    if_neg (and_ne_of_class hclass rfl (by decide)), if_neg (and_ne_of_class hclass rfl (by decide)),
    if_neg (and_ne_of_class hclass rfl (by decide)),
    if_neg (Word.and_ne_of_field_ne 23 5 hfield rfl (by decide)), if_pos h]

theorem decode_eq_swap {w : Word} (h : w &&& 0x0FB00FF0 = 0x01000090) :
    decode w = .swap (w.bit 22) (w.reg 12) (w.reg 0) (w.reg 16) := by
  have h24 : w.toNat / 2 ^ 24 % 2 ^ 1 = 1 := Word.field_eq_of_and_eq h 24 1 rfl
  have h4 : w.toNat / 2 ^ 4 % 2 ^ 4 = 9 := Word.field_eq_of_and_eq h 4 4 rfl
  have hclass : w.toNat / 2 ^ 26 % 2 ^ 2 = 0 := Word.field_eq_of_and_eq h 26 2 rfl
  unfold decode
  rw [if_neg (Word.and_ne_of_field_ne 4 4 h4 rfl (by decide)),
    if_neg (and_ne_of_class hclass rfl (by decide)), if_neg (and_ne_of_class hclass rfl (by decide)),
    if_neg (and_ne_of_class hclass rfl (by decide)), if_neg (and_ne_of_class hclass rfl (by decide)),
    if_neg (and_ne_of_class hclass rfl (by decide)),
    if_neg (Word.and_ne_of_field_ne 24 1 h24 rfl (by decide)),
    if_neg (Word.and_ne_of_field_ne 24 1 h24 rfl (by decide)), if_pos h]

theorem decode_eq_branchExchange {w : Word} (h : w &&& 0x0FFFFFF0 = 0x012FFF10) :
    decode w = .branchExchange (w.reg 0) := by
  unfold decode
  rw [if_pos h]

theorem decode_eq_branch {w : Word} (h : w &&& 0x0E000000 = 0x0A000000) :
    decode w = .branch (w.bit 24) (Word.signExtend 24 (w &&& 0xFFFFFF) <<< 2) := by
  have hclass : w.toNat / 2 ^ 25 % 2 ^ 3 = 5 := Word.field_eq_of_and_eq h 25 3 rfl
  unfold decode
  rw [if_neg (Word.and_ne_of_field_ne 25 3 hclass rfl (by decide)), if_pos h]

/-! ## 3. Decoding what was encoded -/

theorem shiftKind_of_field {w : Word} {kind : ShiftKind}
    (h : w.toNat / 2 ^ 5 % 2 ^ 2 = kind.code.toNat) : shiftKind w = kind :=
  ShiftKind.ofBits_of_and_eq (Word.shiftRight_and_eq (i := 5) (by decide) rfl h)

theorem shiftAmount_of_field {w amount : Word} (h : w.toNat / 2 ^ 7 % 2 ^ 5 = amount.toNat) :
    shiftAmount w = amount := by
  apply UInt32.toNat_inj.1
  show (w.field 7 5).toNat = amount.toNat
  rw [Word.toNat_field (by decide) (by decide)]
  exact h

/-- The bits of an operand as a number. -/
theorem Operand.toNat_of_encode? {o : Operand} {low : Word} (h : o.encode? = some low) :
    match o with
    | constant n => n.toNat < 0x1000 ∧ low.toNat = 0x2000000 + n.toNat
    | shifted r kind amount =>
      amount.toNat < 32 ∧ low.toNat = 0x80 * amount.toNat + 0x20 * kind.code.toNat + r.val
    | shiftedBy r kind amount =>
      low.toNat = 0x100 * amount.val + 0x20 * kind.code.toNat + 0x10 + r.val := by
  cases o with
  | constant n =>
    obtain ⟨hn, rfl⟩ : n < 0x1000 ∧ 0x2000000 + n = low := by simpa [encode?] using h
    have hn' : n.toNat < 0x1000 := UInt32.lt_iff_toNat_lt.1 hn
    refine ⟨hn', ?_⟩
    rw [UInt32.toNat_add]
    show (0x2000000 + n.toNat) % 2 ^ 32 = _
    omega
  | shifted r kind amount =>
    obtain ⟨hn, rfl⟩ : amount < 32 ∧ 0x80 * amount + 0x20 * kind.code + r.code = low := by
      simpa [encode?] using h
    have hn' : amount.toNat < 32 := UInt32.lt_iff_toNat_lt.1 hn
    have hkind := kind.code_lt
    refine ⟨hn', ?_⟩
    simp only [UInt32.toNat_add, UInt32.toNat_mul, Reg.toNat_code, UInt32.reduceToNat]
    omega
  | shiftedBy r kind amount =>
    obtain rfl : 0x100 * amount.code + 0x20 * kind.code + 0x10 + r.code = low := by
      simpa [encode?] using h
    have hkind := kind.code_lt
    show UInt32.toNat _ = _
    simp only [UInt32.toNat_add, UInt32.toNat_mul, Reg.toNat_code, UInt32.reduceToNat]
    omega

theorem decodeOperand_of_encode? {o : Operand} {low w : Word} (h : o.encode? = some low)
    (h25 : w.toNat / 2 ^ 25 % 2 = low.toNat / 2 ^ 25 % 2)
    (hlow : w.toNat % 2 ^ 12 = low.toNat % 2 ^ 12) : decodeOperand w = o := by
  have hnat := Operand.toNat_of_encode? h
  have hb25 : w.bit 25 = decide (w.toNat / 2 ^ 25 % 2 = 1) := Word.bit_eq_decide (by decide) w
  have hb4 : w.bit 4 = decide (w.toNat / 2 ^ 4 % 2 = 1) := Word.bit_eq_decide (by decide) w
  have hreg {r : Reg} (hr : w.toNat % 16 = r.val) : w.reg 0 = r :=
    Word.reg_eq_of_field (by decide) (by simpa using hr)
  unfold decodeOperand
  cases o with
  | constant n =>
    obtain ⟨hn, hnat⟩ := hnat
    have hvalue : w &&& 0xFFF = n := by
      apply UInt32.toNat_inj.1
      rw [Word.toNat_and_mask (i := 0) (n := 12) rfl]
      omega
    rw [hb25, if_pos (decide_eq_true (by omega)), hvalue]
  | shifted r kind amount =>
    obtain ⟨hn, hnat⟩ := hnat
    have hk := kind.code_lt
    have hr := r.isLt
    have hamount : shiftAmount w = amount := shiftAmount_of_field (by omega)
    have hkind : shiftKind w = kind := shiftKind_of_field (by omega)
    rw [hb25, if_neg (by simp; omega), hb4, if_neg (by simp; omega), hreg (r := r) (by omega), hkind,
      hamount]
  | shiftedBy r kind amount =>
    have hk := kind.code_lt
    have hr := r.isLt
    have ha := amount.isLt
    have hamount : w.reg 8 = amount :=
      Word.reg_eq_of_field (by decide) (show w.toNat / 2 ^ 8 % 16 = amount.val by omega)
    have hkind : shiftKind w = kind := shiftKind_of_field (by omega)
    rw [hb25, if_neg (by simp; omega), hb4, if_pos (decide_eq_true (by omega)),
      hreg (r := r) (by omega), hkind, hamount]

theorem AluOp.code_of_writes {op : AluOp} (h : op.writes = true) : op.code.toNat / 4 ≠ 2 := by
  revert h
  cases op <;> decide

theorem Operand.shape_of_encode? {o : Operand} {low : Word} (h : o.encode? = some low) :
    0x2000000 ≤ low.toNat ∧ low.toNat < 0x2001000 ∨
      low.toNat < 0x1000 ∧ (low.toNat / 2 ^ 7 % 2 = 0 ∨ low.toNat / 2 ^ 4 % 2 = 0) := by
  have hnat := toNat_of_encode? h
  cases o with
  | constant n =>
    obtain ⟨hn, hnat⟩ := hnat
    omega
  | shifted r kind amount =>
    obtain ⟨hn, hnat⟩ := hnat
    have hk := kind.code_lt
    have hr := r.isLt
    omega
  | shiftedBy r kind amount =>
    have hk := kind.code_lt
    have hr := r.isLt
    have ha := amount.isLt
    change low.toNat = _ at hnat
    omega

theorem decode_dataProcessing {op : AluOp} {setFlags : Bool} {dest left : Reg} {right : Operand}
    {low w : Word} (hop : (setFlags || op.writes) = true) (hlow : right.encode? = some low)
    (hw : w = 0xE0000000 + 0x200000 * op.code + 0x100000 * setFlags.toUInt32 +
      0x10000 * left.code + 0x1000 * dest.code + low) :
    decode w = .dataProcessing op setFlags dest left right ∧
      Condition.ofBits (w >>> 28) = .al := by
  have hshape := Operand.shape_of_encode? hlow
  have hcode := op.code_lt
  have hset := Bool.toNat_lt setFlags
  have hdest := dest.isLt
  have hleft := left.isLt
  -- No field reaches into the next, so the sum is one of numbers.
  have hnat : w.toNat = 0xE0000000 + 0x200000 * op.code.toNat + 0x100000 * setFlags.toNat +
      0x10000 * left.val + 0x1000 * dest.val + low.toNat := by
    rw [hw]
    simp only [UInt32.toNat_add, UInt32.toNat_mul, Reg.toNat_code, toNat_bool, UInt32.reduceToNat]
    omega
  -- A comparison that sets no flags would be an access to a status word.
  have hstatus : w.toNat / 2 ^ 20 % 2 = 1 ∨ w.toNat / 2 ^ 23 % 4 ≠ 2 := by
    cases setFlags with
    | true =>
      change _ = _ + 0x100000 * 1 + _ + _ + _ at hnat
      omega
    | false =>
      have := op.code_of_writes hop
      omega
  have hdecode := decode_eq_dataProcessing (w := w) (by omega) (by omega) hstatus
  have hop' : AluOp.ofBits (w >>> 21) = op :=
    AluOp.ofBits_of_and_eq (Word.shiftRight_and_eq (i := 21) (n := 4) (by decide) rfl
      (show w.toNat / 2 ^ 21 % 16 = op.code.toNat by omega))
  have hset' : w.bit 20 = setFlags :=
    Word.bit_eq_of_field (by decide) (show w.toNat / 2 ^ 20 % 2 = setFlags.toNat by omega)
  have hdest' : w.reg 12 = dest :=
    Word.reg_eq_of_field (by decide) (show w.toNat / 2 ^ 12 % 16 = dest.val by omega)
  have hleft' : w.reg 16 = left :=
    Word.reg_eq_of_field (by decide) (show w.toNat / 2 ^ 16 % 16 = left.val by omega)
  rw [hop', hset', hdest', hleft', decodeOperand_of_encode? hlow (by omega) (by omega)] at hdecode
  exact ⟨hdecode, Condition.ofBits_al (by omega)⟩

theorem decode_multiply {accumulate setFlags : Bool} {dest left right addend : Reg} {w : Word}
    (hw : w = 0xE0000090 + 0x200000 * accumulate.toUInt32 + 0x100000 * setFlags.toUInt32 +
      0x10000 * dest.code + 0x1000 * addend.code + 0x100 * right.code + left.code) :
    decode w = .multiply accumulate setFlags dest left right addend ∧
      Condition.ofBits (w >>> 28) = .al := by
  have hset := Bool.toNat_lt setFlags
  have haccumulate := Bool.toNat_lt accumulate
  have hdest := dest.isLt
  have hleft := left.isLt
  have hright := right.isLt
  have haddend := addend.isLt
  have hnat : w.toNat = 0xE0000090 + 0x200000 * accumulate.toNat + 0x100000 * setFlags.toNat +
      0x10000 * dest.val + 0x1000 * addend.val + 0x100 * right.val + left.val := by
    rw [hw]
    simp only [UInt32.toNat_add, UInt32.toNat_mul, Reg.toNat_code, toNat_bool, UInt32.reduceToNat]
    omega
  have hdecode := decode_eq_multiply (w := w) (by omega) (by omega)
  have haccumulate' : w.bit 21 = accumulate :=
    Word.bit_eq_of_field (by decide) (show w.toNat / 2 ^ 21 % 2 = accumulate.toNat by omega)
  have hset' : w.bit 20 = setFlags :=
    Word.bit_eq_of_field (by decide) (show w.toNat / 2 ^ 20 % 2 = setFlags.toNat by omega)
  have hdest' : w.reg 16 = dest :=
    Word.reg_eq_of_field (by decide) (show w.toNat / 2 ^ 16 % 16 = dest.val by omega)
  have hleft' : w.reg 0 = left :=
    Word.reg_eq_of_field (by decide) (show w.toNat / 2 ^ 0 % 16 = left.val by omega)
  have hright' : w.reg 8 = right :=
    Word.reg_eq_of_field (by decide) (show w.toNat / 2 ^ 8 % 16 = right.val by omega)
  have haddend' : w.reg 12 = addend :=
    Word.reg_eq_of_field (by decide) (show w.toNat / 2 ^ 12 % 16 = addend.val by omega)
  rw [haccumulate', hset', hdest', hleft', hright', haddend'] at hdecode
  exact ⟨hdecode, Condition.ofBits_al (by omega)⟩

/-- An encoded instruction is decoded to itself, and always executed. -/
theorem decode_of_encode? {i : Instruction} {w : Word} (h : i.encode? = some w) :
    decode w = i ∧ Condition.ofBits (w >>> 28) = .al := by
  cases i with
  | dataProcessing op setFlags dest left right =>
    simp only [Instruction.encode?] at h
    split at h
    next hop =>
      obtain ⟨low, hlow, hw⟩ := Option.map_eq_some_iff.1 h
      exact decode_dataProcessing hop hlow hw.symm
    next => cases h
  | multiply accumulate setFlags dest left right addend =>
    exact decode_multiply (Option.some.inj h).symm
  | _ => simp [Instruction.encode?] at h

end Arm

end Handheld
