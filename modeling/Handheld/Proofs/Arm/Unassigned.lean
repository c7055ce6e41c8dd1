import Handheld.Proofs.Arm.TransferEncoding

/-!
# Opcodes of no family

Where the tests of the decoder leave a hole, the opcode is either ignored or falls through to a
later test.  Outside class `00x` every hole is ignored.  Inside it none is: the last two tests look
at so few bits that they take up whatever the families leave.
-/

namespace Handheld.Arm

variable {op : Word}

/-! ## 1. Opcodes that are ignored -/

/-- A coprocessor instruction, a transfer at an offset shifted by a register, or a block move other
than push and pop. -/
def IsIgnored (op : Word) : Prop :=
  (op &&& 0x0C000000 = 0x0C000000 ∧ op &&& 0x0F000000 ≠ 0x0F000000) ∨
    op &&& 0x0E000010 = 0x06000010 ∨
    (op &&& 0x0E000000 = 0x08000000 ∧ op &&& 0x0FFF0000 ≠ 0x092D0000 ∧
      op &&& 0x0FFF0000 ≠ 0x08BD0000)

instance : DecidablePred IsIgnored := fun op => by
  unfold IsIgnored
  infer_instance

theorem decode_coprocessor (h : op &&& 0x0C000000 = 0x0C000000)
    (hswi : op &&& 0x0F000000 ≠ 0x0F000000) : decode op = .ignored := by
  have hclass : op.toNat / 2 ^ 26 % 2 ^ 2 = 3 := (Word.and_eq_iff_field rfl rfl op).1 h
  unfold decode
  rw [if_neg (Word.and_ne_of_field_ne 26 2 hclass rfl (by decide)),
    if_neg (Word.and_ne_of_field_ne 26 2 hclass rfl (by decide)), if_neg hswi, if_pos h]

theorem decode_undefinedTransfer (h : op &&& 0x0E000010 = 0x06000010) : decode op = .ignored := by
  have hclass : op.toNat / 2 ^ 26 % 2 ^ 2 = 1 := Word.field_eq_of_and_eq h 26 2 rfl
  have h25 : op.toNat / 2 ^ 25 % 2 ^ 1 = 1 := Word.field_eq_of_and_eq h 25 1 rfl
  have h4 : op.toNat / 2 ^ 4 % 2 ^ 1 = 1 := Word.field_eq_of_and_eq h 4 1 rfl
  have hmatch : op &&& 0x0C000000 = 0x04000000 := (Word.and_eq_iff_field rfl rfl op).2 hclass
  have hundefined : op &&& 0x02000010 = 0x02000010 := by
    show op &&& (0x02000000 ||| 0x10) = 0x02000010
    rw [Word.and_or_left,
      (Word.and_eq_iff_field (i := 25) (n := 1) (k := 1) (v := 0x02000000) rfl rfl op).2 h25,
      (Word.and_eq_iff_field (i := 4) (n := 1) (k := 1) (v := 0x10) rfl rfl op).2 h4]
    rfl
  unfold decode
  iterate 5 rw [if_neg (Word.and_ne_of_field_ne 26 2 hclass rfl (by decide))]
  rw [if_pos hmatch, if_pos hundefined]

theorem decode_block (h : op &&& 0x0E000000 = 0x08000000) (hpush : op &&& 0x0FFF0000 ≠ 0x092D0000)
    (hpop : op &&& 0x0FFF0000 ≠ 0x08BD0000) : decode op = .ignored := by
  rw [decode_eq_block ((Word.and_eq_iff_field rfl rfl op).1 h)]
  unfold decodeBlock
  split
  next hmatch => exact absurd hmatch hpush
  next hmatch => exact absurd hmatch hpop
  next => rfl

theorem decode_eq_ignored (h : IsIgnored op) : decode op = .ignored := by
  rcases h with ⟨hclass, hswi⟩ | hclass | ⟨hclass, hpush, hpop⟩
  · exact decode_coprocessor hclass hswi
  · exact decode_undefinedTransfer hclass
  · exact decode_block hclass hpush hpop

/-! ## 2. Opcodes that fall through -/

/-- A mask, and what the opcodes of a family read under it. -/
structure Pattern where
  mask : Word
  value : Word
deriving DecidableEq, Repr

def Pattern.Matches (p : Pattern) (op : Word) : Prop := op &&& p.mask = p.value

instance (p : Pattern) (op : Word) : Decidable (p.Matches op) :=
  inferInstanceAs (Decidable (op &&& p.mask = p.value))

/-- The families of class `00x` that all their fixed bits tell, the status words with bits 7-4
clear. -/
def families : List Pattern :=
  [⟨0x0FFFFFF0, 0x012FFF10⟩, -- branch and exchange
    ⟨0x0FC000F0, 0x00000090⟩, -- multiply
    ⟨0x0F8000F0, 0x00800090⟩, -- long multiply
    ⟨0x0FB00FF0, 0x01000090⟩, -- swap
    ⟨0x0FB000F0, 0x01000000⟩, -- status word to register
    ⟨0x0FB000F0, 0x01200000⟩, -- register to status word
    ⟨0x0FB00000, 0x03200000⟩] -- constant to status word

def IsExtraTransfer (op : Word) : Prop := op &&& 0x0E000090 = 0x90 ∧ op &&& 0x60 ≠ 0

/-- A data-processing opcode with a second operand of a form there is: a constant, or a register
whose shift is given by a constant (bit 4 clear) or by a register (bit 7 clear). -/
def IsDataProcessing (op : Word) : Prop :=
  op &&& 0x01900000 ≠ 0x01000000 ∧ (op &&& 0x02000000 ≠ 0 ∨ op &&& 0x90 ≠ 0x90)

/-- An opcode of class `00x` and of no family in it. -/
def IsStray (op : Word) : Prop :=
  op &&& 0x0C000000 = 0 ∧ (∀ p ∈ families, ¬ p.Matches op) ∧ ¬ IsExtraTransfer op ∧
    ¬ IsDataProcessing op

instance : DecidablePred IsStray := fun op => by
  unfold IsStray IsExtraTransfer IsDataProcessing
  infer_instance

/-- What a stray opcode is carried out as.  Where bits 24-23 are `10` and bit 20 is clear it moves a
status word, whatever stands in bits 7-4; elsewhere it is data processing with a shift to the left
by a register, although its bit 7 is set. -/
def strayInstruction (op : Word) : Instruction :=
  if op &&& 0x01900000 = 0x01000000 then decodeStatus op
  else
    .dataProcessing (AluOp.ofBits (op >>> 21)) (op.bit 20) (op.reg 12) (op.reg 16)
      (.shiftedBy (op.reg 0) .lsl (op.reg 8))

/-- What carrying it out costs: a shift by a register takes a cycle more. -/
def strayCost (op : Word) : Ticks := if op &&& 0x01900000 = 0x01000000 then 1 else 2

theorem cost_strayInstruction (op : Word) : (strayInstruction op).cost = strayCost op := by
  unfold strayInstruction strayCost decodeStatus
  by_cases hstatus : op &&& 0x01900000 = 0x01000000
  · rw [if_pos hstatus, if_pos hstatus]
    cases op.bit 21 <;> rfl
  · rw [if_neg hstatus, if_neg hstatus]
    rfl

theorem decode_eq_lastTests (h : IsStray op) :
    decode op =
      if op &&& 0x01900000 = 0x01000000 then decodeStatus op
      else
        .dataProcessing (AluOp.ofBits (op >>> 21)) (op.bit 20) (op.reg 12) (op.reg 16)
          (decodeOperand op) := by
  obtain ⟨hclass, hfamilies, hextra, -⟩ := h
  have hfield : op.toNat / 2 ^ 26 % 2 ^ 2 = 0 := (Word.and_eq_iff_field rfl rfl op).1 hclass
  have hnine : ¬ (op &&& 0x0E000090 = 0x90 ∧ op &&& 0x60 ≠ 0) := hextra
  have hfamily (mask value : Word) (hp : ⟨mask, value⟩ ∈ families) : ¬ op &&& mask = value :=
    hfamilies ⟨mask, value⟩ hp
  unfold decode
  rw [if_neg (hfamily _ _ (by decide))]
  iterate 5 rw [if_neg (and_ne_of_class hfield rfl (by decide))]
  iterate 3 rw [if_neg (hfamily _ _ (by decide))]
  rw [if_neg hnine]

/-- Beyond the status words only the form that the multiplications share is left. -/
theorem decodeOperand_of_stray (h : IsStray op) (hstatus : op &&& 0x01900000 ≠ 0x01000000) :
    decodeOperand op = .shiftedBy (op.reg 0) .lsl (op.reg 8) := by
  obtain ⟨hclass, -, hextra, hprocessing⟩ := h
  have h25 : op &&& 0x02000000 = 0 := by
    by_contra h25
    exact hprocessing ⟨hstatus, .inl h25⟩
  have hform : op &&& 0x90 = 0x90 := by
    by_contra hform
    exact hprocessing ⟨hstatus, .inr hform⟩
  have hkind : op &&& 0x60 = 0 := by
    by_contra hkind
    refine hextra ⟨?_, hkind⟩
    show op &&& (0x0C000000 ||| (0x02000000 ||| 0x90)) = 0x90
    rw [Word.and_or_left, Word.and_or_left, hclass, h25, hform]
    rfl
  have h25' : op.toNat / 2 ^ 25 % 2 ^ 1 = 0 := (Word.and_eq_iff_field rfl rfl op).1 h25
  have h4 : op.toNat / 2 ^ 4 % 2 ^ 1 = 1 := Word.field_eq_of_and_eq hform 4 1 rfl
  have hconstant : op.bit 25 = false := Word.bit_eq_of_field (by decide) h25'
  have hregister : op.bit 4 = true := Word.bit_eq_of_field (by decide) h4
  have hlsl : shiftKind op = .lsl :=
    shiftKind_of_field ((Word.and_eq_iff_field (i := 5) (n := 2) (k := 0) rfl rfl op).1 hkind)
  unfold decodeOperand
  rw [hconstant, hregister, hlsl]
  rfl

theorem decode_stray (h : IsStray op) : decode op = strayInstruction op := by
  rw [decode_eq_lastTests h]
  unfold strayInstruction
  by_cases hstatus : op &&& 0x01900000 = 0x01000000
  · rw [if_pos hstatus, if_pos hstatus]
  · rw [if_neg hstatus, if_neg hstatus, decodeOperand_of_stray h hstatus]

end Handheld.Arm
