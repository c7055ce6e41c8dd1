import Handheld.Proofs.ControlBits
import Handheld.Proofs.Unassigned
import Mathlib.Order.SuccPred.Basic

/-!
# Status transfers

The transfers copy a status word to a register and back.  A write is a masked one, whatever the
mode: bytes come from the operand where the field mask of the opcode selects them.  A write to the
current status word may change the mode, and with it the bank; every pair of stack pointer and link
register stays with its bank.  So a program may save its status word in a register, go through other
modes, and come back to its own stack.
-/

namespace Handheld

/-! ## 1. Masked writes -/

namespace Word

theorem rotateRight_zero (w : Word) : w.rotateRight 0 = w := by
  have hback : w <<< (32 : Word) = w <<< 0 := rfl
  show (w >>> 0) ||| (w <<< 32) = w
  rw [hback, UInt32.shiftRight_zero, UInt32.shiftLeft_zero, UInt32.or_self]

theorem testBit_overlay {i : Nat} (hi : i < 32) (w m v : Word) :
    (w.overlay m v).toNat.testBit i =
      if m.toNat.testBit i = true then v.toNat.testBit i else w.toNat.testBit i := by
  cases hm : m.toNat.testBit i with
  | false => exact testBit_overlay_of_clear hi hm w v
  | true => exact testBit_eq_of_and_eq (overlay_and_self w m v) hm

end Word

namespace Arm

/-- `new` is `old` with the bytes of `v` that the field mask of `op` selects, as far as they are
made of bit `low` and those above. -/
def MaskedWrite (op : Word) (low : Nat) (v old new : Word) : Prop :=
  ∀ i < 32, new.toNat.testBit i =
    if low ≤ i ∧ op.toNat.testBit (16 + i / 8) = true then v.toNat.testBit i
    else old.toNat.testBit i

theorem maskedWrite_overlay (op v old : Word) :
    MaskedWrite op 0 v old (old.overlay (statusMask op) v) := by
  intro i hi
  rw [Word.testBit_overlay hi, testBit_statusMask op hi]
  simp

theorem maskedWrite_overlay_flags (op v old : Word) :
    MaskedWrite op 24 v old (old.overlay (statusMask op &&& Psr.flagsMask) v) := by
  intro i hi
  have hflags : ∀ i < 32, Psr.flagsMask.toNat.testBit i = decide (24 ≤ i) := by decide
  rw [Word.testBit_overlay hi, UInt32.toNat_and, Nat.testBit_and, testBit_statusMask op hi,
    hflags i hi]
  simp [and_comm]

/-! ## 2. Opcodes -/

def IsStatusRead (op : Word) : Prop := op &&& 0x0FB000F0 = 0x01000000

/-- A register or a rotated constant goes to a status word. -/
def IsStatusWrite (op : Word) : Prop :=
  op &&& 0x0FB000F0 = 0x01200000 ∨ op &&& 0x0FB00000 = 0x03200000

instance : DecidablePred IsStatusRead := fun op =>
  inferInstanceAs (Decidable (op &&& 0x0FB000F0 = 0x01000000))

instance : DecidablePred IsStatusWrite := fun op =>
  inferInstanceAs (Decidable (op &&& 0x0FB000F0 = 0x01200000 ∨ op &&& 0x0FB00000 = 0x03200000))

/-- What the write with opcode `op` at `address` writes. -/
def statusOperand (c : Cpu) (address op : Word) : Word :=
  if op.bit 25 then (op &&& 0xFF).rotateRight (2 * op.field 8 4)
  else c.operand (op.reg 0) (address + 8)

variable {op : Word}

theorem decode_eq_decodeStatus (hclass : op.toNat / 2 ^ 26 % 2 ^ 2 = 0)
    (hstatus : op.toNat / 2 ^ 23 % 2 ^ 2 = 2) (hcompare : op.toNat / 2 ^ 20 % 2 ^ 1 = 0)
    (hform : op.toNat / 2 ^ 25 % 2 ^ 1 = 1 ∨ op.toNat / 2 ^ 4 % 2 ^ 4 = 0) :
    decode op = decodeStatus op := by
  have hexchange : ¬ op &&& 0x0FFFFFF0 = 0x012FFF10 := by
    rcases hform with h | h
    · exact Word.and_ne_of_field_ne 25 1 h rfl (by decide)
    · exact Word.and_ne_of_field_ne 4 4 h rfl (by decide)
  have hform' :
      op.toNat / 2 ^ 25 % 2 = 1 ∨ op.toNat / 2 ^ 7 % 2 = 0 ∨ op.toNat / 2 ^ 4 % 2 = 0 := by
    omega
  have hmatch : op &&& 0x01900000 = 0x01000000 := by
    show op &&& (0x01800000 ||| 0x00100000) = 0x01000000
    rw [Word.and_or_left,
      (Word.and_eq_iff_field (i := 23) (n := 2) (k := 2) (v := 0x01000000) rfl rfl op).2 hstatus,
      (Word.and_eq_iff_field (i := 20) (n := 1) (k := 0) (v := 0) rfl rfl op).2 hcompare]
    rfl
  -- Each earlier row of the table needs a class, a form or an exchange that this opcode has not.
  unfold decode
  rw [if_neg hexchange, if_neg (and_ne_of_class hclass rfl (by decide)),
    if_neg (and_ne_of_class hclass rfl (by decide)),
    if_neg (and_ne_of_class hclass rfl (by decide)),
    if_neg (and_ne_of_class hclass rfl (by decide)),
    if_neg (and_ne_of_class hclass rfl (by decide)),
    if_neg (and_ne_of_form hform' (by decide) (by decide)),
    if_neg (and_ne_of_form hform' (by decide) (by decide)),
    if_neg (and_ne_of_form hform' (by decide) (by decide)),
    if_neg fun h => and_ne_of_form hform' (by decide) (by decide) h.1, if_pos hmatch]

theorem IsStatusRead.decode_eq (h : IsStatusRead op) :
    decode op = .readStatus (op.bit 22) (op.reg 12) := by
  have hwrite : op.bit 21 = false := Word.bit_eq_of_and_eq h (by decide)
  rw [decode_eq_decodeStatus (Word.field_eq_of_and_eq h 26 2 rfl)
    (Word.field_eq_of_and_eq h 23 2 rfl) (Word.field_eq_of_and_eq h 20 1 rfl)
    (.inr (Word.field_eq_of_and_eq h 4 4 rfl)), decodeStatus, hwrite]
  rfl

theorem IsStatusWrite.decode_eq (h : IsStatusWrite op) :
    decode op =
      .writeStatus (op.bit 22) (statusMask op)
        (if op.bit 25 then .constant (op &&& 0xFFF) else .register (op.reg 0)) := by
  rcases h with h | h
  · have hwrite : op.bit 21 = true := Word.bit_eq_of_and_eq h (by decide)
    rw [decode_eq_decodeStatus (Word.field_eq_of_and_eq h 26 2 rfl)
      (Word.field_eq_of_and_eq h 23 2 rfl) (Word.field_eq_of_and_eq h 20 1 rfl)
      (.inr (Word.field_eq_of_and_eq h 4 4 rfl)), decodeStatus, hwrite]
    rfl
  · have hwrite : op.bit 21 = true := Word.bit_eq_of_and_eq h (by decide)
    rw [decode_eq_decodeStatus (Word.field_eq_of_and_eq h 26 2 rfl)
      (Word.field_eq_of_and_eq h 23 2 rfl) (Word.field_eq_of_and_eq h 20 1 rfl)
      (.inl (Word.field_eq_of_and_eq h 25 1 rfl)), decodeStatus, hwrite]
    rfl

theorem value_rotatedImmediate (op : Word) (carry : Bool) :
    (Shifter.rotatedImmediate (op &&& 0xFFF) carry).value =
      (op &&& 0xFF).rotateRight (2 * op.field 8 4) := by
  have hbyte : op &&& 0xFFF &&& 0xFF = op &&& 0xFF := UInt32.and_assoc op 0xFFF 0xFF
  have hfield : (op &&& 0xFFF).field 8 4 = op.field 8 4 :=
    (Word.shiftRight_and_eq_of_and_eq (w := op) rfl 8 0xF rfl).symm
  -- The amount is at most 30, so nothing of it is lost.
  have hmask : 2 * op.field 8 4 &&& 31 = 2 * op.field 8 4 := by
    have hlt : (op.field 8 4).toNat < 16 :=
      (Word.toNat_field (i := 8) (n := 4) (by decide) (by decide) op).trans_lt
        (Nat.mod_lt _ (by decide))
    apply UInt32.toNat_inj.1
    rw [Word.toNat_and_mask (i := 0) (n := 5) rfl, UInt32.toNat_mul]
    show 2 * (op.field 8 4).toNat % 2 ^ 32 / 2 ^ 0 % 2 ^ 5 * 2 ^ 0 =
      2 * (op.field 8 4).toNat % 2 ^ 32
    omega
  unfold Shifter.rotatedImmediate
  dsimp only
  rw [hbyte, hfield]
  by_cases hzero : 2 * op.field 8 4 = 0
  · rw [if_pos hzero, hzero, Word.rotateRight_zero]
  · rw [if_neg hzero, Shifter.rotateRight]
    dsimp only
    rw [hmask]

theorem value_decodeStatus (op : Word) (c : Cpu) (next address : Word) :
    StatusOperand.value (if op.bit 25 then .constant (op &&& 0xFFF) else .register (op.reg 0))
        (c.setReg .pc next) address =
      statusOperand c address op := by
  unfold statusOperand
  split
  · exact value_rotatedImmediate op _
  · show (c.setReg .pc next).operand (op.reg 0) (address + 8) = _
    unfold Cpu.operand
    split
    · rfl
    next h => exact Cpu.reg_setReg_ne c next (Ne.symm h)

end Arm

/-! ## 3. Steps -/

namespace Cpu

variable {β : Type} [Bus β] {c : Cpu} {bus : β} {op : Word}

/-- `c'` is `c` one instruction further with the current status word replaced by `p`.  As a register
file nothing else has changed: `r0`-`r12`, the saved status words, and the pair of every bank, which
is live in one of them and stored in the others. -/
structure ReplacesStatus (c c' : Cpu) (p : Psr) : Prop where
  file : c'.file =
    { c.file with status := p, pc := (c.pc &&& ~~~3) + 4, cycles := c.cycles + 1 }
  /-- The stack pointer and the link register are those of the bank that `p` names. -/
  live : StackLink.mk (c'.reg .sp) (c'.reg .lr) = c.pair p.bank

theorem ReplacesStatus.of_file {c' : Cpu} {p : Psr}
    (h : c'.file =
      { c.file with status := p, pc := (c.pc &&& ~~~3) + 4, cycles := c.cycles + 1 }) :
    c.ReplacesStatus c' p where
  file := h
  live := by
    -- The live pair is the one that the new status word selects, and no pair has changed.
    have hbank : c'.cpsr.bank = p.bank := congrArg (fun f => f.status.bank) h
    have hpair : c'.pair p.bank = c.pair p.bank := congrArg (fun f => f.pairs p.bank) h
    rw [← hpair, pair, if_pos hbank.symm]

theorem ReplacesStatus.cpsr_eq {c' : Cpu} {p : Psr} (h : c.ReplacesStatus c' p) : c'.cpsr = p :=
  congrArg RegisterFile.status h.file

theorem ReplacesStatus.reg_eq {c' : Cpu} {p : Psr} (h : c.ReplacesStatus c' p) {r : Reg}
    (hr : r.val < 13) : c'.reg r = c.reg r :=
  congrArg (fun f => f.general ⟨r, hr⟩) h.file

theorem ReplacesStatus.pair_eq {c' : Cpu} {p : Psr} (h : c.ReplacesStatus c' p) (b : Bank) :
    c'.pair b = c.pair b :=
  congrArg (fun f => f.pairs b) h.file

theorem step_statusWrite (hop : ExecutesArm c bus op) (h : Arm.IsStatusWrite op) :
    (step c bus).2.1 =
      { Arm.writeStatus (c.setReg .pc ((c.pc &&& ~~~3) + 4)) (op.bit 22) (Arm.statusMask op)
          (Arm.statusOperand c (c.pc &&& ~~~3) op) with
        cycles := c.cycles + 1 } := by
  have hcycles := cycles_perform c bus
  unfold step
  rw [hop.perform_eq, h.decode_eq] at hcycles ⊢
  dsimp only at hcycles ⊢
  rw [hcycles, ← Arm.value_decodeStatus op c ((c.pc &&& ~~~3) + 4)]
  rfl

/-- A new status word and nothing else. -/
theorem replacesStatus_writeCpsr (c : Cpu) (v : Word) :
    c.ReplacesStatus
      { (c.setReg .pc ((c.pc &&& ~~~3) + 4)).writeCpsr v with cycles := c.cycles + 1 } ⟨v⟩ := by
  apply ReplacesStatus.of_file
  show { ((c.setReg .pc ((c.pc &&& ~~~3) + 4)).writeCpsr v).file with cycles := c.cycles + 1 } = _
  rw [file_writeCpsr, file_setReg_pc]

theorem replacesStatus_step (hop : ExecutesArm c bus op) (h : Arm.IsStatusWrite op)
    (hcurrent : op.bit 22 = false) :
    ∃ p : Psr, c.ReplacesStatus (step c bus).2.1 p ∧
      Arm.MaskedWrite op (if c.mode? = some .user then 24 else 0)
        (Arm.statusOperand c (c.pc &&& ~~~3) op) c.cpsr.bits p.bits := by
  rw [step_statusWrite hop h, hcurrent]
  refine ⟨_, replacesStatus_writeCpsr c _, ?_⟩
  show Arm.MaskedWrite op _ _ _ (c.cpsr.bits.overlay (if c.mode? = some .user then _ else _) _)
  split
  · exact Arm.maskedWrite_overlay_flags op _ _
  · exact Arm.maskedWrite_overlay op _ _

/-- A write to the saved status word of the current mode does nothing where there is none. -/
theorem step_statusWrite_of_no_slot (hop : ExecutesArm c bus op) (h : Arm.IsStatusWrite op)
    (hsaved : op.bit 22 = true) (hslot : c.cpsr.bank.savedSlot? = none) :
    (step c bus).2.1 = c.skip ((c.pc &&& ~~~3) + 4) := by
  have hspsr : (c.setReg .pc ((c.pc &&& ~~~3) + 4)).spsr? = none := by
    simp [spsr?, savedOf?, hslot]
  rw [step_statusWrite hop h, hsaved]
  unfold Arm.writeStatus
  simp only [hspsr, if_true]
  rfl

theorem saved_step_statusWrite {slot : SavedSlot} (hop : ExecutesArm c bus op)
    (h : Arm.IsStatusWrite op) (hsaved : op.bit 22 = true)
    (hslot : c.cpsr.bank.savedSlot? = some slot) :
    ∃ w, Arm.MaskedWrite op 0 (Arm.statusOperand c (c.pc &&& ~~~3) op) (c.saved.get slot) w ∧
      (step c bus).2.1 =
        { c.skip ((c.pc &&& ~~~3) + 4) with saved := c.saved.set slot.val w slot.isLt } := by
  have hspsr : (c.setReg .pc ((c.pc &&& ~~~3) + 4)).spsr? = some c.saved[slot] := by
    simp [spsr?, savedOf?, hslot]
  refine ⟨_, Arm.maskedWrite_overlay op _ _, ?_⟩
  rw [step_statusWrite hop h, hsaved]
  unfold Arm.writeStatus
  simp only [hspsr, if_true, setSpsr, cpsr_setReg, hslot]
  rfl

theorem pair_skip (c : Cpu) (next : Word) (b : Bank) : (c.skip next).pair b = c.pair b :=
  pair_setReg_of_ne (by decide) (by decide) c next b

theorem SkipsArm.step_eq (h : SkipsArm c bus) :
    (step c bus).2.1 = c.skip ((c.pc &&& ~~~3) + 4) := by
  unfold step
  rw [h.perform_eq]
  rfl

theorem step_statusRead (hop : ExecutesArm c bus op) (h : Arm.IsStatusRead op) :
    (step c bus).2.1 =
      (c.skip ((c.pc &&& ~~~3) + 4)).setReg (op.reg 12)
        (if op.bit 22 then c.spsr?.getD c.cpsr.bits else c.cpsr.bits) := by
  unfold step
  rw [hop.perform_eq, h.decode_eq]
  rfl

/-! ## 4. Saving and restoring -/

namespace Execution

/-- From step `m` to step `n` a program saves the current status word in the register `r`, writes it
any number of times without entering User mode, and writes it back from `r` with all four fields
selected.  A write whose condition fails is one that does nothing. -/
structure SavesAndRestores (x : Execution β) (m n : Nat) (r : Reg) : Prop where
  before : m < n
  general : r.val < 13
  privileged : (x.state m).mode? ≠ some .user
  save : ∃ op, ExecutesArm (x.state m) (x.bus m) op ∧ Arm.IsStatusRead op ∧ op.bit 22 = false ∧
    op.reg 12 = r
  write : ∀ k, m < k → k < n →
    SkipsArm (x.state k) (x.bus k) ∨
      (∃ op, ExecutesArm (x.state k) (x.bus k) op ∧ Arm.IsStatusWrite op ∧ op.bit 22 = false) ∧
        (x.state (k + 1)).mode? ≠ some .user
  restore : ∃ op, ExecutesArm (x.state n) (x.bus n) op ∧ op &&& 0x0FFFFFF0 = 0x012FF000 ∧
    op.reg 0 = r

variable {x : Execution β} {m n : Nat} {r : Reg}

/-- What holds between saving and restoring. -/
structure Holds (x : Execution β) (m : Nat) (r : Reg) (k : Nat) : Prop where
  saved : (x.state k).reg r = (x.state m).cpsr.bits
  pair : ∀ b, (x.state k).pair b = (x.state m).pair b
  privileged : (x.state k).mode? ≠ some .user

theorem Holds.of_save (h : x.SavesAndRestores m n r) : x.Holds m r (m + 1) := by
  obtain ⟨op, hop, hread, hcurrent, rfl⟩ := h.save
  obtain ⟨hsp, hlr, -⟩ := Reg.ne_of_val_lt h.general
  have hstep := step_statusRead hop hread
  rw [hcurrent] at hstep
  refine ⟨?_, fun b => ?_, ?_⟩
  · rw [x.next, hstep]
    exact reg_setReg_self _ _ _
  · rw [x.next, hstep, pair_setReg_of_ne hsp hlr, pair_skip]
  · rw [x.next, hstep]
    exact h.privileged

theorem Holds.step (h : x.SavesAndRestores m n r) {k : Nat} (hmk : m < k) (hkn : k < n)
    (hk : x.Holds m r k) : x.Holds m r (k + 1) := by
  rcases h.write k hmk hkn with hskip | ⟨⟨op, hop, hwrite, hcurrent⟩, huser⟩
  · obtain ⟨-, -, hpc⟩ := Reg.ne_of_val_lt h.general
    refine ⟨?_, fun b => ?_, ?_⟩
    · rw [x.next, hskip.step_eq]
      exact (reg_setReg_ne _ _ hpc.symm).trans hk.saved
    · rw [x.next, hskip.step_eq, pair_skip]
      exact hk.pair b
    · rw [x.next, hskip.step_eq]
      exact hk.privileged
  · obtain ⟨p, hreplaces, -⟩ := replacesStatus_step hop hwrite hcurrent
    rw [← x.next] at hreplaces
    exact ⟨(hreplaces.reg_eq h.general).trans hk.saved,
      fun b => (hreplaces.pair_eq b).trans (hk.pair b), huser⟩

theorem SavesAndRestores.holds (h : x.SavesAndRestores m n r) : x.Holds m r n := by
  -- By induction on the writes since the word was saved.
  have hrun : ∀ k, m + 1 ≤ k → k ≤ n → x.Holds m r k := by
    intro k hmk
    induction k, hmk using Nat.le_induction with
    | base => exact fun _ => .of_save h
    | succ k hmk ih => exact fun hkn => (ih (by omega)).step h (by omega) hkn
  exact hrun n h.before le_rfl

theorem SavesAndRestores.restored (h : x.SavesAndRestores m n r) :
    (x.state (n + 1)).cpsr = (x.state m).cpsr ∧ (x.state (n + 1)).reg .sp = (x.state m).reg .sp ∧
      (x.state (n + 1)).reg .lr = (x.state m).reg .lr := by
  have hholds := h.holds
  obtain ⟨op, hop, hform, rfl⟩ := h.restore
  obtain ⟨-, -, hpc⟩ := Reg.ne_of_val_lt h.general
  have hwrite : Arm.IsStatusWrite op := .inl (Word.and_eq_of_and_eq hform rfl)
  have hcurrent : op.bit 22 = false := Word.bit_eq_of_and_eq hform (by decide)
  have hregister : op.bit 25 = false := Word.bit_eq_of_and_eq hform (by decide)
  have hoperand (address : Word) :
      Arm.statusOperand (x.state n) address op = (x.state m).cpsr.bits := by
    rw [Arm.statusOperand, hregister, if_neg (by decide), operand_of_ne hpc, hholds.saved]
  have hfields : ∀ i < 32, op.toNat.testBit (16 + i / 8) = true := by
    have hmask : ∀ i < 32, (0x0FFFFFF0 : Word).toNat.testBit (16 + i / 8) = true := by decide
    have hset : ∀ i < 32, (0x012FF000 : Word).toNat.testBit (16 + i / 8) = true := by decide
    exact fun i hi => (Word.testBit_eq_of_and_eq (v := 0x012FF000) hform (hmask i hi)).trans
      (hset i hi)
  obtain ⟨p, hreplaces, hmasked⟩ := replacesStatus_step hop hwrite hcurrent
  rw [← x.next] at hreplaces
  -- All bytes are selected, and outside User mode none is held back.
  have hp : p = (x.state m).cpsr := by
    apply congrArg Psr.mk
    apply Word.eq_of_testBit
    intro i hi
    rw [hmasked i hi, if_neg hholds.privileged, if_pos ⟨Nat.zero_le i, hfields i hi⟩, hoperand]
  rw [hp] at hreplaces
  have hlive := hreplaces.live.trans (hholds.pair _)
  rw [pair, if_pos rfl] at hlive
  exact ⟨hreplaces.cpsr_eq, congrArg StackLink.sp hlive, congrArg StackLink.lr hlive⟩

end Execution

/-- Transfers between status words and registers.  A write to the current status word takes the
selected bytes of the operand, in User mode the top one only, and nothing else changes but the bank
that is live.  A write to the saved status word of the current mode is one such too, and does
nothing where there is none.  A read is a copy.  So a program out of User mode that saves its status
word in one of `r0`-`r12` and restores it from there has its status word, stack pointer and link
register back, whatever it wrote in between. -/
theorem status_transfer (β : Type) [Bus β] :
    (∀ (c : Cpu) (bus : β) (op : Word), ExecutesArm c bus op → Arm.IsStatusWrite op →
      op.bit 22 = false →
      ∃ p : Psr, c.ReplacesStatus (step c bus).2.1 p ∧
        Arm.MaskedWrite op (if c.mode? = some .user then 24 else 0)
          (Arm.statusOperand c (c.pc &&& ~~~3) op) c.cpsr.bits p.bits) ∧
    (∀ (c : Cpu) (bus : β) (op : Word), ExecutesArm c bus op → Arm.IsStatusWrite op →
      op.bit 22 = true →
      (c.cpsr.bank.savedSlot? = none → (step c bus).2.1 = c.skip ((c.pc &&& ~~~3) + 4)) ∧
      ∀ slot, c.cpsr.bank.savedSlot? = some slot →
        ∃ w, Arm.MaskedWrite op 0 (Arm.statusOperand c (c.pc &&& ~~~3) op) (c.saved.get slot) w ∧
          (step c bus).2.1 =
            { c.skip ((c.pc &&& ~~~3) + 4) with saved := c.saved.set slot.val w slot.isLt }) ∧
    (∀ (c : Cpu) (bus : β) (op : Word), ExecutesArm c bus op → Arm.IsStatusRead op →
      (step c bus).2.1 =
        (c.skip ((c.pc &&& ~~~3) + 4)).setReg (op.reg 12)
          (if op.bit 22 then c.spsr?.getD c.cpsr.bits else c.cpsr.bits)) ∧
    ∀ (x : Execution β) (m n : Nat) (r : Reg), x.SavesAndRestores m n r →
      (x.state (n + 1)).cpsr = (x.state m).cpsr ∧
        (x.state (n + 1)).reg .sp = (x.state m).reg .sp ∧
        (x.state (n + 1)).reg .lr = (x.state m).reg .lr :=
  ⟨fun _ _ _ hop h hcurrent => replacesStatus_step hop h hcurrent,
    fun _ _ _ hop h hsaved =>
      ⟨step_statusWrite_of_no_slot hop h hsaved, fun _ => saved_step_statusWrite hop h hsaved⟩,
    fun _ _ _ hop h => step_statusRead hop h, fun _ _ _ _ h => h.restored⟩

/-- `mrs r0, cpsr`, then `msr cpsr_c, #0x12` to IRQ mode, `msr cpsr_c, #0x15` to a pattern that no
mode has, and `msr cpsr_fsxc, r0` back to System mode.  In IRQ mode `msr spsr_f, #0xF0000000` writes
the flags of the saved status word; in System mode it does nothing. -/
theorem status_transfer_detour :
    let ram : FlatRam :=
      ⟨⟨#[0x00, 0x00, 0x0F, 0xE1, 0x12, 0xF0, 0x21, 0xE3, 0x15, 0xF0, 0x21, 0xE3, 0x00, 0xF0, 0x2F,
        0xE1]⟩, false, by decide⟩
    let spsr : FlatRam := ⟨⟨#[0x0F, 0xF2, 0x68, 0xE3]⟩, false, by decide⟩
    let irq := initial.switchMode .irq
    let x := Execution.ofSteps (initial.setReg .sp 0x03007F00) ram
    x.SavesAndRestores 0 3 0 ∧ (x.state 1).reg 0 = 0x1F ∧
      (x.state 1).ReplacesStatus (x.state 2) ⟨0x12⟩ ∧ (x.state 2).reg .sp = 0 ∧
      (x.state 3).mode? = none ∧ (x.state 4).mode? = some .system ∧
      (x.state 4).reg .sp = 0x03007F00 ∧ (step initial spsr).2.1 = initial.skip 4 ∧
      ∃ w, Arm.MaskedWrite 0xE368F20F 0 0xF0000000 0 w ∧
        (step irq spsr).2.1 = { irq.skip 4 with saved := irq.saved.set 1 w } := by
  intro ram spsr irq x
  obtain ⟨hcurrent, hsaved, hread, htrip⟩ := status_transfer FlatRam
  have hmrs : ExecutesArm (x.state 0) (x.bus 0) 0xE10F0000 :=
    ⟨by decide, by decide, by decide, by decide⟩
  have hirq : ExecutesArm (x.state 1) (x.bus 1) 0xE321F012 :=
    ⟨by decide, by decide, by decide, by decide⟩
  have hhole : ExecutesArm (x.state 2) (x.bus 2) 0xE321F015 :=
    ⟨by decide, by decide, by decide, by decide⟩
  have hback : ExecutesArm (x.state 3) (x.bus 3) 0xE12FF000 :=
    ⟨by decide, by decide, by decide, by decide⟩
  have hx : x.SavesAndRestores 0 3 0 :=
    { before := by decide
      general := by decide
      privileged := by decide
      save := ⟨0xE10F0000, hmrs, by decide, by decide, by decide⟩
      write := by
        intro k hlow hhigh
        have hk : k = 1 ∨ k = 2 := by omega
        rcases hk with rfl | rfl
        · exact .inr ⟨⟨0xE321F012, hirq, by decide, by decide⟩, by decide⟩
        · exact .inr ⟨⟨0xE321F015, hhole, by decide, by decide⟩, by decide⟩
      restore := ⟨0xE12FF000, hback, by decide, by decide⟩ }
  have hsame := htrip x 0 3 0 hx
  have hfirst := hread (x.state 0) (x.bus 0) 0xE10F0000 hmrs (by decide)
  obtain ⟨p, hreplaces, -⟩ := hcurrent (x.state 1) (x.bus 1) 0xE321F012 hirq (by decide) (by decide)
  obtain rfl : p = ⟨0x12⟩ := hreplaces.cpsr_eq.symm.trans (by decide)
  have hsystem : ExecutesArm initial spsr 0xE368F20F := ⟨by decide, by decide, by decide, by decide⟩
  have hslot : ExecutesArm irq spsr 0xE368F20F := ⟨by decide, by decide, by decide, by decide⟩
  have hbank : irq.cpsr.bank.savedSlot? = some 1 := by decide
  have hflags := (hsaved irq spsr 0xE368F20F hslot (by decide) (by decide)).2 1 hbank
  have hoperand : Arm.statusOperand irq (irq.pc &&& ~~~3) 0xE368F20F = 0xF0000000 := by decide
  have hnext : (irq.pc &&& ~~~3) + 4 = 4 := by decide
  have hclear : irq.saved.get 1 = 0 := by decide
  rw [hoperand, hnext] at hflags
  obtain ⟨w, hwritten, hstep⟩ := hflags
  rw [hclear] at hwritten
  refine ⟨hx, ?_, hreplaces, by decide, by decide, ?_, hsame.2.1.trans (by decide),
    (hsaved initial spsr 0xE368F20F hsystem (by decide) (by decide)).1 (by decide), w, hwritten,
    hstep⟩
  · rw [x.next 0, hfirst]
    decide
  · show (x.state 4).cpsr.mode? = some .system
    rw [hsame.1]
    decide

end Cpu

end Handheld
