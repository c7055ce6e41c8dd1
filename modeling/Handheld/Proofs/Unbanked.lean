import Handheld.Proofs.Effect

/-!
# Instructions that reach no bank

Most instructions read and write no stored pair, and of the saved status words at most the one that
the current mode reads.  Replacing all of these before such an instruction is replacing them after
it.
-/

namespace Handheld

namespace Cpu

/-! ## 1. The banks replaced -/

/-- The same state with other saved status words and other stored pairs. -/
def withBanks (c : Cpu) (saved : Vector Word 5) (banked : Vector StackLink 6) : Cpu :=
  { c with saved := saved, banked := banked }

variable {c : Cpu} {saved : Vector Word 5} {banked : Vector StackLink 6}

theorem withBanks_setRegs (c : Cpu) (rs : List Reg) (vs : List Word) :
    (c.setRegs rs vs).withBanks saved banked = (c.withBanks saved banked).setRegs rs vs :=
  setRegs_comm (f := fun d => d.withBanks saved banked) (fun _ _ _ _ => rfl) c vs

end Cpu

section Instructions

open Cpu

variable {β : Type} [Bus β] {c : Cpu} {saved : Vector Word 5} {banked : Vector StackLink 6}

/-! ## 2. The 32-bit instructions -/

namespace Arm

theorem multiply_withBanks (accumulate setFlags : Bool) (dest left right addend : Reg) :
    multiply (c.withBanks saved banked) accumulate setFlags dest left right addend =
      (multiply c accumulate setFlags dest left right addend).withBanks saved banked := by
  unfold multiply
  cases setFlags <;> rfl

theorem multiplyLong_withBanks (signed accumulate setFlags : Bool) (high low left right : Reg) :
    multiplyLong (c.withBanks saved banked) signed accumulate setFlags high low left right =
      (multiplyLong c signed accumulate setFlags high low left right).withBanks saved banked := by
  unfold multiplyLong
  cases setFlags <;> rfl

theorem operandValue_withBanks (o : Operand) (pc : Word) :
    o.value (c.withBanks saved banked) pc = o.value c pc := by
  cases o <;> rfl

theorem dataProcessing_withBanks {op : AluOp} {setFlags : Bool} {dest : Reg}
    (h : (setFlags && op.writes && dest == Reg.pc) = false) (left : Reg) (right : Operand)
    (address : Word) :
    dataProcessing (c.withBanks saved banked) op setFlags dest left right address =
      (dataProcessing c op setFlags dest left right address).withBanks saved banked := by
  unfold dataProcessing
  dsimp only
  rw [operandValue_withBanks]
  cases setFlags with
  | false => cases op.writes <;> rfl
  | true =>
    rw [Bool.true_and] at h
    rw [h]
    cases op.writes <;> rfl

theorem transfer_withBanks (t : Transfer) (bus : β) (address : Word) :
    t.execute (c.withBanks saved banked) bus address =
      ((t.execute c bus address).1.withBanks saved banked, (t.execute c bus address).2) := by
  have hoffset (pc : Word) :
      t.offset.value (c.withBanks saved banked) pc = t.offset.value c pc := by
    cases t.offset <;> rfl
  have hmoved : t.moved (c.withBanks saved banked) address = t.moved c address := by
    unfold Transfer.moved
    rw [hoffset]
    rfl
  have htarget : t.target (c.withBanks saved banked) address = t.target c address := by
    unfold Transfer.target
    rw [hmoved]
    rfl
  unfold Transfer.execute
  dsimp only
  rw [hmoved, htarget]
  cases t.writeBack <;> cases t.move <;> rfl

/-- The saved status word of the current mode can be read, so that one has to be the same. -/
theorem execute_withBanks {i : Instruction} (hi : i.isOrdinary = true)
    (hspsr : (c.withBanks saved banked).spsr? = c.spsr?) (bus : β) (address : Word) :
    execute i (c.withBanks saved banked) bus address =
      ((execute i c bus address).1.withBanks saved banked, (execute i c bus address).2) := by
  -- Most instructions mention no bank, and the two sides compute to the same state once the choices
  -- they make are made.
  cases i with
  | branchExchange target => cases hi
  | branch link distance => cases link <;> rfl
  | softwareInterrupt => cases hi
  | push regs => rfl
  | pop regs =>
    unfold execute pop
    dsimp only
    rw [withBanks_setRegs]
    rfl
  | transfer t => exact transfer_withBanks t bus address
  | multiply accumulate setFlags dest left right addend =>
    unfold execute
    dsimp only
    rw [multiply_withBanks]
  | multiplyLong signed accumulate setFlags high low left right =>
    unfold execute
    dsimp only
    rw [multiplyLong_withBanks]
  | swap byte dest source base => cases byte <;> rfl
  | readStatus ofSaved dest =>
    unfold execute readStatus
    dsimp only
    rw [hspsr]
    rfl
  | writeStatus ofSaved mask v => cases hi
  | dataProcessing op setFlags dest left right =>
    unfold execute
    dsimp only
    rw [dataProcessing_withBanks ((Bool.not_eq_true' _).mp hi)]
  | ignored => rfl

end Arm

/-! ## 3. The 16-bit instructions -/

namespace Thumb

theorem pop_withBanks (bus : β) (regs : List Reg) (withPc : Bool) :
    pop (c.withBanks saved banked) bus regs withPc =
      ((pop c bus regs withPc).1.withBanks saved banked, (pop c bus regs withPc).2) := by
  unfold pop
  dsimp only
  rw [← withBanks_setRegs]
  cases withPc <;> rfl

theorem loadMultiple_withBanks (bus : β) (base : Reg) (regs : List Reg) :
    loadMultiple (c.withBanks saved banked) bus base regs =
      ((loadMultiple c bus base regs).1.withBanks saved banked,
        (loadMultiple c bus base regs).2) := by
  unfold loadMultiple
  dsimp only
  rw [← withBanks_setRegs]
  cases regs.contains base <;> rfl

theorem execute_withBanks {i : Instruction} (hi : i ≠ .softwareInterrupt) (bus : β)
    (address : Word) :
    execute i (c.withBanks saved banked) bus address =
      ((execute i c bus address).1.withBanks saved banked, (execute i c bus address).2) := by
  cases i with
  | shift kind amount dest source => rfl
  | add dest left right => cases right <;> rfl
  | subtract dest left right => cases right <;> rfl
  | withConstant op r n => cases op <;> rfl
  | alu op dest source => cases op <;> rfl
  | addAny dest source => rfl
  | compareAny left right => rfl
  | moveAny dest source => rfl
  | branchExchange target => rfl
  | loadLiteral dest offset => rfl
  | load kind dest base offset => cases offset <;> rfl
  | store kind data base offset => cases offset <;> rfl
  | addressOf fromStack dest offset => rfl
  | moveStack offset => rfl
  | push regs => rfl
  | pop regs withPc => exact pop_withBanks bus regs withPc
  | storeMultiple base regs => rfl
  | loadMultiple base regs => exact loadMultiple_withBanks bus base regs
  | softwareInterrupt => exact absurd rfl hi
  | branchIf cond distance =>
    unfold execute
    dsimp only
    have hcpsr : (c.withBanks saved banked).cpsr = c.cpsr := rfl
    rw [hcpsr]
    split <;> rfl
  | branch distance => rfl
  | callHigh distance => rfl
  | callLow distance => rfl
  | ignored => rfl

end Thumb

end Instructions

end Handheld
