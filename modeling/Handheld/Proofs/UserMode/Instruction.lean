import Handheld.Proofs.ExceptionReturn
import Handheld.Proofs.Unbanked

/-!
# Instructions in User mode

In User mode no instruction reads or writes a saved status word or a stored pair: replacing all of
them before an instruction is replacing them after it.
-/

namespace Handheld

namespace Cpu

variable {c : Cpu} {saved : Vector Word 5} {banked : Vector StackLink 6}

theorem bank_of_user (h : c.mode? = some .user) : c.cpsr.bank = 0 := by
  unfold mode? at h
  unfold Psr.bank
  rw [h]
  rfl

/-- User mode has no saved status word. -/
theorem spsr?_of_user (h : c.mode? = some .user) : c.spsr? = none := by
  unfold spsr? savedOf?
  rw [bank_of_user h]
  rfl

/-- So there is no exception to return from. -/
theorem restoreCpsr_setReg_of_user (h : c.mode? = some .user) (r : Reg) (v : Word) :
    (c.setReg r v).restoreCpsr = c.setReg r v :=
  restoreCpsr_setReg_of_none (spsr?_of_user h) r v

/-- A flag mask covers no bit that the flags do not. -/
theorem overlay_flags_and {n : Word} (hn : Psr.flagsMask &&& n = 0) (w mask v : Word) :
    w.overlay (mask &&& Psr.flagsMask) v &&& n = w &&& n := by
  apply Word.overlay_and_of_disjoint
  rw [UInt32.and_assoc, hn, UInt32.and_zero]

/-- All that is left of a write to a status word. -/
theorem writeStatus_of_user (h : c.mode? = some .user) (ofSaved : Bool) (mask v : Word) :
    Arm.writeStatus c ofSaved mask v =
      if ofSaved then c
      else { c with cpsr := ⟨c.cpsr.bits.overlay (mask &&& Psr.flagsMask) v⟩ } := by
  unfold Arm.writeStatus
  cases ofSaved with
  | true => simp only [if_true, spsr?_of_user h]
  | false =>
    -- The mode field is out of reach, so the bank is not changed.
    have hbank : Psr.bank ⟨c.cpsr.bits.overlay (mask &&& Psr.flagsMask) v⟩ = c.cpsr.bank :=
      Psr.bank_eq_of_modeBits_eq (overlay_flags_and (by decide) c.cpsr.bits mask v)
    simp only [Bool.false_eq_true, if_false, if_pos h]
    unfold writeCpsr
    rw [activate_live hbank]

end Cpu

section Instructions

open Cpu

variable {β : Type} [Bus β] {c : Cpu} {saved : Vector Word 5} {banked : Vector StackLink 6}

/-- The instructions that reach for what is privileged find nothing or change nothing, and no other
has a use for it. -/
theorem Arm.execute_withBanks_of_user {i : Instruction} (hi : i ≠ .softwareInterrupt)
    (h : c.mode? = some .user) (bus : β) (address : Word) :
    execute i (c.withBanks saved banked) bus address =
      ((execute i c bus address).1.withBanks saved banked, (execute i c bus address).2) := by
  have h' : (c.withBanks saved banked).mode? = some .user := h
  by_cases hordinary : i.isOrdinary = true
  · exact execute_withBanks hordinary ((spsr?_of_user h').trans (spsr?_of_user h).symm) bus address
  · rcases Instruction.of_not_isOrdinary hordinary with
      ⟨target, rfl⟩ | rfl | ⟨ofSaved, mask, v, rfl⟩ | ⟨op, left, right, hop, rfl⟩
    · rfl
    · exact absurd rfl hi
    · unfold execute
      dsimp only
      rw [writeStatus_of_user h, writeStatus_of_user h']
      cases ofSaved <;> cases v <;> rfl
    · -- The return from an exception has none to return from.
      unfold execute
      dsimp only
      rw [dataProcessing_return hop, dataProcessing_return hop, restoreCpsr_setReg_of_user h,
        restoreCpsr_setReg_of_user h', operandValue_withBanks]
      rfl

end Instructions

end Handheld
