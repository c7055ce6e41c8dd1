import Handheld.Proofs.Steps

/-!
# Isolation of the banks

A step reaches the pair of the live bank, and that of the bank whose exception it enters.  The pairs
of all other banks stand still, so a handler that keeps its mode cannot touch those of the program
it interrupted, however long it runs.
-/

namespace Handheld.Cpu

/-! ## 1. Operations -/

theorem pair_withCpsr {c : Cpu} {q : Psr} (h : q.bank = c.cpsr.bank) (b : Bank) :
    pair { c with cpsr := q } b = c.pair b := by
  unfold pair
  rw [h]
  rfl

theorem pair_setReg_of_ne {r : Reg} (hsp : r ≠ .sp) (hlr : r ≠ .lr) (c : Cpu) (v : Word)
    (b : Bank) : (c.setReg r v).pair b = c.pair b := by
  unfold pair
  rw [reg_setReg_ne c v hsp, reg_setReg_ne c v hlr]
  rfl

theorem pair_setReg_lr (c : Cpu) (v : Word) (b : Bank) :
    (c.setReg .lr v).pair b = if b = c.cpsr.bank then { c.pair b with lr := v } else c.pair b := by
  unfold pair
  rw [cpsr_setReg, reg_setReg_self, reg_setReg_ne c v (by decide), banked_setReg]
  split <;> rfl

theorem pair_switchMode (c : Cpu) (m : Mode) (b : Bank) : (c.switchMode m).pair b = c.pair b :=
  congrArg (fun f => f.pairs b) (file_switchMode c m)

theorem pair_writeCpsr (c : Cpu) (v : Word) (b : Bank) : (c.writeCpsr v).pair b = c.pair b :=
  congrArg (fun f => f.pairs b) (file_writeCpsr c v)

theorem pair_restoreCpsr (c : Cpu) (b : Bank) : c.restoreCpsr.pair b = c.pair b := by
  unfold restoreCpsr
  split
  · exact pair_writeCpsr c _ b
  · rfl

theorem pair_setSpsr (c : Cpu) (v : Word) (b : Bank) : (c.setSpsr v).pair b = c.pair b := by
  unfold setSpsr
  split <;> rfl

theorem pair_writeStatus (c : Cpu) (saved : Bool) (mask v : Word) (b : Bank) :
    (Arm.writeStatus c saved mask v).pair b = c.pair b := by
  unfold Arm.writeStatus
  cases saved with
  | false => exact pair_writeCpsr c _ b
  | true =>
    simp only [if_true]
    split
    · exact pair_setSpsr c _ b
    · rfl

/-! ## 2. Exceptions -/

theorem cpsr_setSpsr (c : Cpu) (v : Word) : (c.setSpsr v).cpsr = c.cpsr := by
  unfold setSpsr
  split <;> rfl

theorem reg_setSpsr (c : Cpu) (v : Word) (r : Reg) : (c.setSpsr v).reg r = c.reg r := by
  unfold setSpsr
  split <;> rfl

theorem cpsr_switchMode (c : Cpu) (m : Mode) :
    (c.switchMode m).cpsr = c.cpsr.withModeBits m.bits := by
  rw [switchMode_eq]

theorem bank_switchMode (c : Cpu) (m : Mode) : (c.switchMode m).cpsr.bank = m.bank := by
  rw [cpsr_switchMode, Psr.bank_withModeBits]

/-- The status word of a handler: its mode, interrupts disabled, 32-bit instructions. -/
theorem cpsr_enter (c : Cpu) (e : Exception) :
    (c.enter e).cpsr = ((c.cpsr.withModeBits e.mode.bits).assign Psr.irqDisable true).assign
      Psr.thumbState false := by
  show (((c.switchMode e.mode).setSpsr c.cpsr.bits).cpsr.assign Psr.irqDisable true).assign
    Psr.thumbState false = _
  rw [cpsr_setSpsr, cpsr_switchMode]

theorem bank_enter (c : Cpu) (e : Exception) : (c.enter e).cpsr.bank = e.mode.bank := by
  rw [cpsr_enter, Psr.bank_assign (by decide), Psr.bank_assign (by decide),
    Psr.bank_withModeBits]

/-- Entering an exception sets the link register of its bank and moves no other pair. -/
theorem pair_enter (c : Cpu) (e : Exception) (b : Bank) :
    (c.enter e).pair b = if b = e.mode.bank then { c.pair b with lr := c.pc } else c.pair b := by
  have hbank : ((c.switchMode e.mode).setSpsr c.cpsr.bits).cpsr.bank = e.mode.bank := by
    rw [cpsr_setSpsr, bank_switchMode]
  unfold enter
  rw [pair_setReg_of_ne (by decide) (by decide)]
  -- The flags change last, after the link register went into the bank that is then live.
  have hflags := pair_withCpsr (c := ((c.switchMode e.mode).setSpsr c.cpsr.bits).setReg .lr c.pc)
    (q := (c.enter e).cpsr) (by rw [bank_enter, cpsr_setReg, hbank]) b
  rw [pair_setReg_lr, hbank, pair_setSpsr, pair_switchMode] at hflags
  exact hflags

/-! ## 3. Steps -/

theorem Quiet.pair_eq {c c' : Cpu} (h : c.Quiet c') {b : Bank} (hlive : b ≠ c.cpsr.bank)
    (hnext : b ≠ c'.cpsr.bank) : c'.pair b = c.pair b := by
  cases h with
  | ordinary h =>
    -- The bank is live on neither side, so both pairs are read from its slot.
    unfold pair
    rw [if_neg hlive, if_neg hnext, h.banked]
  | exchange thumb target =>
    rw [pair_setReg_of_ne (by decide) (by decide)]
    exact pair_withCpsr (Psr.bank_assign (by decide) _ _) b
  | writeStatus saved mask v => exact pair_writeStatus c saved mask v b
  | restore target => rw [pair_restoreCpsr, pair_setReg_of_ne (by decide) (by decide)]

theorem Effect.pair_eq {c c' : Cpu} (h : c.Effect c') {b : Bank} (hlive : b ≠ c.cpsr.bank)
    (hnext : b ≠ c'.cpsr.bank) : c'.pair b = c.pair b := by
  cases h with
  | quiet h => exact h.pair_eq hlive hnext
  | enter e =>
    rw [bank_enter] at hnext
    rw [pair_enter, if_neg hnext]

variable {β : Type} [Bus β]

/-- A step leaves alone the pair of a bank that is live neither before nor after it. -/
theorem pair_step {c : Cpu} {bus : β} {b : Bank} (hlive : b ≠ c.cpsr.bank)
    (hnext : b ≠ (step c bus).2.1.cpsr.bank) : (step c bus).2.1.pair b = c.pair b := by
  -- The cycle counter, which is all that a step adds, is in no pair.
  change b ≠ (perform c bus).2.1.cpsr.bank at hnext
  show (perform c bus).2.1.pair b = c.pair b
  rcases perform_eq_enter_or_effect c bus with h | ⟨next, h⟩
  · rw [h, bank_enter] at hnext
    rw [h, pair_enter, if_neg hnext]
  · rw [h.pair_eq hlive hnext, pair_setReg_of_ne (by decide) (by decide)]

/-- So does a run in which the bank is never live. -/
theorem pair_steps {c : Cpu} {bus : β} {b : Bank} {n : Nat}
    (h : ∀ k ≤ n, b ≠ (steps k c bus).2.1.cpsr.bank) : (steps n c bus).2.1.pair b = c.pair b := by
  induction n with
  | zero => rfl
  | succ n ih =>
    have hnext := h (n + 1) (Nat.le_refl _)
    rw [steps_succ_snd_last] at hnext ⊢
    rw [pair_step (h n (Nat.le_succ n)) hnext, ih fun k hk => h k (Nat.le_succ_of_le hk)]

end Handheld.Cpu
