import Handheld.Bus.FlatRam
import Handheld.Proofs.Transition

/-!
# One step and the banks

A step reaches the live bank only.  Entering an exception links and saves in the bank of the
handler, which is live from then on.  Any other step may write the pair that is live before and
after it, but one that changes the bank leaves that pair as it was: no instruction writes a stack
pointer or link register and changes the bank together.
-/

namespace Handheld.Cpu

/-! ## 1. Saved status words -/

theorem saved_setSpsr_of_ne {c : Cpu} {slot : SavedSlot}
    (h : c.cpsr.bank.savedSlot? ≠ some slot) (v : Word) :
    (c.setSpsr v).saved.get slot = c.saved.get slot := by
  unfold setSpsr
  split
  next live hlive =>
    have hne : live.val ≠ slot.val := fun heq => h (hlive.trans (congrArg some (Fin.ext heq)))
    exact Vector.getElem_set_ne live.isLt slot.isLt hne
  next => rfl

theorem saved_writeCpsr (c : Cpu) (v : Word) : (c.writeCpsr v).saved = c.saved :=
  saved_activate c _

theorem saved_restoreCpsr (c : Cpu) : c.restoreCpsr.saved = c.saved := by
  unfold restoreCpsr
  split
  · exact saved_writeCpsr c _
  · rfl

theorem saved_writeStatus_of_ne {c : Cpu} {slot : SavedSlot} {saved : Bool}
    (h : saved = true → c.cpsr.bank.savedSlot? ≠ some slot) (mask v : Word) :
    (Arm.writeStatus c saved mask v).saved.get slot = c.saved.get slot := by
  unfold Arm.writeStatus
  cases saved with
  | false => exact congrArg (·.get slot) (saved_writeCpsr c _)
  | true =>
    simp only [if_true]
    split
    · exact saved_setSpsr_of_ne (h rfl) _
    · rfl

theorem saved_enter_of_ne {e : Exception} {slot : SavedSlot}
    (h : e.mode.bank.savedSlot? ≠ some slot) (c : Cpu) :
    (c.enter e).saved.get slot = c.saved.get slot := by
  -- The status word is saved where the handler's mode has its place.
  rw [← bank_switchMode c e.mode] at h
  exact (saved_setSpsr_of_ne h _).trans (congrArg (·.get slot) (saved_activate c e.mode.bank))

/-! ## 2. Steps -/

variable {β : Type} [Bus β] {c c' : Cpu} {bus : β}

/-- Outside an entry, a step changes at most the pair that is live before and after it. -/
theorem Transition.pair_eq (h : Transition c bus c') (hquiet : entry? c bus = none) {b : Bank}
    (hb : b = c.cpsr.bank → c'.cpsr.bank ≠ b) : c'.pair b = c.pair b := by
  cases h with
  | enter next h =>
    rw [hquiet] at h
    cases h
  | ordinary h =>
    -- The mode is kept, so the bank is not live, and is read from its slot.
    have hne : b ≠ c.cpsr.bank := fun heq => hb heq (h.bank_eq.trans heq.symm)
    unfold pair
    rw [h.bank_eq, if_neg hne, if_neg hne, h.banked]
  | exchange thumb target =>
    rw [pair_setReg_of_ne (by decide) (by decide)]
    -- T lies outside the mode field.
    exact pair_withCpsr (Psr.bank_assign (by decide) _ _) b
  -- Before a bank switch only the program counter is written, and the switch itself moves the pairs
  -- between the registers and the slots without changing any.
  | writeStatus next v => rw [pair_writeStatus, pair_setReg_of_ne (by decide) (by decide)]
  | restore target => rw [pair_restoreCpsr, pair_setReg_of_ne (by decide) (by decide)]

/-- Outside an entry, only a write to the saved status word changes one, and only that of the
current mode. -/
theorem Transition.saved_eq (h : Transition c bus c') (hquiet : entry? c bus = none)
    (slot : SavedSlot) :
    c'.saved.get slot = c.saved.get slot ∨
      (c.cpsr.bank.savedSlot? = some slot ∧ ∃ op, WritesStatus c bus true op) := by
  cases h with
  | enter next h =>
    rw [hquiet] at h
    cases h
  | ordinary h => exact .inl (congrArg (·.get slot) h.saved)
  | exchange thumb target => exact .inl rfl
  | @writeStatus saved op next v hop =>
    -- Either the write goes elsewhere, or it names this slot and is itself the exception.
    by_cases hslot : saved = true → c.cpsr.bank.savedSlot? ≠ some slot
    · exact .inl (saved_writeStatus_of_ne (c := c.setReg .pc next) hslot _ _)
    · obtain ⟨rfl, hlive⟩ := Classical.not_imp.1 hslot
      exact .inr ⟨not_not.1 hlive, op, hop⟩
  | restore target => exact .inl (congrArg (·.get slot) (saved_restoreCpsr _))

/-- What one step reaches of the six pairs and the five saved status words.  Entering an exception:
the link register of the handler's bank, and the saved status word that goes with it.  Any other
step: the pair that is live before and after it, and by a write to the saved status word the one of
the mode before it. -/
theorem step_reaches_live_bank (c : Cpu) (bus : β) :
    let after := (step c bus).2.1
    (∀ e, entry? c bus = some e →
      (∀ b, (after.pair b).sp = (c.pair b).sp) ∧
      (∀ b ≠ e.mode.bank, (after.pair b).lr = (c.pair b).lr) ∧
      ∀ slot, e.mode.bank.savedSlot? ≠ some slot → after.saved.get slot = c.saved.get slot) ∧
    ( entry? c bus = none →
      (∀ b ≠ c.cpsr.bank, after.pair b = c.pair b) ∧
      (after.cpsr.bank ≠ c.cpsr.bank → after.pair c.cpsr.bank = c.pair c.cpsr.bank) ∧
      ∀ slot, after.saved.get slot = c.saved.get slot ∨
        (c.cpsr.bank.savedSlot? = some slot ∧ ∃ op, WritesStatus c bus true op)) := by
  intro after
  -- The cycle counter, which is all that a step adds, is in no pair and no saved status word.
  refine ⟨fun e he => ?_, fun hquiet => ?_⟩
  · obtain ⟨next, hnext⟩ := perform_of_entry he
    have hpair (b : Bank) : after.pair b =
        if b = e.mode.bank then { c.pair b with lr := next } else c.pair b := by
      show (perform c bus).2.1.pair b = _
      rw [hnext, pair_enter, pair_setReg_of_ne (by decide) (by decide)]
      rw [pc, reg_setReg_self]
    refine ⟨fun b => ?_, fun b hb => ?_, fun slot hslot => ?_⟩
    · rw [hpair]
      split <;> rfl
    · rw [hpair, if_neg hb]
    · show (perform c bus).2.1.saved.get slot = _
      rw [hnext]
      exact saved_enter_of_ne hslot _
  · have hstep := transition_perform c bus
    exact ⟨fun b hb => hstep.pair_eq hquiet fun heq => absurd heq hb,
      fun hbank => hstep.pair_eq hquiet fun _ => hbank,
      fun slot => hstep.saved_eq hquiet slot⟩

/-- `SWI` from System mode, `MOVS PC, LR` from IRQ mode back to System, and `MSR SPSR, r0` there. -/
theorem step_reaches_live_bank_irq :
    let swi : FlatRam := ⟨⟨#[0, 0, 0, 0xEF]⟩, false, by decide⟩
    let movs : FlatRam := ⟨⟨#[0x0E, 0xF0, 0xB0, 0xE1]⟩, false, by decide⟩
    let msr : FlatRam := ⟨⟨#[0x00, 0xF0, 0x6F, 0xE1]⟩, false, by decide⟩
    let program := (initial.setReg .sp 0x03007F00).setReg .lr 0x104
    let handler := ((program.switchMode .irq).setReg .sp 0x03007FA0).setSpsr 0x1F
    let entered := (step program swi).2.1
    let returned := (step handler movs).2.1
    let written := (step handler msr).2.1
    (entered.pair 0).sp = 0x03007F00 ∧ (entered.pair 0).lr = 0x104 ∧ entered.saved.get 1 = 0 ∧
      returned.cpsr.bank = 0 ∧ (returned.pair 2).sp = 0x03007FA0 ∧
      written.saved.get 1 ≠ handler.saved.get 1 ∧ written.saved.get 2 = 0 := by
  intro swi movs msr program handler entered returned written
  obtain ⟨hsp, hlr, hsaved⟩ :=
    (step_reaches_live_bank program swi).1 .softwareInterrupt (by decide)
  obtain ⟨-, hleft, -⟩ := (step_reaches_live_bank handler movs).2 (by decide)
  obtain ⟨-, -, hslots⟩ := (step_reaches_live_bank handler msr).2 (by decide)
  have hback : returned.cpsr.bank = 0 := by decide
  have hlive : handler.cpsr.bank = 2 := by decide
  have hpair : returned.pair handler.cpsr.bank = handler.pair handler.cpsr.bank :=
    hleft (by decide)
  rw [hlive] at hpair
  have hslot : written.saved.get 2 = handler.saved.get 2 :=
    (hslots 2).resolve_right fun ⟨hlive, _⟩ => absurd hlive (by decide)
  exact ⟨(hsp 0).trans (by decide), (hlr 0 (by decide)).trans (by decide),
    (hsaved 1 (by decide)).trans (by decide), hback,
    (congrArg StackLink.sp hpair).trans (by decide), by decide, hslot.trans (by decide)⟩

end Handheld.Cpu
