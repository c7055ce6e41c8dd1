import Handheld.Proofs.ExceptionReturn

/-!
# Steps that enter an exception

Whether the next step enters an exception, and which, can be told from the state before it.  All
other steps have one of the quiet effects.
-/

namespace Handheld.Cpu

variable {β : Type} [Bus β] {c : Cpu} {bus : β}

/-- The exception that the next step enters, if it enters one. -/
def entry? (c : Cpu) (bus : β) : Option Exception :=
  if takesIrq c bus then some .irq
  else if c.cpsr.thumb then
    if Thumb.decode (Bus.read16 bus (c.pc &&& ~~~1)).1.toUInt32 = .softwareInterrupt then
      some .softwareInterrupt
    else none
  else
    let op := (Bus.read32 bus (c.pc &&& ~~~3)).1
    if (Condition.ofBits (op >>> 28)).holds c.cpsr ∧ Arm.decode op = .softwareInterrupt then
      some .softwareInterrupt
    else none

theorem entry?_of_irq (h : takesIrq c bus = true) : entry? c bus = some .irq := by
  unfold entry?
  rw [if_pos h]

theorem ExecutesThumb.entry?_eq {op : Word} (h : ExecutesThumb c bus op) :
    entry? c bus =
      if Thumb.decode op = .softwareInterrupt then some .softwareInterrupt else none := by
  unfold entry?
  rw [h.uninterrupted, if_neg (by decide), if_pos h.thumb, h.fetched]

theorem ExecutesArm.entry?_eq {op : Word} (h : ExecutesArm c bus op) :
    entry? c bus =
      if Arm.decode op = .softwareInterrupt then some .softwareInterrupt else none := by
  unfold entry?
  rw [h.uninterrupted, if_neg (by decide), h.arm, if_neg (by decide)]
  simp only [h.fetched, h.passes, true_and]

theorem SkipsArm.entry?_eq (h : SkipsArm c bus) : entry? c bus = none := by
  unfold entry?
  rw [h.uninterrupted, if_neg (by decide), h.arm, if_neg (by decide)]
  simp only [h.fails, Bool.false_eq_true, false_and, if_false]

/-- A step that enters no exception carries out an instruction other than the software interrupt, or
skips one. -/
theorem quiet_cases (h : entry? c bus = none) :
    (∃ op, ExecutesThumb c bus op ∧ Thumb.decode op ≠ .softwareInterrupt) ∨
      (∃ op, ExecutesArm c bus op ∧ Arm.decode op ≠ .softwareInterrupt) ∨ SkipsArm c bus := by
  rcases step_forms c bus with hirq | ⟨op, hop⟩ | ⟨op, hop⟩ | hskip
  · rw [entry?_of_irq hirq] at h
    cases h
  · refine .inl ⟨op, hop, fun hswi => ?_⟩
    rw [hop.entry?_eq, if_pos hswi] at h
    cases h
  · refine .inr (.inl ⟨op, hop, fun hswi => ?_⟩)
    rw [hop.entry?_eq, if_pos hswi] at h
    cases h
  · exact .inr (.inr hskip)

/-- A step that does enter one is the entry, after the fetch in case of a software interrupt. -/
theorem perform_of_entry {e : Exception} (h : entry? c bus = some e) :
    ∃ next, (perform c bus).2.1 = (c.setReg .pc next).enter e := by
  rcases step_forms c bus with hirq | ⟨op, hop⟩ | ⟨op, hop⟩ | hskip
  · -- Nothing is fetched, so the program counter is the old one.
    rw [entry?_of_irq hirq] at h
    cases h
    rw [perform_irq hirq]
    exact ⟨c.pc, by rw [pc, setReg_reg]⟩
  · rw [hop.entry?_eq] at h
    split at h
    next hswi =>
      cases h
      rw [hop.perform_eq, hswi]
      exact ⟨_, rfl⟩
    next => cases h
  · rw [hop.entry?_eq] at h
    split at h
    next hswi =>
      cases h
      rw [hop.perform_eq, hswi]
      exact ⟨_, rfl⟩
    next => cases h
  · rw [hskip.entry?_eq] at h
    cases h

/-- The state in which the handler of an exception starts. -/
structure AtHandler (e : Exception) (c : Cpu) : Prop where
  pc : c.pc = e.vector
  mode : c.mode? = some e.mode
  masked : c.flag Psr.irqDisable = true
  arm : c.cpsr.thumb = false

theorem atHandler_enter (c : Cpu) (e : Exception) : AtHandler e (c.enter e) where
  pc := pc_enter c e
  mode := Psr.mode?_of_bank (by cases e <;> rfl) (bank_enter c e)
  masked := flag_irqDisable_enter c e
  arm := thumb_enter c e

theorem atHandler_step {e : Exception} (h : entry? c bus = some e) :
    AtHandler e (step c bus).2.1 := by
  obtain ⟨next, hnext⟩ := perform_of_entry h
  have henter := atHandler_enter (c.setReg .pc next) e
  rw [← hnext] at henter
  -- The cycle counter, which is all that a step adds, is not part of it.
  exact ⟨henter.pc, henter.mode, henter.masked, henter.arm⟩

theorem quiet_perform (h : entry? c bus = none) :
    ∃ next, (c.setReg .pc next).Quiet (perform c bus).2.1 := by
  rcases quiet_cases h with ⟨op, hop, hi⟩ | ⟨op, hop, hi⟩ | hskip
  · rw [hop.perform_eq]
    exact ⟨_, Thumb.quiet_execute hi _ _ _⟩
  · rw [hop.perform_eq]
    exact ⟨_, Arm.quiet_execute hi _ _ _⟩
  · rw [hskip.perform_eq]
    exact ⟨_, .ordinary (.refl _)⟩

end Handheld.Cpu
