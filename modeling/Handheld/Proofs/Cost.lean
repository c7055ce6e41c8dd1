import Handheld.Proofs.Steps

/-!
# What a step costs

No instruction touches the cycle counter; a step adds its cost to it, which is between one and five
cycles.  Five is the price of a long multiplication with an addend.
-/

namespace Handheld

/-- From one cycle to five. -/
def Ticks.IsStepCost (t : Ticks) : Prop := 1 ≤ t.count.toNat ∧ t.count.toNat ≤ 5

instance : DecidablePred Ticks.IsStepCost := fun t => by
  unfold Ticks.IsStepCost
  infer_instance

/-! ## 1. Instructions -/

theorem Arm.isStepCost_cost (i : Instruction) : i.cost.IsStepCost := by
  unfold Instruction.cost
  split
  · decide
  next accumulate _ _ _ _ _ => cases accumulate <;> decide
  next accumulate _ _ _ _ _ => cases accumulate <;> decide
  · decide

namespace Cpu

theorem cycles_activate (c : Cpu) (b : Bank) : (c.activate b).cycles = c.cycles := by
  unfold activate
  split <;> rfl

theorem cycles_setSpsr (c : Cpu) (v : Word) : (c.setSpsr v).cycles = c.cycles := by
  unfold setSpsr
  split <;> rfl

theorem cycles_writeCpsr (c : Cpu) (v : Word) : (c.writeCpsr v).cycles = c.cycles :=
  cycles_activate c _

theorem cycles_restoreCpsr (c : Cpu) : c.restoreCpsr.cycles = c.cycles := by
  unfold restoreCpsr
  split
  · exact cycles_writeCpsr c _
  · rfl

theorem cycles_enter (c : Cpu) (e : Exception) : (c.enter e).cycles = c.cycles := by
  show ((c.switchMode e.mode).setSpsr c.cpsr.bits).cycles = c.cycles
  rw [cycles_setSpsr]
  exact cycles_activate c _

theorem cycles_writeStatus (c : Cpu) (saved : Bool) (mask v : Word) :
    (Arm.writeStatus c saved mask v).cycles = c.cycles := by
  unfold Arm.writeStatus
  cases saved with
  | false => exact cycles_writeCpsr c _
  | true =>
    simp only [if_true]
    split
    · exact cycles_setSpsr c _
    · rfl

theorem Quiet.cycles_eq {c c' : Cpu} (h : c.Quiet c') : c'.cycles = c.cycles := by
  cases h with
  | ordinary h => exact h.cycles
  | exchange thumb target => rfl
  | writeStatus saved mask v => exact cycles_writeStatus c saved mask v
  | restore target => exact cycles_restoreCpsr _

theorem Effect.cycles_eq {c c' : Cpu} (h : c.Effect c') : c'.cycles = c.cycles := by
  cases h with
  | quiet h => exact h.cycles_eq
  | enter e => exact cycles_enter c e

/-! ## 2. Steps -/

variable {β : Type} [Bus β]

theorem cycles_perform (c : Cpu) (bus : β) : (perform c bus).2.1.cycles = c.cycles := by
  rcases perform_eq_enter_or_effect c bus with h | ⟨next, h⟩
  · rw [h, cycles_enter]
  · rw [h.cycles_eq, cycles_setReg]

/-- A step enters its cost into the cycle counter. -/
theorem cycles_step (c : Cpu) (bus : β) :
    (step c bus).2.1.cycles = c.cycles + (step c bus).1 := by
  show (perform c bus).2.1.cycles + (perform c bus).1 = c.cycles + (perform c bus).1
  rw [cycles_perform]

/-- The cost of a step is that of an interrupt, of an instruction or of a failed condition. -/
theorem isStepCost_step (c : Cpu) (bus : β) : (step c bus).1.IsStepCost := by
  have hirq : Exception.irqCost.IsStepCost := by decide
  have hone : Ticks.IsStepCost 1 := by decide
  show (perform c bus).1.IsStepCost
  unfold perform
  split
  · exact hirq
  · split
    · exact hone
    · unfold stepArm
      dsimp only
      split
      · exact Arm.isStepCost_cost _
      · exact hone

end Cpu

end Handheld
