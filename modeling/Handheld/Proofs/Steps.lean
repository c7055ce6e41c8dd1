import Handheld.Cpu.Step
import Handheld.Proofs.Effect

/-!
# Steps and runs of steps

A step fetches and has one effect, or takes an interrupt.  A run of `n + 1` steps is a run of `n`
and one more.
-/

namespace Handheld.Cpu

variable {β : Type} [Bus β]

/-! ## 1. One step -/

/-- Whether the next step takes an interrupt. -/
def takesIrq (c : Cpu) (bus : β) : Bool := !c.flag Psr.irqDisable && Bus.irqPending bus

/-- Writing back what a register holds. -/
theorem setReg_reg (c : Cpu) (r : Reg) : c.setReg r (c.reg r) = c := by
  simp [setReg, reg]

theorem setReg_setReg_self (c : Cpu) (r : Reg) (v w : Word) :
    (c.setReg r v).setReg r w = c.setReg r w := by
  simp [setReg]

theorem perform_irq {c : Cpu} {bus : β} (h : takesIrq c bus = true) :
    perform c bus = (Exception.irqCost, c.enter .irq, bus) := by
  unfold takesIrq at h
  unfold perform
  rw [if_pos h]

theorem step_irq {c : Cpu} {bus : β} (h : takesIrq c bus = true) :
    (step c bus).2 =
      ({ c.enter .irq with cycles := (c.enter .irq).cycles + Exception.irqCost }, bus) := by
  unfold step
  rw [perform_irq h]

theorem perform_eq_stepArm {c : Cpu} {bus : β} (hirq : takesIrq c bus = false)
    (harm : c.cpsr.thumb = false) : perform c bus = stepArm c bus := by
  unfold takesIrq at hirq
  unfold perform
  rw [hirq, if_neg (by decide), harm, if_neg (by decide)]

/-- A step that fetches a 32-bit instruction whose condition holds executes it. -/
theorem perform_arm {c : Cpu} {bus : β} {op : Word} (hirq : takesIrq c bus = false)
    (harm : c.cpsr.thumb = false) (hop : (Bus.read32 bus (c.pc &&& ~~~3)).1 = op)
    (hcond : (Condition.ofBits (op >>> 28)).holds c.cpsr = true) :
    perform c bus =
      ((Arm.decode op).cost,
        Arm.execute (Arm.decode op) (c.setReg .pc ((c.pc &&& ~~~3) + 4))
          (Bus.read32 bus (c.pc &&& ~~~3)).2 (c.pc &&& ~~~3)) := by
  subst hop
  rw [perform_eq_stepArm hirq harm]
  unfold stepArm
  dsimp only
  rw [cpsr_setReg, if_pos hcond]

/-- One whose condition fails only moves on. -/
theorem perform_arm_of_not {c : Cpu} {bus : β} {op : Word} (hirq : takesIrq c bus = false)
    (harm : c.cpsr.thumb = false) (hop : (Bus.read32 bus (c.pc &&& ~~~3)).1 = op)
    (hcond : (Condition.ofBits (op >>> 28)).holds c.cpsr = false) :
    perform c bus =
      (1, c.setReg .pc ((c.pc &&& ~~~3) + 4), (Bus.read32 bus (c.pc &&& ~~~3)).2) := by
  subst hop
  rw [perform_eq_stepArm hirq harm]
  unfold stepArm
  dsimp only
  rw [cpsr_setReg, hcond, if_neg (by decide)]

/-- A step that fetches a 16-bit instruction executes it. -/
theorem perform_thumb {c : Cpu} {bus : β} (hirq : takesIrq c bus = false)
    (hthumb : c.cpsr.thumb = true) :
    perform c bus =
      (1, Thumb.execute (Thumb.decode (Bus.read16 bus (c.pc &&& ~~~1)).1.toUInt32)
        (c.setReg .pc ((c.pc &&& ~~~1) + 2)) (Bus.read16 bus (c.pc &&& ~~~1)).2
        (c.pc &&& ~~~1)) := by
  unfold takesIrq at hirq
  unfold perform
  rw [hirq, if_neg (by decide), hthumb, if_pos rfl]
  rfl

/-- The next step carries out the 32-bit opcode `op`. -/
structure ExecutesArm (c : Cpu) (bus : β) (op : Word) : Prop where
  uninterrupted : takesIrq c bus = false
  arm : c.cpsr.thumb = false
  fetched : (Bus.read32 bus (c.pc &&& ~~~3)).1 = op
  passes : (Condition.ofBits (op >>> 28)).holds c.cpsr = true

/-- The next step carries out the 16-bit opcode `op`. -/
structure ExecutesThumb (c : Cpu) (bus : β) (op : Word) : Prop where
  uninterrupted : takesIrq c bus = false
  thumb : c.cpsr.thumb = true
  fetched : (Bus.read16 bus (c.pc &&& ~~~1)).1.toUInt32 = op

/-- The next step fetches a 32-bit opcode whose condition fails. -/
structure SkipsArm (c : Cpu) (bus : β) : Prop where
  uninterrupted : takesIrq c bus = false
  arm : c.cpsr.thumb = false
  fails : (Condition.ofBits ((Bus.read32 bus (c.pc &&& ~~~3)).1 >>> 28)).holds c.cpsr = false

variable {c : Cpu} {bus : β} {op : Word}

theorem ExecutesArm.perform_eq (h : ExecutesArm c bus op) :
    perform c bus =
      ((Arm.decode op).cost,
        Arm.execute (Arm.decode op) (c.setReg .pc ((c.pc &&& ~~~3) + 4))
          (Bus.read32 bus (c.pc &&& ~~~3)).2 (c.pc &&& ~~~3)) :=
  perform_arm h.uninterrupted h.arm h.fetched h.passes

theorem ExecutesThumb.perform_eq (h : ExecutesThumb c bus op) :
    perform c bus =
      (1, Thumb.execute (Thumb.decode op) (c.setReg .pc ((c.pc &&& ~~~1) + 2))
        (Bus.read16 bus (c.pc &&& ~~~1)).2 (c.pc &&& ~~~1)) := by
  rw [← h.fetched]
  exact perform_thumb h.uninterrupted h.thumb

theorem SkipsArm.perform_eq (h : SkipsArm c bus) :
    perform c bus =
      (1, c.setReg .pc ((c.pc &&& ~~~3) + 4), (Bus.read32 bus (c.pc &&& ~~~3)).2) :=
  perform_arm_of_not h.uninterrupted h.arm rfl h.fails

/-- There is no other kind of step. -/
theorem step_forms (c : Cpu) (bus : β) :
    takesIrq c bus = true ∨ (∃ op, ExecutesThumb c bus op) ∨ (∃ op, ExecutesArm c bus op) ∨
      SkipsArm c bus := by
  cases hirq : takesIrq c bus with
  | true => exact .inl rfl
  | false =>
    right
    cases hthumb : c.cpsr.thumb with
    | true => exact .inl ⟨_, hirq, hthumb, rfl⟩
    | false =>
      right
      cases hcond : (Condition.ofBits
        ((Bus.read32 bus (c.pc &&& ~~~3)).1 >>> 28)).holds c.cpsr with
      | true => exact .inl ⟨_, hirq, hthumb, rfl, hcond⟩
      | false => exact .inr ⟨hirq, hthumb, hcond⟩

/-- Either the step takes an interrupt, or it moves the program counter on and executes. -/
theorem perform_eq_enter_or_effect (c : Cpu) (bus : β) :
    (perform c bus).2.1 = c.enter .irq ∨
      ∃ next, (c.setReg .pc next).Effect (perform c bus).2.1 := by
  rcases step_forms c bus with hirq | ⟨op, hop⟩ | ⟨op, hop⟩ | hskip
  · rw [perform_irq hirq]
    exact .inl rfl
  · rw [hop.perform_eq]
    exact .inr ⟨_, Thumb.effect_execute _ _ _ _⟩
  · rw [hop.perform_eq]
    exact .inr ⟨_, Arm.effect_execute _ _ _ _⟩
  -- The condition fails, and only the program counter moves.
  · rw [hskip.perform_eq]
    exact .inr ⟨_, .quiet (.ordinary (.refl _))⟩

/-! ## 2. Runs -/

theorem stepsFrom_snd (total : Ticks) (n : Nat) (c : Cpu) (bus : β) :
    (stepsFrom total n c bus).2 = (steps n c bus).2 := by
  unfold steps
  -- The total is passed along and never read, so it may differ on the two sides.
  induction n generalizing total c bus with
  | zero => rfl
  | succ n ih =>
    show (stepsFrom (total + (step c bus).1) n (step c bus).2.1 (step c bus).2.2).2 =
      (stepsFrom (0 + (step c bus).1) n (step c bus).2.1 (step c bus).2.2).2
    rw [ih (total + _), ih (0 + _)]

theorem stepsFrom_fst (total : Ticks) (n : Nat) (c : Cpu) (bus : β) :
    (stepsFrom total n c bus).1 = total + (steps n c bus).1 := by
  unfold steps
  induction n generalizing total c bus with
  | zero => exact (Ticks.add_zero total).symm
  | succ n ih =>
    show (stepsFrom (total + (step c bus).1) n (step c bus).2.1 (step c bus).2.2).1 =
      total + (stepsFrom (0 + (step c bus).1) n (step c bus).2.1 (step c bus).2.2).1
    rw [ih (total + _), ih (0 + _), Ticks.zero_add, Ticks.add_assoc]

theorem steps_succ_fst (n : Nat) (c : Cpu) (bus : β) :
    (steps (n + 1) c bus).1 =
      (step c bus).1 + (steps n (step c bus).2.1 (step c bus).2.2).1 := by
  show (stepsFrom (0 + (step c bus).1) n (step c bus).2.1 (step c bus).2.2).1 = _
  rw [stepsFrom_fst, Ticks.zero_add]

theorem steps_succ_snd (n : Nat) (c : Cpu) (bus : β) :
    (steps (n + 1) c bus).2 = (steps n (step c bus).2.1 (step c bus).2.2).2 :=
  stepsFrom_snd _ n _ _

/-- The last step of a run, taken off. -/
theorem steps_succ_snd_last (n : Nat) (c : Cpu) (bus : β) :
    (steps (n + 1) c bus).2 = (step (steps n c bus).2.1 (steps n c bus).2.2).2 := by
  -- The induction takes the first step off both sides, so the state it starts from varies.
  induction n generalizing c bus with
  | zero => rfl
  | succ n ih => rw [steps_succ_snd, ih, ← steps_succ_snd]

/-- A run of `n + k` steps is a run of `n` and one of `k` from where it ended. -/
theorem steps_add (n k : Nat) (c : Cpu) (bus : β) :
    steps (n + k) c bus =
      ((steps n c bus).1 + (steps k (steps n c bus).2.1 (steps n c bus).2.2).1,
        (steps k (steps n c bus).2.1 (steps n c bus).2.2).2) := by
  induction n generalizing c bus with
  | zero =>
    rw [Nat.zero_add]
    exact Prod.ext (Ticks.zero_add _).symm rfl
  | succ n ih =>
    rw [Nat.add_right_comm]
    refine Prod.ext ?_ ?_
    · rw [steps_succ_fst, steps_succ_fst, ih, steps_succ_snd, Ticks.add_assoc]
    · rw [steps_succ_snd, ih, steps_succ_snd]

end Handheld.Cpu
