import Handheld.Arm.Decode
import Handheld.Arm.Execute
import Handheld.Condition
import Handheld.Thumb.Decode
import Handheld.Thumb.Execute

/-!
# Running the processor

A step executes one whole instruction, or takes the interrupt that is waiting in its place, and says
what it cost.  A run makes whole steps until a budget of cycles is used up; the last step may go
beyond it.
-/

namespace Handheld.Cpu

variable {β : Type} [Bus β]

/-- Fetch and execute a 32-bit instruction.  One whose condition fails still takes a cycle. -/
@[specialize] def stepArm (c : Cpu) (bus : β) : Ticks × Cpu × β :=
  let address := c.pc &&& ~~~3
  let (op, bus) := Bus.read32 bus address
  let c := c.setReg .pc (address + 4)
  if (Condition.ofBits (op >>> 28)).holds c.cpsr then
    let i := Arm.decode op
    (i.cost, Arm.execute i c bus address)
  else (1, c, bus)

@[specialize] def stepThumb (c : Cpu) (bus : β) : Ticks × Cpu × β :=
  let address := c.pc &&& ~~~1
  let (op, bus) := Bus.read16 bus address
  let c := c.setReg .pc (address + 2)
  let i := Thumb.decode op.toUInt32
  (i.cost, Thumb.execute i c bus address)

/-- What a step does, before its cost is entered into the cycle counter. -/
@[specialize] def perform (c : Cpu) (bus : β) : Ticks × Cpu × β :=
  if !c.flag Psr.irqDisable && Bus.irqPending bus then (Exception.irqCost, c.enter .irq, bus)
  else if c.cpsr.thumb then stepThumb c bus
  else stepArm c bus

@[specialize] def step (c : Cpu) (bus : β) : Ticks × Cpu × β :=
  let (cost, c, bus) := perform c bus
  (cost, { c with cycles := c.cycles + cost }, bus)

/-- `n` steps, their cost added to `total`. -/
@[specialize] def stepsFrom (total : Ticks) : Nat → Cpu → β → Ticks × Cpu × β
  | 0, c, bus => (total, c, bus)
  | n + 1, c, bus =>
    let (cost, c, bus) := step c bus
    stepsFrom (total + cost) n c bus

/-- `n` steps: their total cost and the state after them. -/
@[specialize] def steps (n : Nat) (c : Cpu) (bus : β) : Ticks × Cpu × β := stepsFrom 0 n c bus

/-- Steps until the cycle counter reaches `target`, at most `fuel` of them. -/
@[specialize] def runUntil (target : Ticks) : Nat → Cpu → β → Cpu × β
  | 0, c, bus => (c, bus)
  | fuel + 1, c, bus =>
    if c.cycles < target then
      let (_, c, bus) := step c bus
      runUntil target fuel c bus
    else (c, bus)

/-- Whole steps until at least `budget` cycles have gone by; the cycles actually used, and the state
after them.  Every step takes a cycle, so there are at most `budget` of them. -/
@[specialize] def run (c : Cpu) (bus : β) (budget : Ticks) : Ticks × Cpu × β :=
  let (c', bus) := runUntil (c.cycles + budget) budget.count.toNat c bus
  (c'.cycles - c.cycles, c', bus)

end Handheld.Cpu
