import Handheld.Cpu

/-!
# Exceptions

Entering an exception is a change of state only: the handler is ordinary code, and returns by
writing the program counter from the link register.  The link register holds the address of the
next instruction in both cases.
-/

namespace Handheld

inductive Exception where
  | softwareInterrupt
  | irq
deriving DecidableEq, Repr

namespace Exception

def mode : Exception → Mode
  | softwareInterrupt => .supervisor
  | irq => .irq

def vector : Exception → Word
  | softwareInterrupt => 0x08
  | irq => 0x18

/-- What it costs to take an interrupt in place of an instruction. -/
def irqCost : Ticks := 3

end Exception

/-- Enter an exception between two instructions: switch the mode, save the old status word, link to
the next instruction, disable interrupts and continue at the handler with 32-bit instructions. -/
def Cpu.enter (c : Cpu) (e : Exception) : Cpu :=
  let next := c.pc
  let handler := (c.switchMode e.mode).setSpsr c.cpsr.bits
  let handler := (handler.setReg .lr next).setFlag Psr.irqDisable true
  (handler.setThumb false).setReg .pc e.vector

end Handheld
