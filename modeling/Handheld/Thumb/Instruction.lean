import Handheld.Bus.Width
import Handheld.Condition
import Handheld.Shifter
import Handheld.Ticks

/-!
# The 16-bit instruction set

An instruction as a value, its fields read and its offsets scaled to bytes.  Where no register is
named otherwise it is one of `r0`-`r7`.  Every instruction takes one cycle.
-/

namespace Handheld.Thumb

/-- The sixteen two-register operations, in the order of their encoding. -/
inductive AluOp where
  | and
  | eor
  | lsl
  | lsr
  | asr
  | adc
  | sbc
  | ror
  | tst
  | neg
  | cmp
  | cmn
  | orr
  | mul
  | bic
  | mvn
deriving DecidableEq, Repr

/-- An operation of a register with an eight-bit constant. -/
inductive ConstantOp where
  | mov
  | cmp
  | add
  | sub
deriving DecidableEq, Repr

inductive Operand where
  | register (r : Reg)
  | constant (n : Word)
deriving DecidableEq, Repr

inductive Instruction where
  | shift (kind : ShiftKind) (amount : Word) (dest source : Reg)
  | add (dest left : Reg) (right : Operand)
  | subtract (dest left : Reg) (right : Operand)
  | withConstant (op : ConstantOp) (r : Reg) (n : Word)
  | alu (op : AluOp) (dest source : Reg)
  /-- An addition on any two registers, which leaves the flags alone. -/
  | addAny (dest source : Reg)
  /-- A comparison of any two registers. -/
  | compareAny (left right : Reg)
  /-- A move between any two registers, which leaves the flags alone. -/
  | moveAny (dest source : Reg)
  /-- A jump to the address in any register. -/
  | branchExchange (target : Reg)
  /-- A word loaded from beyond the instruction. -/
  | loadLiteral (dest : Reg) (offset : Word)
  | load (kind : Load) (dest base : Reg) (offset : Operand)
  | store (kind : Store) (data base : Reg) (offset : Operand)
  /-- The address at an offset from the stack pointer or the program counter. -/
  | addressOf (fromStack : Bool) (dest : Reg) (offset : Word)
  | moveStack (offset : Word)
  | push (regs : List Reg)
  | pop (regs : List Reg) (withPc : Bool)
  | storeMultiple (base : Reg) (regs : List Reg)
  | loadMultiple (base : Reg) (regs : List Reg)
  | softwareInterrupt
  /-- A branch by a distance in bytes from the address of the instruction plus four. -/
  | branchIf (cond : Condition) (distance : Word)
  | branch (distance : Word)
  /-- The first half of a long call: the upper part of the distance. -/
  | callHigh (distance : Word)
  /-- The second half of a long call: the lower part of the distance. -/
  | callLow (distance : Word)
  /-- An encoding that does nothing. -/
  | ignored
deriving DecidableEq, Repr

def Instruction.cost (_ : Instruction) : Ticks := 1

end Handheld.Thumb
