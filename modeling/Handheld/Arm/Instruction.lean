import Handheld.Bus.Width
import Handheld.Psr
import Handheld.Shifter
import Handheld.Ticks

/-!
# The 32-bit instruction set

An instruction as a value, its fields read once.  What each costs is a matter of its form alone.
-/

namespace Handheld.Arm

/-- The sixteen data-processing operations, in the order of their encoding. -/
inductive AluOp where
  | and
  | eor
  | sub
  | rsb
  | add
  | adc
  | sbc
  | rsc
  | tst
  | teq
  | cmp
  | cmn
  | orr
  | mov
  | bic
  | mvn
deriving DecidableEq, Repr

inductive Operand where
  /-- A rotated constant, as the low twelve bits of the opcode. -/
  | constant (encoded : Word)
  /-- A register shifted by an amount in the opcode. -/
  | shifted (r : Reg) (kind : ShiftKind) (amount : Word)
  /-- A register shifted by the low byte of another. -/
  | shiftedBy (r : Reg) (kind : ShiftKind) (amount : Reg)
deriving DecidableEq, Repr

inductive Offset where
  | constant (n : Word)
  /-- A register shifted by an amount in the opcode. -/
  | shifted (r : Reg) (kind : ShiftKind) (amount : Word)
deriving DecidableEq, Repr

inductive Movement where
  | load (kind : Load)
  | store (kind : Store)
  /-- Two words into an even/odd pair of registers. -/
  | loadPair
  /-- Two words out of an even/odd pair of registers. -/
  | storePair
deriving DecidableEq, Repr

/-- A transfer between registers and memory at a base address and an offset. -/
structure Transfer where
  move : Movement
  data : Reg
  base : Reg
  offset : Offset
  /-- The offset is added rather than subtracted. -/
  up : Bool
  /-- The offset applies before the access rather than after it. -/
  pre : Bool
  /-- The base register receives the offset address. -/
  writeBack : Bool
deriving DecidableEq, Repr

inductive StatusOperand where
  | constant (encoded : Word)
  | register (r : Reg)
deriving DecidableEq, Repr

/-- A 32-bit instruction, without its condition. -/
inductive Instruction where
  | branchExchange (target : Reg)
  /-- A branch by a distance in bytes from the address of the instruction plus eight. -/
  | branch (link : Bool) (distance : Word)
  | softwareInterrupt
  | push (regs : List Reg)
  | pop (regs : List Reg)
  | transfer (t : Transfer)
  | multiply (accumulate setFlags : Bool) (dest left right addend : Reg)
  | multiplyLong (signed accumulate setFlags : Bool) (high low left right : Reg)
  | swap (byte : Bool) (dest source base : Reg)
  | readStatus (saved : Bool) (dest : Reg)
  | writeStatus (saved : Bool) (mask : Word) (value : StatusOperand)
  | dataProcessing (op : AluOp) (setFlags : Bool) (dest left : Reg) (right : Operand)
  /-- An encoding that does nothing. -/
  | ignored
deriving DecidableEq, Repr

namespace Instruction

/-- The cycles an instruction takes.  One is the rule; a register-specified shift, an accumulating
multiply and the long multiplies take more. -/
def cost : Instruction → Ticks
  | dataProcessing _ _ _ _ (.shiftedBy _ _ _) => 2
  | multiply accumulate _ _ _ _ _ => if accumulate then 2 else 1
  | multiplyLong _ accumulate _ _ _ _ _ => if accumulate then 5 else 4
  | _ => 1

end Instruction

end Handheld.Arm
