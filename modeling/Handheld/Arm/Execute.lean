import Handheld.Arm.Instruction
import Handheld.Cpu.Exception

/-!
# Executing 32-bit instructions

Instructions that leave memory alone are functions on the processor's state; the others thread the
bus through.  `at` is the address of the instruction.  As an operand the program counter reads eight
bytes beyond it, and twelve where a register gives the shift amount or where it is stored.
-/

namespace Handheld.Arm

/-! ## 1. Data processing -/

namespace AluOp

/-- Whether the operation writes its destination; tests and comparisons do not. -/
def writes : AluOp → Bool
  | tst | teq | cmp | cmn => false
  | _ => true

/-- The result on a first operand and a shifted second one.  The logical operations take their carry
from the shifter and leave the overflow as it is. -/
def result (op : AluOp) (a : Word) (b : Shifted) (flags : Psr) : AluResult :=
  let c := flags.test Psr.carry
  let logical (v : Word) : AluResult := ⟨v, b.carry, flags.test Psr.overflow⟩
  match op with
  | and | tst => logical (a &&& b.value)
  | eor | teq => logical (a ^^^ b.value)
  | sub | cmp => Alu.sub a b.value true
  | rsb => Alu.sub b.value a true
  | add | cmn => Alu.add a b.value false
  | adc => Alu.add a b.value c
  | sbc => Alu.sub a b.value c
  | rsc => Alu.sub b.value a c
  | orr => logical (a ||| b.value)
  | mov => logical b.value
  | bic => logical (a &&& ~~~b.value)
  | mvn => logical (~~~b.value)

end AluOp

namespace Operand

/-- What the program counter reads as in an instruction with this operand. -/
def pcAt : Operand → Word → Word
  | shiftedBy _ _ _, address => address + 12
  | _, address => address + 8

def value (o : Operand) (c : Cpu) (pc : Word) : Shifted :=
  let carry := c.flag Psr.carry
  match o with
  | constant encoded => Shifter.rotatedImmediate encoded carry
  | shifted r kind amount => Shifter.byImmediate kind (c.operand r pc) amount carry
  | shiftedBy r kind amount => Shifter.byRegister kind (c.operand r pc) (c.operand amount pc) carry

end Operand

/-- Data processing.  Setting the flags while writing the program counter is the return from an
exception: the saved status word comes back instead. -/
def dataProcessing (c : Cpu) (op : AluOp) (setFlags : Bool) (dest left : Reg) (right : Operand)
    (address : Word) : Cpu :=
  let pc := right.pcAt address
  let r := op.result (c.operand left pc) (right.value c pc) c.cpsr
  let written := if op.writes then c.setReg dest r.value else c
  if !setFlags then written
  else if op.writes && dest == Reg.pc then written.restoreCpsr
  else { written with cpsr := c.cpsr.withResult r }

/-! ## 2. Multiplication -/

/-- The low 32 bits of a product, with an addend if accumulating. -/
def multiply (c : Cpu) (accumulate setFlags : Bool) (dest left right addend : Reg) : Cpu :=
  let product := c.reg left * c.reg right
  let v := if accumulate then product + c.reg addend else product
  let written := c.setReg dest v
  if setFlags then { written with cpsr := c.cpsr.withSign v } else written

/-- All 64 bits of a product, added to the old register pair if accumulating.  The high half is
written last. -/
def multiplyLong (c : Cpu) (signed accumulate setFlags : Bool) (high low left right : Reg) : Cpu :=
  let wide (r : Reg) : UInt64 := if signed then (c.reg r).signExtend64 else (c.reg r).toUInt64
  let product := wide left * wide right
  let old := ((c.reg high).toUInt64 <<< 32) ||| (c.reg low).toUInt64
  let v := if accumulate then product + old else product
  let written := (c.setReg low v.toUInt32).setReg high (v >>> 32).toUInt32
  if setFlags then { written with cpsr := c.cpsr.withSign64 v } else written

/-! ## 3. Branches and status words -/

/-- Jump to the address in a register, whose bit 0 chooses the instruction set. -/
def branchExchange (c : Cpu) (target : Reg) (address : Word) : Cpu :=
  let v := c.operand target (address + 8)
  (c.setThumb (v.bit 0)).setReg .pc (v &&& ~~~1)

/-- Jump by a distance, linking to the next instruction on request. -/
def branch (c : Cpu) (link : Bool) (distance address : Word) : Cpu :=
  let linked := if link then c.setReg .lr (address + 4) else c
  linked.setReg .pc (address + 8 + distance)

/-- Copy a status word into a register.  Where the mode has no saved one, the current one is
read. -/
def readStatus (c : Cpu) (saved : Bool) (dest : Reg) : Cpu :=
  c.setReg dest (if saved then c.spsr?.getD c.cpsr.bits else c.cpsr.bits)

def StatusOperand.value (v : StatusOperand) (c : Cpu) (address : Word) : Word :=
  match v with
  | .constant encoded => (Shifter.rotatedImmediate encoded (c.flag Psr.carry)).value
  | .register r => c.operand r (address + 8)

/-- Replace the masked part of a status word.  User mode reaches only the flags of the current
one, and no saved one. -/
def writeStatus (c : Cpu) (saved : Bool) (mask v : Word) : Cpu :=
  if saved then
    match c.spsr? with
    | some old => c.setSpsr (old.overlay mask v)
    | none => c
  else
    let mask := if c.mode? = some .user then mask &&& Psr.flagsMask else mask
    c.writeCpsr (c.cpsr.bits.overlay mask v)

/-! ## 4. Memory -/

section Memory

variable {β : Type} [Bus β]

/-- The number of bytes by which a transfer moves its base.  The carry of a shift is dropped. -/
def Offset.value (o : Offset) (c : Cpu) (pc : Word) : Word :=
  match o with
  | .constant n => n
  | .shifted r kind amount =>
    (Shifter.byImmediate kind (c.operand r pc) amount (c.flag Psr.carry)).value

namespace Transfer

def moved (t : Transfer) (c : Cpu) (address : Word) : Word :=
  let base := c.operand t.base (address + 8)
  let n := t.offset.value c (address + 8)
  if t.up then base + n else base - n

def target (t : Transfer) (c : Cpu) (address : Word) : Word :=
  if t.pre then t.moved c address else c.operand t.base (address + 8)

/-- Carry out a transfer.  Stored values are those from before the base is written back, and a
loaded register wins over the written-back base. -/
@[specialize] def execute (t : Transfer) (c : Cpu) (bus : β) (address : Word) : Cpu × β :=
  let target := t.target c address
  let stored (r : Reg) : Word := c.operand r (address + 12)
  let based := if t.writeBack then c.setReg t.base (t.moved c address) else c
  match t.move with
  | .load kind =>
    let (v, bus) := kind.read bus target
    (based.setReg t.data v, bus)
  | .store kind => (based, kind.write bus target (stored t.data))
  | .loadPair =>
    let (lo, bus) := Bus.read32 bus target
    let (hi, bus) := Bus.read32 bus (target + 4)
    ((based.setReg t.data.even lo).setReg t.data.odd hi, bus)
  | .storePair =>
    let bus := Bus.write32 bus target (stored t.data.even)
    (based, Bus.write32 bus (target + 4) (stored t.data.odd))

end Transfer

/-- Exchange a register with memory: read, then write. -/
@[specialize] def swap (c : Cpu) (bus : β) (byte : Bool) (dest source base : Reg) : Cpu × β :=
  let address := c.reg base
  let v := c.reg source
  if byte then
    let (old, bus) := Bus.read8 bus address
    (c.setReg dest old.toUInt32, Bus.write8 bus address v.toUInt8)
  else
    let (old, bus) := Bus.readRotated bus address
    (c.setReg dest old, Bus.write32 bus address v)

/-- Push registers on a descending stack, the lowest at the lowest address. -/
@[specialize] def push (c : Cpu) (bus : β) (regs : List Reg) (address : Word) : Cpu × β :=
  let start := c.reg .sp - UInt32.ofNat (4 * regs.length)
  (c.setReg .sp start, Bus.writeWords bus start (regs.map fun r => c.operand r (address + 12)))

/-- Pop registers from a descending stack.  A popped stack pointer wins over the moved one. -/
@[specialize] def pop (c : Cpu) (bus : β) (regs : List Reg) : Cpu × β :=
  let start := c.reg .sp
  let (vs, bus) := Bus.readWords bus start regs.length
  ((c.setReg .sp (start + UInt32.ofNat (4 * regs.length))).setRegs regs vs, bus)

/-- Execute an instruction that was fetched from `address`, with the program counter already on the
next one. -/
@[specialize] def execute (i : Instruction) (c : Cpu) (bus : β) (address : Word) :
    Cpu × β :=
  match i with
  | .branchExchange target => (branchExchange c target address, bus)
  | .branch link distance => (branch c link distance address, bus)
  | .softwareInterrupt => (c.enter .softwareInterrupt, bus)
  | .push regs => push c bus regs address
  | .pop regs => pop c bus regs
  | .transfer t => t.execute c bus address
  | .multiply accumulate setFlags dest left right addend =>
    (multiply c accumulate setFlags dest left right addend, bus)
  | .multiplyLong signed accumulate setFlags high low left right =>
    (multiplyLong c signed accumulate setFlags high low left right, bus)
  | .swap byte dest source base => swap c bus byte dest source base
  | .readStatus saved dest => (readStatus c saved dest, bus)
  | .writeStatus saved mask v => (writeStatus c saved mask (v.value c address), bus)
  | .dataProcessing op setFlags dest left right =>
    (dataProcessing c op setFlags dest left right address, bus)
  | .ignored => (c, bus)

end Memory

end Handheld.Arm
