import Handheld.Cpu.Exception
import Handheld.Thumb.Instruction

/-!
# Executing 16-bit instructions

Instructions that leave memory alone are functions on the processor's state; the others thread the
bus through.  As an operand the program counter reads four bytes beyond the instruction; literals
and addresses relative to it start from that value aligned to a word.
-/

namespace Handheld.Thumb

def Operand.value (o : Operand) (c : Cpu) : Word :=
  match o with
  | .register r => c.reg r
  | .constant n => n

/-! ## 1. Low registers -/

def setFlags (c : Cpu) (r : AluResult) : Cpu := { c with cpsr := c.cpsr.withResult r }

def setSign (c : Cpu) (v : Word) : Cpu := { c with cpsr := c.cpsr.withSign v }

def writeResult (c : Cpu) (dest : Reg) (r : AluResult) : Cpu := setFlags (c.setReg dest r.value) r

def writeLogical (c : Cpu) (dest : Reg) (v : Word) : Cpu := setSign (c.setReg dest v) v

/-- Write a shifted word, and set N and Z from it and C from the shift. -/
def writeShifted (c : Cpu) (dest : Reg) (s : Shifted) : Cpu :=
  (writeLogical c dest s.value).setFlag Psr.carry s.carry

def withConstant (c : Cpu) (op : ConstantOp) (r : Reg) (n : Word) : Cpu :=
  match op with
  | .mov => writeLogical c r n
  | .cmp => setFlags c (Alu.sub (c.reg r) n true)
  | .add => writeResult c r (Alu.add (c.reg r) n false)
  | .sub => writeResult c r (Alu.sub (c.reg r) n true)

/-- Two registers, the first of which is also the destination. -/
def alu (c : Cpu) (op : AluOp) (dest source : Reg) : Cpu :=
  let a := c.reg dest
  let b := c.reg source
  let carry := c.flag Psr.carry
  match op with
  | .and => writeLogical c dest (a &&& b)
  | .eor => writeLogical c dest (a ^^^ b)
  | .lsl => writeShifted c dest (Shifter.byRegister .lsl a b carry)
  | .lsr => writeShifted c dest (Shifter.byRegister .lsr a b carry)
  | .asr => writeShifted c dest (Shifter.byRegister .asr a b carry)
  | .adc => writeResult c dest (Alu.add a b carry)
  | .sbc => writeResult c dest (Alu.sub a b carry)
  | .ror => writeShifted c dest (Shifter.byRegister .ror a b carry)
  | .tst => setSign c (a &&& b)
  | .neg => writeResult c dest (Alu.sub 0 b true)
  | .cmp => setFlags c (Alu.sub a b true)
  | .cmn => setFlags c (Alu.add a b false)
  | .orr => writeLogical c dest (a ||| b)
  | .mul => writeLogical c dest (a * b)
  | .bic => writeLogical c dest (a &&& ~~~b)
  | .mvn => writeLogical c dest (~~~b)

/-! ## 2. Any register, and branches -/

/-- Write any register; bit 0 of the program counter is dropped. -/
def writeAny (c : Cpu) (dest : Reg) (v : Word) : Cpu :=
  c.setReg dest (if dest = .pc then v &&& ~~~1 else v)

/-- Jump to the address in a register, whose bit 0 chooses the instruction set. -/
def branchExchange (c : Cpu) (target : Reg) (pc : Word) : Cpu :=
  let v := c.operand target pc
  (c.setThumb (v.bit 0)).setReg .pc (v &&& ~~~1)

/-- The second half of a long call: jump to the base held in the link register plus the
distance, and link to the next instruction with bit 0 set. -/
def callLow (c : Cpu) (distance address : Word) : Cpu :=
  (c.setReg .lr ((address + 2) ||| 1)).setReg .pc (c.reg .lr + distance)

/-! ## 3. Memory -/

section Memory

variable {β : Type} [Bus β]

@[specialize] def load (c : Cpu) (bus : β) (kind : Load) (dest : Reg) (address : Word) : Cpu × β :=
  let (v, bus) := kind.read bus address
  (c.setReg dest v, bus)

/-- Push registers on a descending stack, the first at the lowest address. -/
@[specialize] def push (c : Cpu) (bus : β) (regs : List Reg) : Cpu × β :=
  let start := c.reg .sp - UInt32.ofNat (4 * regs.length)
  (c.setReg .sp start, Bus.writeWords bus start (regs.map c.reg))

/-- Pop registers from a descending stack, and then the program counter on request. -/
@[specialize] def pop (c : Cpu) (bus : β) (regs : List Reg) (withPc : Bool) : Cpu × β :=
  let (vs, bus) := Bus.readWords bus (c.reg .sp) regs.length
  let next := c.reg .sp + UInt32.ofNat (4 * regs.length)
  let popped := c.setRegs regs vs
  if withPc then
    let (v, bus) := Bus.read32 bus next
    ((popped.setReg .pc (v &&& ~~~1)).setReg .sp (next + 4), bus)
  else (popped.setReg .sp next, bus)

/-- Store registers upwards from a base, which ends beyond them. -/
@[specialize] def storeMultiple (c : Cpu) (bus : β) (base : Reg) (regs : List Reg) : Cpu × β :=
  let start := c.reg base
  (c.setReg base (start + UInt32.ofNat (4 * regs.length)),
    Bus.writeWords bus start (regs.map c.reg))

/-- Load registers upwards from a base, which ends beyond them unless it was loaded itself. -/
@[specialize] def loadMultiple (c : Cpu) (bus : β) (base : Reg) (regs : List Reg) : Cpu × β :=
  let start := c.reg base
  let (vs, bus) := Bus.readWords bus start regs.length
  let loaded := c.setRegs regs vs
  if regs.contains base then (loaded, bus)
  else (loaded.setReg base (start + UInt32.ofNat (4 * regs.length)), bus)

/-- Execute an instruction that was fetched from `address`, with the program counter already on the
next one. -/
@[specialize] def execute (i : Instruction) (c : Cpu) (bus : β) (address : Word) : Cpu × β :=
  let pc := address + 4
  match i with
  | .shift kind amount dest source =>
    (writeShifted c dest (Shifter.byImmediate kind (c.reg source) amount (c.flag Psr.carry)), bus)
  | .add dest left right => (writeResult c dest (Alu.add (c.reg left) (right.value c) false), bus)
  | .subtract dest left right =>
    (writeResult c dest (Alu.sub (c.reg left) (right.value c) true), bus)
  | .withConstant op r n => (withConstant c op r n, bus)
  | .alu op dest source => (alu c op dest source, bus)
  | .addAny dest source =>
    (writeAny c dest (c.operand dest pc + c.operand source pc), bus)
  | .compareAny left right =>
    (setFlags c (Alu.sub (c.operand left pc) (c.operand right pc) true), bus)
  | .moveAny dest source => (writeAny c dest (c.operand source pc), bus)
  | .branchExchange target => (branchExchange c target pc, bus)
  | .loadLiteral dest offset =>
    let (v, bus) := Bus.read32 bus ((pc &&& ~~~3) + offset)
    (c.setReg dest v, bus)
  | .load kind dest base offset => load c bus kind dest (c.reg base + offset.value c)
  | .store kind data base offset =>
    (c, kind.write bus (c.reg base + offset.value c) (c.reg data))
  | .addressOf fromStack dest offset =>
    (c.setReg dest ((if fromStack then c.reg .sp else pc &&& ~~~3) + offset), bus)
  | .moveStack offset => (c.setReg .sp (c.reg .sp + offset), bus)
  | .push regs => push c bus regs
  | .pop regs withPc => pop c bus regs withPc
  | .storeMultiple base regs => storeMultiple c bus base regs
  | .loadMultiple base regs => loadMultiple c bus base regs
  | .softwareInterrupt => (c.enter .softwareInterrupt, bus)
  | .branchIf cond distance =>
    (if cond.holds c.cpsr then c.setReg .pc (pc + distance) else c, bus)
  | .branch distance => (c.setReg .pc (pc + distance), bus)
  | .callHigh distance => (c.setReg .lr (pc + distance), bus)
  | .callLow distance => (callLow c distance address, bus)
  | .ignored => (c, bus)

end Memory

end Handheld.Thumb
