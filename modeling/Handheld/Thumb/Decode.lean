import Handheld.Thumb.Instruction

/-!
# Decoding 16-bit opcodes

The formats are told apart by their high bits.  Additions and subtractions take the place of a
fourth kind of shift, and the software interrupt that of a condition, so those tests come first.
-/

namespace Handheld.Thumb

def AluOp.ofBits (bits : Word) : AluOp :=
  match bits &&& 0xF with
  | 0x0 => and
  | 0x1 => eor
  | 0x2 => lsl
  | 0x3 => lsr
  | 0x4 => asr
  | 0x5 => adc
  | 0x6 => sbc
  | 0x7 => ror
  | 0x8 => tst
  | 0x9 => neg
  | 0xA => cmp
  | 0xB => cmn
  | 0xC => orr
  | 0xD => mul
  | 0xE => bic
  | _ => mvn

def ConstantOp.ofBits (bits : Word) : ConstantOp :=
  match bits &&& 3 with
  | 0 => mov
  | 1 => cmp
  | 2 => add
  | _ => sub

def wordOffset (op : Word) : Word := op.field 0 8 <<< 2

/-- An addition or subtraction with a register or a three-bit constant. -/
def decodeAddSubtract (op : Word) : Instruction :=
  let right : Operand := if op.bit 10 then .constant (op.field 6 3) else .register (op.lowReg 6)
  if op.bit 9 then .subtract (op.lowReg 0) (op.lowReg 3) right
  else .add (op.lowReg 0) (op.lowReg 3) right

/-- An operation that reaches all sixteen registers. -/
def decodeAny (op : Word) : Instruction :=
  let dest := (op.field 0 3 ||| (op.field 7 1 <<< 3)).reg 0
  let source := op.reg 3
  match op.field 8 2 with
  | 0 => .addAny dest source
  | 1 => .compareAny dest source
  | 2 => .moveAny dest source
  | _ => .branchExchange source

def decodeRegisterOffset (op : Word) : Instruction :=
  let data := op.lowReg 0
  let base := op.lowReg 3
  let offset : Operand := .register (op.lowReg 6)
  match op.field 9 3 with
  | 0 => .store .word data base offset
  | 1 => .store .half data base offset
  | 2 => .store .byte data base offset
  | 3 => .load .signedByte data base offset
  | 4 => .load .word data base offset
  | 5 => .load .half data base offset
  | 6 => .load .byte data base offset
  | _ => .load .signedHalf data base offset

def decodeConstantOffset (op : Word) : Instruction :=
  let data := op.lowReg 0
  let base := op.lowReg 3
  let n := op.field 6 5
  match op.field 11 2 with
  | 0 => .store .word data base (.constant (n <<< 2))
  | 1 => .load .word data base (.constant (n <<< 2))
  | 2 => .store .byte data base (.constant n)
  | _ => .load .byte data base (.constant n)

def decodeHalf (op : Word) : Instruction :=
  let offset : Operand := .constant (op.field 6 5 <<< 1)
  if op.bit 11 then .load .half (op.lowReg 0) (op.lowReg 3) offset
  else .store .half (op.lowReg 0) (op.lowReg 3) offset

def decodeStack (op : Word) : Instruction :=
  if op.bit 11 then .load .word (op.lowReg 8) .sp (.constant (wordOffset op))
  else .store .word (op.lowReg 8) .sp (.constant (wordOffset op))

/-- Registers pushed, with the link register on top, or popped, with the program counter last. -/
def decodePushPop (op : Word) : Instruction :=
  let regs := (op.field 0 8).regList
  if op.bit 11 then .pop regs (op.bit 8)
  else .push (if op.bit 8 then regs ++ [.lr] else regs)

def decode (op : Word) : Instruction :=
  if op &&& 0xF800 = 0x1800 then decodeAddSubtract op
  else if op &&& 0xE000 = 0x0000 then
    .shift (ShiftKind.ofBits (op >>> 11)) (op.field 6 5) (op.lowReg 0) (op.lowReg 3)
  else if op &&& 0xE000 = 0x2000 then
    .withConstant (ConstantOp.ofBits (op >>> 11)) (op.lowReg 8) (op.field 0 8)
  else if op &&& 0xFC00 = 0x4000 then
    .alu (AluOp.ofBits (op >>> 6)) (op.lowReg 0) (op.lowReg 3)
  else if op &&& 0xFC00 = 0x4400 then decodeAny op
  else if op &&& 0xF800 = 0x4800 then .loadLiteral (op.lowReg 8) (wordOffset op)
  else if op &&& 0xF000 = 0x5000 then decodeRegisterOffset op
  else if op &&& 0xE000 = 0x6000 then decodeConstantOffset op
  else if op &&& 0xF000 = 0x8000 then decodeHalf op
  else if op &&& 0xF000 = 0x9000 then decodeStack op
  else if op &&& 0xF000 = 0xA000 then .addressOf (op.bit 11) (op.lowReg 8) (wordOffset op)
  else if op &&& 0xFF00 = 0xB000 then
    let n := op.field 0 7 <<< 2
    .moveStack (if op.bit 7 then 0 - n else n)
  else if op &&& 0xF600 = 0xB400 then decodePushPop op
  else if op &&& 0xF000 = 0xC000 then
    let regs := (op.field 0 8).regList
    if op.bit 11 then .loadMultiple (op.lowReg 8) regs else .storeMultiple (op.lowReg 8) regs
  else if op &&& 0xFF00 = 0xDF00 then .softwareInterrupt
  else if op &&& 0xF000 = 0xD000 ∧ op &&& 0x0F00 ≠ 0x0E00 then
    .branchIf (Condition.ofBits (op >>> 8)) (Word.signExtend 8 (op.field 0 8) <<< 1)
  else if op &&& 0xF800 = 0xE000 then .branch (Word.signExtend 11 (op.field 0 11) <<< 1)
  else if op &&& 0xF800 = 0xF000 then .callHigh (Word.signExtend 11 (op.field 0 11) <<< 12)
  else if op &&& 0xF800 = 0xF800 then .callLow (op.field 0 11 <<< 1)
  else .ignored

end Handheld.Thumb
