import Handheld.Arm.Instruction

/-!
# Decoding 32-bit opcodes

The encodings overlap, so the tests of `decode` stand in a fixed order and the first that matches
wins.  The condition in the top four bits plays no part here.

| opcode bits                       | family                                   |
|-----------------------------------|------------------------------------------|
| `0001 0010 1111 1111 1111 0001`   | branch and exchange                      |
| 27-25 `101`                       | branch                                   |
| 27-24 `1111`                      | software interrupt                       |
| 27-26 `11`                        | coprocessor, ignored                     |
| 27-25 `100`                       | push and pop; other block moves ignored  |
| 27-26 `01`                        | word or byte transfer                    |
| 27-26 `00`, 7-4 `1001`            | multiply, long multiply, swap            |
| 27-25 `000`, 7 and 4 set          | halfword, signed or pair transfer        |
| 27-26 `00`, 24-23 `10`, 20 clear  | status word                              |
| 27-26 `00`                        | data processing                          |
-/

namespace Handheld.Arm

def AluOp.ofBits (bits : Word) : AluOp :=
  match bits &&& 0xF with
  | 0x0 => and
  | 0x1 => eor
  | 0x2 => sub
  | 0x3 => rsb
  | 0x4 => add
  | 0x5 => adc
  | 0x6 => sbc
  | 0x7 => rsc
  | 0x8 => tst
  | 0x9 => teq
  | 0xA => cmp
  | 0xB => cmn
  | 0xC => orr
  | 0xD => mov
  | 0xE => bic
  | _ => mvn

def shiftAmount (op : Word) : Word := op.field 7 5

def shiftKind (op : Word) : ShiftKind := ShiftKind.ofBits (op >>> 5)

/-- The bits of a status word covered by the field selectors in bits 19-16, a byte each. -/
def statusMask (op : Word) : Word :=
  let byteMask (i : Word) : Word := if op.bit (16 + i) then 0xFF <<< (8 * i) else 0
  byteMask 0 ||| byteMask 1 ||| byteMask 2 ||| byteMask 3

def decodeOperand (op : Word) : Operand :=
  if op.bit 25 then .constant (op &&& 0xFFF)
  else if op.bit 4 then .shiftedBy (op.reg 0) (shiftKind op) (op.reg 8)
  else .shifted (op.reg 0) (shiftKind op) (shiftAmount op)

/-- A block move.  Only the two that push and pop on the stack pointer are carried out. -/
def decodeBlock (op : Word) : Instruction :=
  match op &&& 0x0FFF0000 with
  | 0x092D0000 => .push op.regList
  | 0x08BD0000 => .pop op.regList
  | _ => .ignored

/-- A transfer with the addressing bits of `op`. -/
def decodeTransfer (op : Word) (move : Movement) (offset : Offset) : Instruction :=
  .transfer
    { move
      offset
      data := op.reg 12
      base := op.reg 16
      up := op.bit 23
      pre := op.bit 24
      writeBack := !op.bit 24 || op.bit 21 }

def decodeSingle (op : Word) : Instruction :=
  let move :=
    match op.bit 20, op.bit 22 with
    | true, true => .load .byte
    | true, false => .load .word
    | false, true => .store .byte
    | false, false => .store .word
  decodeTransfer op move
    (if op.bit 25 then .shifted (op.reg 0) (shiftKind op) (shiftAmount op)
    else .constant (op &&& 0xFFF))

/-- What a halfword, signed or pair transfer moves.  Bits 6-5 are not both clear. -/
def extraMovement (op : Word) : Movement :=
  match op.bit 20, op.field 5 2 with
  | true, 1 => .load .half
  | true, 2 => .load .signedByte
  | true, _ => .load .signedHalf
  | false, 1 => .store .half
  | false, 2 => .loadPair
  | false, _ => .storePair

def decodeExtra (op : Word) : Instruction :=
  decodeTransfer op (extraMovement op)
    (if op.bit 22 then .constant ((op.field 8 4 <<< 4) ||| op.field 0 4)
    else .shifted (op.reg 0) .lsl 0)

def decodeStatus (op : Word) : Instruction :=
  if op.bit 21 then
    .writeStatus (op.bit 22) (statusMask op)
      (if op.bit 25 then .constant (op &&& 0xFFF) else .register (op.reg 0))
  else .readStatus (op.bit 22) (op.reg 12)

def decode (op : Word) : Instruction :=
  if op &&& 0x0FFFFFF0 = 0x012FFF10 then .branchExchange (op.reg 0)
  else if op &&& 0x0E000000 = 0x0A000000 then
    .branch (op.bit 24) (Word.signExtend 24 (op &&& 0xFFFFFF) <<< 2)
  else if op &&& 0x0F000000 = 0x0F000000 then .softwareInterrupt
  else if op &&& 0x0C000000 = 0x0C000000 then .ignored
  else if op &&& 0x0E000000 = 0x08000000 then decodeBlock op
  else if op &&& 0x0C000000 = 0x04000000 then
    if op &&& 0x02000010 = 0x02000010 then .ignored else decodeSingle op
  else if op &&& 0x0FC000F0 = 0x00000090 then
    .multiply (op.bit 21) (op.bit 20) (op.reg 16) (op.reg 0) (op.reg 8) (op.reg 12)
  else if op &&& 0x0F8000F0 = 0x00800090 then
    .multiplyLong (op.bit 22) (op.bit 21) (op.bit 20) (op.reg 16) (op.reg 12) (op.reg 0) (op.reg 8)
  else if op &&& 0x0FB00FF0 = 0x01000090 then
    .swap (op.bit 22) (op.reg 12) (op.reg 0) (op.reg 16)
  else if op &&& 0x0E000090 = 0x00000090 ∧ op &&& 0x60 ≠ 0 then decodeExtra op
  else if op &&& 0x01900000 = 0x01000000 then decodeStatus op
  else
    .dataProcessing (AluOp.ofBits (op >>> 21)) (op.bit 20) (op.reg 12) (op.reg 16)
      (decodeOperand op)

end Handheld.Arm
