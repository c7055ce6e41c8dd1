import Handheld.Word

/-!
# The barrel shifter

A shift yields a word and a carry.  The carry is the last bit shifted or rotated out; where nothing
is shifted it is the carry that came in.  An amount of zero means different things in the two forms:

| kind | amount 0 in the opcode    | amount 0 in a register |
|------|---------------------------|------------------------|
| LSL  | no shift                  | no shift               |
| LSR  | shift by 32               | no shift               |
| ASR  | shift by 32               | no shift               |
| ROR  | rotate by 1 through carry | no shift               |
-/

namespace Handheld

inductive ShiftKind where
  | lsl
  | lsr
  | asr
  | ror
deriving DecidableEq, Repr

structure Shifted where
  value : Word
  carry : Bool
deriving DecidableEq, Repr

namespace ShiftKind

def ofBits (bits : Word) : ShiftKind :=
  match bits &&& 3 with
  | 0 => lsl
  | 1 => lsr
  | 2 => asr
  | _ => ror

end ShiftKind

namespace Shifter

/-- Shift left by `n ≥ 1` places. -/
def shiftLeft (w n : Word) : Shifted :=
  if n < 32 then ⟨w <<< n, w.bit (32 - n)⟩
  else if n = 32 then ⟨0, w.bit 0⟩
  else ⟨0, false⟩

/-- Shift right by `n ≥ 1` places, zeros coming in. -/
def shiftRight (w n : Word) : Shifted :=
  if n < 32 then ⟨w >>> n, w.bit (n - 1)⟩
  else if n = 32 then ⟨0, w.bit 31⟩
  else ⟨0, false⟩

/-- Shift right by `n ≥ 1` places, copies of the sign coming in. -/
def shiftRightSigned (w n : Word) : Shifted :=
  if n < 32 then ⟨w.shiftRightSigned n, w.bit (n - 1)⟩
  else if w.bit 31 then ⟨0xFFFFFFFF, true⟩
  else ⟨0, false⟩

/-- Rotate right by `n ≥ 1` places; the carry is the bit that arrives at the top. -/
def rotateRight (w n : Word) : Shifted :=
  let value := w.rotateRight (n &&& 31)
  ⟨value, value.bit 31⟩

/-- Rotate the 33 bits made of the carry and `w` right by one place. -/
def rotateThroughCarry (w : Word) (carry : Bool) : Shifted :=
  ⟨(carry.toUInt32 <<< 31) ||| (w >>> 1), w.bit 0⟩

def shift : ShiftKind → Word → Word → Shifted
  | .lsl => shiftLeft
  | .lsr => shiftRight
  | .asr => shiftRightSigned
  | .ror => rotateRight

/-- Shift by an amount taken from the opcode: its low five bits count. -/
def byImmediate (kind : ShiftKind) (w amount : Word) (carry : Bool) : Shifted :=
  let n := amount &&& 31
  if n = 0 then
    match kind with
    | .lsl => ⟨w, carry⟩
    | .lsr => shiftRight w 32
    | .asr => shiftRightSigned w 32
    | .ror => rotateThroughCarry w carry
  else shift kind w n

/-- Shift by an amount taken from a register: its low byte counts. -/
def byRegister (kind : ShiftKind) (w amount : Word) (carry : Bool) : Shifted :=
  let n := amount &&& 0xFF
  if n = 0 then ⟨w, carry⟩ else shift kind w n

/-- The constant encoded by the low twelve bits of an opcode: a byte rotated right by twice the
four bits above it.  Without rotation the carry stays. -/
def rotatedImmediate (opcode : Word) (carry : Bool) : Shifted :=
  let byte := opcode &&& 0xFF
  let n := 2 * opcode.field 8 4
  if n = 0 then ⟨byte, carry⟩ else rotateRight byte n

end Shifter

end Handheld
