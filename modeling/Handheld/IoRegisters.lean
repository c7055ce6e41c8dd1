import Handheld.Keypad

/-!
# Display and keypad registers

The registers of the I/O window other than the interrupt registers: display control and status, the
current line, the four backgrounds, and the keys.  Each is a halfword of two byte addresses.  The
current line, the keys and the low three bits of the display status belong to the machine; a program
reads them and cannot write them.
-/

namespace Handheld

abbrev Background := Fin 4

inductive IoSlot where
  | displayControl
  | displayStatus
  | lineCounter
  | control (n : Background)
  | scrollX (n : Background)
  | scrollY (n : Background)
  | keys
deriving DecidableEq, Repr

/-- The register at an I/O offset, if there is one. -/
def IoSlot.ofOffset? (offset : Word) : Option IoSlot :=
  match offset &&& ~~~1 with
  | 0x000 => some displayControl
  | 0x004 => some displayStatus
  | 0x006 => some lineCounter
  | 0x008 => some (control 0)
  | 0x00A => some (control 1)
  | 0x00C => some (control 2)
  | 0x00E => some (control 3)
  | 0x010 => some (scrollX 0)
  | 0x012 => some (scrollY 0)
  | 0x014 => some (scrollX 1)
  | 0x016 => some (scrollY 1)
  | 0x018 => some (scrollX 2)
  | 0x01A => some (scrollY 2)
  | 0x01C => some (scrollX 3)
  | 0x01E => some (scrollY 3)
  | 0x130 => some keys
  | _ => none

structure IoRegisters where
  dispcnt : Half
  dispstat : Half
  vcount : Half
  bgcnt : Vector Half 4
  bghofs : Vector Half 4
  bgvofs : Vector Half 4
  keyinput : Half
deriving DecidableEq

namespace IoRegisters

/-- All registers zero and no key held. -/
def initial : IoRegisters where
  dispcnt := 0
  dispstat := 0
  vcount := 0
  bgcnt := Vector.replicate 4 0
  bghofs := Vector.replicate 4 0
  bgvofs := Vector.replicate 4 0
  keyinput := Keypad.releasedMask

/-- The bits of the display status that only the machine sets. -/
def statusMask : Half := 0x0007

/-- Display status: the current line is not drawn. -/
def vblankBit : Half := 0x0001

/-- Display status: the current line is the one asked for. -/
def matchBit : Half := 0x0004

/-- Display status: interrupt when drawing ends. -/
def vblankIrqBit : Half := 0x0008

/-- Display status: interrupt at the line asked for. -/
def vcountIrqBit : Half := 0x0020

/-- The bits of a scroll register that count. -/
def scrollMask : Half := 0x01FF

/-! ## 1. What a register shows -/

def bgControl (io : IoRegisters) (n : Background) : Half := io.bgcnt[n]

def bgScrollX (io : IoRegisters) (n : Background) : Half := io.bghofs[n] &&& scrollMask

def bgScrollY (io : IoRegisters) (n : Background) : Half := io.bgvofs[n] &&& scrollMask

/-- The line asked for, in the high byte of the display status. -/
def vcountSetting (io : IoRegisters) : Half := io.dispstat >>> 8

def vblankIrqEnabled (io : IoRegisters) : Bool := io.dispstat &&& vblankIrqBit != 0

def vcountIrqEnabled (io : IoRegisters) : Bool := io.dispstat &&& vcountIrqBit != 0

/-- The value of a register as a program reads it. -/
def value (io : IoRegisters) : IoSlot → Half
  | .displayControl => io.dispcnt
  | .displayStatus => io.dispstat
  | .lineCounter => io.vcount
  | .control n => io.bgControl n
  | .scrollX n => io.bgScrollX n
  | .scrollY n => io.bgScrollY n
  | .keys => io.keyinput

def read8 (io : IoRegisters) (offset : Word) : Option Byte :=
  (IoSlot.ofOffset? offset).map fun slot => (io.value slot).byteAt offset

/-! ## 2. What a program may write -/

/-- Write one byte of a register, the one that stands at `offset`. -/
def writeSlot (io : IoRegisters) (slot : IoSlot) (offset : Word) (v : Byte) : IoRegisters :=
  match slot with
  | .displayControl => { io with dispcnt := io.dispcnt.withByteAt offset v }
  | .displayStatus =>
    let written := io.dispstat.withByteAt offset v
    { io with dispstat := (written &&& ~~~statusMask) ||| (io.dispstat &&& statusMask) }
  | .lineCounter => io
  | .control n => { io with bgcnt := io.bgcnt.set n.val (io.bgcnt[n].withByteAt offset v) n.isLt }
  | .scrollX n => { io with bghofs := io.bghofs.set n.val (io.bghofs[n].withByteAt offset v) n.isLt }
  | .scrollY n => { io with bgvofs := io.bgvofs.set n.val (io.bgvofs[n].withByteAt offset v) n.isLt }
  | .keys => io

/-- Write the byte at an I/O offset; nothing happens where there is no register. -/
def write8 (io : IoRegisters) (offset : Word) (v : Byte) : IoRegisters :=
  match IoSlot.ofOffset? offset with
  | some slot => io.writeSlot slot offset v
  | none => io

/-! ## 3. What the machine sets -/

def setVcount (io : IoRegisters) (line : Half) : IoRegisters := { io with vcount := line }

def setStatus (io : IoRegisters) (mask : Half) (on : Bool) : IoRegisters :=
  { io with dispstat := if on then io.dispstat ||| mask else io.dispstat &&& ~~~mask }

/-- Say whether the current line is drawn. -/
def setVblank (io : IoRegisters) (on : Bool) : IoRegisters := io.setStatus vblankBit on

/-- Say whether the current line is the one asked for. -/
def setMatch (io : IoRegisters) (on : Bool) : IoRegisters := io.setStatus matchBit on

def setKeys (io : IoRegisters) (keys : Half) : IoRegisters := { io with keyinput := keys }

end IoRegisters

end Handheld
