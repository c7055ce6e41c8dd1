import Handheld.Word

/-!
# The interrupt controller

Three registers: IE selects sources, IF holds the sources that have asked, and IME switches the
whole.  The interrupt line is high while IME is on and some selected source has asked.  A program
acknowledges a source by writing a one to its bit of IF.
-/

namespace Handheld

/-- An interrupt source, in the order of the bits of IE and IF. -/
inductive Interrupt where
  | vBlank
  | hBlank
  | vCount
  | timer0
  | timer1
  | timer2
  | timer3
  | serial
  | dma0
  | dma1
  | dma2
  | dma3
  | keypad
  | gamePak
deriving DecidableEq, Repr

namespace Interrupt

def all : List Interrupt :=
  [vBlank, hBlank, vCount, timer0, timer1, timer2, timer3, serial, dma0, dma1, dma2, dma3, keypad,
    gamePak]

def bit (s : Interrupt) : Nat := s.ctorIdx

def mask (s : Interrupt) : Half := 1 <<< UInt16.ofNat s.bit

end Interrupt

/-- The registers IE, IF and IME. -/
structure InterruptController where
  enable : Half
  flags : Half
  master : Half
deriving DecidableEq, Repr

namespace InterruptController

def initial : InterruptController := ⟨0, 0, 0⟩

def request (ic : InterruptController) (s : Interrupt) : InterruptController :=
  { ic with flags := ic.flags ||| s.mask }

def acknowledge (ic : InterruptController) (mask : Half) : InterruptController :=
  { ic with flags := ic.flags &&& ~~~mask }

def pending (ic : InterruptController) : Bool :=
  ic.master &&& 1 != 0 && ic.enable &&& ic.flags != 0

/-- Whether an I/O offset belongs to the controller rather than to the other registers. -/
def owns (offset : Word) : Bool := 0x200 ≤ offset && offset ≤ 0x20B

/-- The byte at an I/O offset, if there is one: IE at `200`, IF at `202`, IME at `208`. -/
def read8 (ic : InterruptController) (offset : Word) : Option Byte :=
  match offset &&& ~~~1 with
  | 0x200 => some (ic.enable.byteAt offset)
  | 0x202 => some (ic.flags.byteAt offset)
  | 0x208 => some (ic.master.byteAt offset)
  | _ => none

/-- Write the byte at an I/O offset.  A byte of IF clears the sources it has a one for; each half is
a write of its own. -/
def write8 (ic : InterruptController) (offset : Word) (v : Byte) : InterruptController :=
  match offset &&& ~~~1 with
  | 0x200 => { ic with enable := ic.enable.withByteAt offset v }
  | 0x202 => ic.acknowledge (Half.withByteAt 0 offset v)
  | 0x208 => { ic with master := ic.master.withByteAt offset v }
  | _ => ic

end InterruptController

end Handheld
