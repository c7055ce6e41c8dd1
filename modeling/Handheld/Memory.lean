import Handheld.Bus
import Handheld.Interrupt
import Handheld.IoRegisters
import Handheld.Memory.Arena
import Handheld.Memory.Cell

/-!
# The console's memory

Every block of memory, the I/O registers, the interrupt controller, and the last byte seen on the
data lines.  A read of an address that reaches nothing yields that last byte; a write there is lost,
as are writes to the start-up code and the cartridge.
-/

namespace Handheld

structure Memory where
  bios : Arena Region.bios.size
  ewram : Arena Region.ewram.size
  iwram : Arena Region.iwram.size
  palette : Arena Region.palette.size
  vram : Arena Region.vram.size
  oam : Arena Region.oam.size
  rom : Rom
  sram : Arena Region.sram.size
  io : IoRegisters
  interrupts : InterruptController
  /-- The last byte read from something mapped. -/
  openBus : Byte

namespace Memory

/-- Cleared memory with a cartridge inserted. -/
def ofRom (rom : Rom) : Memory where
  bios := Arena.zeros _
  ewram := Arena.zeros _
  iwram := Arena.zeros _
  palette := Arena.zeros _
  vram := Arena.zeros _
  oam := Arena.zeros _
  rom := rom
  sram := Arena.zeros _
  io := IoRegisters.initial
  interrupts := InterruptController.initial
  openBus := 0

/-- Cleared memory with a cartridge image, unless it is too large. -/
def ofImage (image : ByteArray) : Except Fault Memory := (Rom.ofImage image).map ofRom

/-- Copy start-up code to the front of its region, unless it is too large. -/
def loadBios (m : Memory) (image : ByteArray) : Except Fault Memory :=
  if h : image.size ≤ Region.bios.size then .ok { m with bios := m.bios.overwrite image h }
  else .error (.biosTooLarge image.size)

/-! ## 1. Cells -/

def lookupIo (m : Memory) (offset : Word) : Option Byte :=
  if InterruptController.owns offset then m.interrupts.read8 offset else m.io.read8 offset

/-- The byte of a cell; an I/O cell may have none. -/
def lookup (m : Memory) : Cell → Option Byte
  | .bios i => some (m.bios.get i)
  | .ewram i => some (m.ewram.get i)
  | .iwram i => some (m.iwram.get i)
  | .io i => m.lookupIo (UInt32.ofNat i)
  | .palette i => some (m.palette.get i)
  | .vram i => some (m.vram.get i)
  | .oam i => some (m.oam.get i)
  | .rom i => some (m.rom.get i)
  | .sram i => some (m.sram.get i)

def storeIo (m : Memory) (offset : Word) (v : Byte) : Memory :=
  if InterruptController.owns offset then { m with interrupts := m.interrupts.write8 offset v }
  else { m with io := m.io.write8 offset v }

def store (m : Memory) (cell : Cell) (v : Byte) : Memory :=
  match cell with
  | .bios _ => m
  | .ewram i => { m with ewram := m.ewram.set i v }
  | .iwram i => { m with iwram := m.iwram.set i v }
  | .io i => m.storeIo (UInt32.ofNat i) v
  | .palette i => { m with palette := m.palette.set i v }
  | .vram i => { m with vram := m.vram.set i v }
  | .oam i => { m with oam := m.oam.set i v }
  | .rom _ => m
  | .sram i => { m with sram := m.sram.set i v }

/-! ## 2. Addresses -/

/-- The byte at an address, if something is mapped there. -/
def mapped? (m : Memory) (address : Word) : Option Byte := (Cell.ofAddress? address).bind m.lookup

/-- The byte a read would yield, without making the read. -/
def peek8 (m : Memory) (address : Word) : Byte := (m.mapped? address).getD m.openBus

/-- Read a byte.  One that is mapped stays on the data lines. -/
def read8 (m : Memory) (address : Word) : Byte × Memory :=
  match m.mapped? address with
  | some v => (v, { m with openBus := v })
  | none => (m.openBus, m)

def write8 (m : Memory) (address : Word) (v : Byte) : Memory :=
  match Cell.ofAddress? address with
  | some cell => m.store cell v
  | none => m

instance : Bus Memory where
  read8 := read8
  write8 := write8
  irqPending m := m.interrupts.pending

/-! ## 3. What the machine sets and sees -/

def request (m : Memory) (s : Interrupt) : Memory :=
  { m with interrupts := m.interrupts.request s }

/-- Show the keys to the program: those of a key mask, with the unused bits set, or none held where
there is no mask. -/
def latchKeys (m : Memory) (mask : Option Half) : Memory :=
  { m with io := m.io.setKeys ((mask.map (· ||| 0xFC00)).getD Keypad.releasedMask) }

/-- The colour at an index of the palette, which repeats after 512 entries. -/
def paletteEntry (m : Memory) (index : Nat) : Half :=
  let i := index % 512
  Half.ofBytes (m.palette.get ⟨2 * i, by show _ < 0x400; omega⟩)
    (m.palette.get ⟨2 * i + 1, by show _ < 0x400; omega⟩)

end Memory

end Handheld
