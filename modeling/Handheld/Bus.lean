import Handheld.Word

/-!
# The bus: how the processor sees memory

A bus is any state that can read and write single bytes and say whether its interrupt line is high.
Halfword and word accesses are little-endian compositions of byte accesses, lowest address first,
with the low address bits cleared to the width of the access.
-/

namespace Handheld

/-- A memory the processor can be attached to.  A read may change the state, since on real hardware
the data lines keep the last byte. -/
class Bus (β : Type) where
  read8 : β → Word → Byte × β
  write8 : β → Word → Byte → β
  /-- Level of the interrupt line, looked at before every instruction. -/
  irqPending : β → Bool

namespace Bus

variable {β : Type} [Bus β]

/-- The halfword at `address` with bit 0 cleared. -/
@[inline] def read16 (bus : β) (address : Word) : Half × β :=
  let base := address &&& ~~~1
  let (lo, bus) := read8 bus base
  let (hi, bus) := read8 bus (base + 1)
  (Half.ofBytes lo hi, bus)

/-- The word at `address` with bits 0 and 1 cleared. -/
@[inline] def read32 (bus : β) (address : Word) : Word × β :=
  let base := address &&& ~~~3
  let (b₀, bus) := read8 bus base
  let (b₁, bus) := read8 bus (base + 1)
  let (b₂, bus) := read8 bus (base + 2)
  let (b₃, bus) := read8 bus (base + 3)
  (Word.ofBytes b₀ b₁ b₂ b₃, bus)

/-- Store a halfword at `address` with bit 0 cleared. -/
@[inline] def write16 (bus : β) (address : Word) (v : Half) : β :=
  let base := address &&& ~~~1
  write8 (write8 bus base v.low) (base + 1) v.high

/-- Store a word at `address` with bits 0 and 1 cleared. -/
@[inline] def write32 (bus : β) (address : Word) (v : Word) : β :=
  let base := address &&& ~~~3
  write8 (write8 (write8 (write8 bus base (v.byte 0)) (base + 1) (v.byte 1)) (base + 2) (v.byte 2))
    (base + 3) (v.byte 3)

/-- Store bytes at ascending addresses from `address` on. -/
def writeBytes (bus : β) (address : Word) : List Byte → β
  | [] => bus
  | b :: bs => writeBytes (write8 bus address b) (address + 1) bs

/-- Store words at ascending addresses from `address` on, four bytes apart. -/
@[specialize] def writeWords (bus : β) (address : Word) : List Word → β
  | [] => bus
  | w :: ws => writeWords (write32 bus address w) (address + 4) ws

/-- The `n` words at ascending addresses from `address` on, four bytes apart. -/
@[specialize] def readWords (bus : β) (address : Word) : Nat → List Word × β
  | 0 => ([], bus)
  | n + 1 =>
    let (w, bus) := read32 bus address
    let (ws, bus) := readWords bus (address + 4) n
    (w :: ws, bus)

/-- The word at an address, with the byte addressed rotated down to the low end: what a word load
sees at an address that is not a multiple of four. -/
@[inline] def readRotated (bus : β) (address : Word) : Word × β :=
  let (w, bus) := read32 bus address
  (w.rotateRight ((address &&& 3) * 8), bus)

end Bus

end Handheld
