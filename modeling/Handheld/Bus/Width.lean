import Handheld.Bus

/-!
# Loads and stores of each width

What a load makes of the bytes it finds, and which bytes a store sends.
-/

namespace Handheld

inductive Load where
  | word
  | byte
  | half
  | signedByte
  | signedHalf
deriving DecidableEq, Repr

inductive Store where
  | word
  | byte
  | half
deriving DecidableEq, Repr

variable {β : Type} [Bus β]

/-- The value loaded from an address.  A word at an address that is no multiple of four is rotated;
narrower values are extended with zeros or, for the signed kinds, with their sign. -/
@[inline] def Load.read (kind : Load) (bus : β) (address : Word) : Word × β :=
  match kind with
  | .word => Bus.readRotated bus address
  | .byte =>
    let (v, bus) := Bus.read8 bus address
    (v.toUInt32, bus)
  | .half =>
    let (v, bus) := Bus.read16 bus address
    (v.toUInt32, bus)
  | .signedByte =>
    let (v, bus) := Bus.read8 bus address
    (Word.signExtend 8 v.toUInt32, bus)
  | .signedHalf =>
    let (v, bus) := Bus.read16 bus address
    (Word.signExtend 16 v.toUInt32, bus)

/-- Store the low bits of a value at an address. -/
@[inline] def Store.write (kind : Store) (bus : β) (address v : Word) : β :=
  match kind with
  | .word => Bus.write32 bus address v
  | .byte => Bus.write8 bus address v.toUInt8
  | .half => Bus.write16 bus address v.toUInt16

end Handheld
