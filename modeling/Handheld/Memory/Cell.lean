import Handheld.Word

/-!
# The address map

The top byte of an address selects a region; within it the address counts modulo the size of the
region, which is what makes mirrors.

| addresses             | region      | bytes   |
|-----------------------|-------------|---------|
| `00000000`-`00003FFF` | BIOS        | 16 Ki   |
| `02000000`-`02FFFFFF` | work RAM    | 256 Ki  |
| `03000000`-`03FFFFFF` | fast RAM    | 32 Ki   |
| `04000000`-`040003FF` | I/O         | 1 Ki    |
| `05000000`-`05FFFFFF` | palette     | 1 Ki    |
| `06000000`-`06FFFFFF` | video RAM   | 96 Ki   |
| `07000000`-`07FFFFFF` | sprites     | 1 Ki    |
| `08000000`-`0DFFFFFF` | cartridge   | 32 Mi   |
| `0E000000`-`0FFFFFFF` | backup RAM  | 64 Ki   |

A `Cell` is one byte of a region.  Two addresses are mirrors of each other exactly if they reach the
same cell; an address that reaches none is unmapped.
-/

namespace Handheld

inductive Region where
  | bios
  | ewram
  | iwram
  | io
  | palette
  | vram
  | oam
  | rom
  | sram
deriving DecidableEq, Repr

/-- The number of bytes in a region.  For the cartridge this is the window, not the image. -/
@[reducible] def Region.size : Region → Nat
  | bios => 0x4000
  | ewram => 0x40000
  | iwram => 0x8000
  | io => 0x400
  | palette => 0x400
  | vram => 0x18000
  | oam => 0x400
  | rom => 0x2000000
  | sram => 0x10000

inductive Cell where
  | bios (i : Fin 0x4000)
  | ewram (i : Fin 0x40000)
  | iwram (i : Fin 0x8000)
  | io (i : Fin 0x400)
  | palette (i : Fin 0x400)
  | vram (i : Fin 0x18000)
  | oam (i : Fin 0x400)
  | rom (i : Fin 0x2000000)
  | sram (i : Fin 0x10000)
deriving DecidableEq, Repr

namespace Cell

def region : Cell → Region
  | bios _ => .bios
  | ewram _ => .ewram
  | iwram _ => .iwram
  | io _ => .io
  | palette _ => .palette
  | vram _ => .vram
  | oam _ => .oam
  | rom _ => .rom
  | sram _ => .sram

def offset : Cell → Nat
  | bios i => i
  | ewram i => i
  | iwram i => i
  | io i => i
  | palette i => i
  | vram i => i
  | oam i => i
  | rom i => i
  | sram i => i

/-- The cell of a video address.  The 96 KiB sit in a window of 128 KiB, whose last quarter shows
the quarter before it again. -/
def ofVideo (address : Word) : Cell :=
  let i := Fin.ofNat 0x20000 address.toNat
  if h : i.val < 0x18000 then .vram ⟨i, h⟩ else .vram ⟨i - 0x8000, by omega⟩

/-- The cell that an address reaches, if it is mapped. -/
def ofAddress? (address : Word) : Option Cell :=
  match address >>> 24 with
  | 0x00 => if h : address.toNat < 0x4000 then some (.bios ⟨address.toNat, h⟩) else none
  | 0x02 => some (.ewram (Fin.ofNat _ address.toNat))
  | 0x03 => some (.iwram (Fin.ofNat _ address.toNat))
  | 0x04 =>
    let offset := address &&& 0xFFFFFF
    if h : offset.toNat < 0x400 then some (.io ⟨offset.toNat, h⟩) else none
  | 0x05 => some (.palette (Fin.ofNat _ address.toNat))
  | 0x06 => some (ofVideo address)
  | 0x07 => some (.oam (Fin.ofNat _ address.toNat))
  | 0x08 | 0x09 | 0x0A | 0x0B | 0x0C | 0x0D => some (.rom (Fin.ofNat _ address.toNat))
  | 0x0E | 0x0F => some (.sram (Fin.ofNat _ address.toNat))
  | _ => none

end Cell

end Handheld
