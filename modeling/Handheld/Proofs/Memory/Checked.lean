import Handheld.Proofs.Lockstep
import Handheld.Proofs.Memory.OpenBus

/-!
# No access is out of bounds

The console's memory has the sizes of its blocks and the ranges of its indices in its types.  A
`CheckedMemory` has neither: its blocks are byte arrays of whatever size, an index is computed from
the address by masks and differences, and it is checked when it is used.  Whatever happens to a new
memory happens to both alike, so no check ever fails.
-/

namespace Handheld

/-! ## 1. Checks -/

/-- An index is beyond the end of what it points into, or a number beyond those of its type. -/
inductive Stray where
  | index (i size : Nat)
  | overflow (n : Nat)
deriving DecidableEq, Repr

namespace Checked

def get (bytes : ByteArray) (i : Nat) : Except Stray Byte :=
  if h : i < bytes.size then .ok (bytes.get i h) else .error (.index i bytes.size)

def set (bytes : ByteArray) (i : Nat) (v : Byte) : Except Stray ByteArray :=
  if h : i < bytes.size then .ok (bytes.set i v h) else .error (.index i bytes.size)

/-- The byte at an index modulo the size of the block; an empty block has no remainders. -/
def getMod (bytes : ByteArray) (i : Nat) : Except Stray Byte :=
  if bytes.size = 0 then .error (.index i 0) else get bytes (i % bytes.size)

def background (n : Word) : Except Stray Background :=
  if h : n.toNat < 4 then .ok ⟨n.toNat, h⟩ else .error (.index n.toNat 4)

variable {n : Nat}

theorem toNat_ofNat_index (hn : n ≤ 2 ^ 32) (i : Fin n) : (UInt32.ofNat i).toNat = i.val :=
  UInt32.toNat_ofNat_of_lt' (Nat.lt_of_lt_of_le i.isLt hn)

theorem get_arena (hn : n ≤ 2 ^ 32) (a : Arena n) (i : Fin n) :
    get a.bytes (UInt32.ofNat i).toNat = .ok (a.get i) := by
  rw [toNat_ofNat_index hn]
  exact dif_pos (a.lt_size i)

theorem set_arena (hn : n ≤ 2 ^ 32) (a : Arena n) (i : Fin n) (v : Byte) :
    set a.bytes (UInt32.ofNat i).toNat v = .ok (a.set i v).bytes := by
  rw [toNat_ofNat_index hn]
  exact dif_pos (a.lt_size i)

theorem getMod_rom (r : Rom) (i : Nat) : getMod r.bytes i = .ok (r.get i) := by
  have hpos : 0 < r.bytes.size := Nat.lt_of_lt_of_le (by decide) r.four_le
  unfold getMod
  rw [if_neg hpos.ne']
  exact dif_pos (Nat.mod_lt i hpos)

end Checked

/-! ## 2. Addresses -/

namespace Region

/-- The last quarter of the window is folded onto the quarter before it. -/
def videoOffset (address : Word) : Word :=
  let offset := address &&& 0x1FFFF
  if 0x18000 ≤ offset then offset - 0x8000 else offset

/-- The region of an address, and the offset in it as a word. -/
def decode? (address : Word) : Option (Region × Word) :=
  match address >>> 24 with
  | 0x00 => if address < 0x4000 then some (bios, address) else none
  | 0x02 => some (ewram, address &&& 0x3FFFF)
  | 0x03 => some (iwram, address &&& 0x7FFF)
  | 0x04 =>
    let offset := address &&& 0xFFFFFF
    if offset < 0x400 then some (io, offset) else none
  | 0x05 => some (palette, address &&& 0x3FF)
  | 0x06 => some (vram, videoOffset address)
  | 0x07 => some (oam, address &&& 0x3FF)
  | 0x08 | 0x09 | 0x0A | 0x0B | 0x0C | 0x0D => some (rom, (address - 0x08000000) &&& 0x1FFFFFF)
  | 0x0E | 0x0F => some (sram, address &&& 0xFFFF)
  | _ => none

end Region

theorem Cell.offset_lt (c : Cell) : c.offset < c.region.size := by
  cases c with
  | bios i | ewram i | iwram i | io i | palette i | vram i | oam i | rom i | sram i => exact i.isLt

theorem Word.and_mask_eq_ofNat_mod {a mask : Word} (k : Nat) (hmask : mask.toNat = 2 ^ k - 1) :
    a &&& mask = UInt32.ofNat (a.toNat % 2 ^ k) := by
  have hlt : a.toNat % 2 ^ k < 2 ^ 32 := Nat.lt_of_le_of_lt (Nat.mod_le _ _) a.toNat_lt
  rw [← UInt32.toNat_inj, UInt32.toNat_and, hmask, Nat.and_two_pow_sub_one_eq_mod,
    UInt32.toNat_ofNat_of_lt' hlt]

theorem Region.videoOffset_eq (a : Word) :
    some (vram, videoOffset a) =
      (some (Cell.ofVideo a)).map fun c => (c.region, UInt32.ofNat c.offset) := by
  have hmask : a &&& 0x1FFFF = UInt32.ofNat (a.toNat % 0x20000) := Word.and_mask_eq_ofNat_mod 17 rfl
  have hnat : (UInt32.ofNat (a.toNat % 0x20000)).toNat = a.toNat % 0x20000 :=
    UInt32.toNat_ofNat_of_lt' (by show _ < 2 ^ 32; omega)
  unfold videoOffset
  rw [hmask]
  by_cases h : a.toNat % 0x20000 < 0x18000
  · have hbelow : ¬ (0x18000 : Word) ≤ UInt32.ofNat (a.toNat % 0x20000) := by
      rw [UInt32.le_iff_toNat_le, hnat]
      exact Nat.not_le.2 h
    dsimp only
    rw [if_neg hbelow, Cell.ofVideo_of_lt h]
    rfl
  · obtain ⟨j, hj, hsum⟩ := Cell.ofVideo_of_not_lt h
    have habove : (0x18000 : Word) ≤ UInt32.ofNat (a.toNat % 0x20000) := by
      rw [UInt32.le_iff_toNat_le, hnat]
      exact Nat.not_lt.1 h
    dsimp only
    rw [if_pos habove, hj, ← hsum, UInt32.ofNat_add]
    show some (vram, _ + 0x8000 - 0x8000) = some (vram, UInt32.ofNat j.val)
    rw [UInt32.add_sub_cancel]

/-- The offset that is computed is that of the cell. -/
theorem Region.decode?_eq (a : Word) :
    decode? a = (Cell.ofAddress? a).map fun c => (c.region, UInt32.ofNat c.offset) := by
  have hmask {mask : Word} (k : Nat) (h : mask.toNat = 2 ^ k - 1) (r : Region) :
      some (r, a &&& mask) = some (r, UInt32.ofNat (a.toNat % 2 ^ k)) :=
    congrArg (fun o => some (r, o)) (Word.and_mask_eq_ofNat_mod k h)
  unfold decode? Cell.ofAddress?
  -- Both go by the top byte, in the same order.
  generalize a >>> 24 = top
  split
  case h_1 =>
    show (if a < 0x4000 then _ else _) =
      (if h : a.toNat < 0x4000 then some (Cell.bios ⟨_, h⟩) else none).map _
    by_cases h : a.toNat < 0x4000
    · rw [dif_pos h, if_pos (UInt32.lt_iff_toNat_lt.2 h)]
      show some (bios, a) = some (bios, UInt32.ofNat a.toNat)
      rw [UInt32.ofNat_toNat]
    · rw [dif_neg h, if_neg (mt UInt32.lt_iff_toNat_lt.1 h)]
      rfl
  case h_2 => exact hmask 18 rfl ewram
  case h_3 => exact hmask 15 rfl iwram
  case h_4 =>
    show (if a &&& 0xFFFFFF < 0x400 then _ else _) =
      (if h : (a &&& 0xFFFFFF).toNat < 0x400 then some (Cell.io ⟨_, h⟩) else none).map _
    by_cases h : (a &&& 0xFFFFFF).toNat < 0x400
    · rw [dif_pos h, if_pos (UInt32.lt_iff_toNat_lt.2 h)]
      show some (io, _) = some (io, UInt32.ofNat (a &&& 0xFFFFFF).toNat)
      rw [UInt32.ofNat_toNat]
    · rw [dif_neg h, if_neg (mt UInt32.lt_iff_toNat_lt.1 h)]
      rfl
  case h_5 => exact hmask 10 rfl palette
  case h_6 => exact videoOffset_eq a
  case h_7 => exact hmask 10 rfl oam
  case h_14 | h_15 => exact hmask 16 rfl sram
  case h_16 => simp [*]
  all_goals
    -- The start of the window is a multiple of its size.
    show some (rom, _) = some (rom, UInt32.ofNat (a.toNat % 0x2000000))
    rw [Word.and_mask_eq_ofNat_mod 25 rfl, UInt32.toNat_sub]
    congr 3
    show (2 ^ 32 - 0x8000000 + a.toNat) % 2 ^ 32 % 0x2000000 = a.toNat % 0x2000000
    omega

/-! ## 3. Registers -/

/-- The register at an I/O offset, if there is one; the number of its background is computed from
the offset. -/
def IoSlot.locate? (offset : Word) : Except Stray (Option IoSlot) :=
  let o := offset &&& ~~~1
  if o = 0x000 then .ok (some .displayControl)
  else if o = 0x004 then .ok (some .displayStatus)
  else if o = 0x006 then .ok (some .lineCounter)
  else if 0x008 ≤ o ∧ o ≤ 0x00E then
    (Checked.background ((o - 0x008) / 2)).map fun n => some (.control n)
  else if 0x010 ≤ o ∧ o ≤ 0x01E then
    (Checked.background ((o - 0x010) / 4)).map fun n =>
      some (if o &&& 2 = 0 then .scrollX n else .scrollY n)
  else if o = 0x130 then .ok (some .keys)
  else .ok none

/-- Below the interrupt registers the computed numbers are those of the table. -/
theorem IoSlot.locate?_of_lt : ∀ n < 0x200,
    locate? (UInt32.ofNat n) = .ok (ofOffset? (UInt32.ofNat n)) := by
  decide +kernel

theorem IoSlot.locate?_eq (o : Word) : locate? o = .ok (ofOffset? o) := by
  by_cases h : o.toNat < 0x200
  · have hlow := locate?_of_lt o.toNat h
    rwa [UInt32.ofNat_toNat] at hlow
  -- From there on there are only the interrupt registers, which are looked up elsewhere.
  · have heven : 0x200 ≤ (o &&& ~~~1).toNat := by
      rw [Word.toNat_and_not_one]
      omega
    have hgt (v : Word) (hv : v.toNat < 0x200) : ¬ o &&& ~~~1 ≤ v := fun hle =>
      absurd (UInt32.le_iff_toNat_le.1 hle) (by omega)
    have hne (v : Word) (hv : v.toNat < 0x200) : o &&& ~~~1 ≠ v := fun heq =>
      hgt v hv (heq ▸ UInt32.le_refl _)
    rw [ofOffset?_eq_none (UInt32.le_iff_toNat_le.2 (Nat.not_lt.1 h))]
    unfold locate?
    dsimp only
    rw [if_neg (hne 0x000 (by decide)), if_neg (hne 0x004 (by decide)),
      if_neg (hne 0x006 (by decide)), if_neg fun h => hgt 0x00E (by decide) h.2,
      if_neg fun h => hgt 0x01E (by decide) h.2, if_neg (hne 0x130 (by decide))]

/-- The number of a background that is computed is below four. -/
theorem background_lt (o : Word) :
    (0x008 ≤ o → o ≤ 0x00E → ((o - 0x008) / 2).toNat < 4) ∧
      (0x010 ≤ o → o ≤ 0x01E → ((o - 0x010) / 4).toNat < 4) := by
  constructor
  · intro hfirst hlast
    rw [UInt32.toNat_div, UInt32.toNat_sub_of_le _ _ hfirst]
    have hlast := UInt32.le_iff_toNat_le.1 hlast
    change o.toNat ≤ 0xE at hlast
    show (o.toNat - 8) / 2 < 4
    omega
  · intro hfirst hlast
    rw [UInt32.toNat_div, UInt32.toNat_sub_of_le _ _ hfirst]
    have hlast := UInt32.le_iff_toNat_le.1 hlast
    change o.toNat ≤ 0x1E at hlast
    show (o.toNat - 0x10) / 4 < 4
    omega

/-! ## 4. Memory -/

/-- The console's memory with nothing in its type that bounds an index. -/
structure CheckedMemory where
  bios : ByteArray
  ewram : ByteArray
  iwram : ByteArray
  palette : ByteArray
  vram : ByteArray
  oam : ByteArray
  rom : ByteArray
  sram : ByteArray
  io : IoRegisters
  interrupts : InterruptController
  openBus : Byte

/-- The bare blocks of a memory. -/
def Memory.checked (m : Memory) : CheckedMemory :=
  ⟨m.bios.bytes, m.ewram.bytes, m.iwram.bytes, m.palette.bytes, m.vram.bytes, m.oam.bytes,
    m.rom.bytes, m.sram.bytes, m.io, m.interrupts, m.openBus⟩

namespace CheckedMemory

def zeros (n : Nat) : ByteArray := ⟨Array.replicate n 0⟩

def ofImage (image : ByteArray) : Except Fault CheckedMemory :=
  if 0x2000000 < image.size then .error (.romTooLarge image.size)
  else
    .ok {
      bios := zeros 0x4000
      ewram := zeros 0x40000
      iwram := zeros 0x8000
      palette := zeros 0x400
      vram := zeros 0x18000
      oam := zeros 0x400
      rom := if image.size < 4 then image ++ zeros (4 - image.size) else image
      sram := zeros 0x10000
      io := IoRegisters.initial
      interrupts := InterruptController.initial
      openBus := 0 }

/-- Copy start-up code to the front of its block, unless it is too large.  It has to fit the
block. -/
def loadBios (m : CheckedMemory) (image : ByteArray) : Except Stray (Except Fault CheckedMemory) :=
  if 0x4000 < image.size then .ok (.error (.biosTooLarge image.size))
  else if image.size ≤ m.bios.size then
    .ok (.ok { m with bios := image ++ m.bios.extract image.size m.bios.size })
  else .error (.index image.size m.bios.size)

def lookupIo (m : CheckedMemory) (offset : Word) : Except Stray (Option Byte) :=
  if InterruptController.owns offset then .ok (m.interrupts.read8 offset)
  else (IoSlot.locate? offset).map fun slot => slot.map fun s => (m.io.value s).byteAt offset

def lookup (m : CheckedMemory) (address : Word) : Except Stray (Option Byte) :=
  match Region.decode? address with
  | none => .ok none
  | some (.io, offset) => m.lookupIo offset
  | some (.bios, offset) => (Checked.get m.bios offset.toNat).map some
  | some (.ewram, offset) => (Checked.get m.ewram offset.toNat).map some
  | some (.iwram, offset) => (Checked.get m.iwram offset.toNat).map some
  | some (.palette, offset) => (Checked.get m.palette offset.toNat).map some
  | some (.vram, offset) => (Checked.get m.vram offset.toNat).map some
  | some (.oam, offset) => (Checked.get m.oam offset.toNat).map some
  | some (.rom, offset) => (Checked.getMod m.rom offset.toNat).map some
  | some (.sram, offset) => (Checked.get m.sram offset.toNat).map some

def read8 (m : CheckedMemory) (address : Word) : Except Stray (Byte × CheckedMemory) :=
  (m.lookup address).map fun
    | some v => (v, { m with openBus := v })
    | none => (m.openBus, m)

def storeIo (m : CheckedMemory) (offset : Word) (v : Byte) : Except Stray CheckedMemory :=
  if InterruptController.owns offset then
    .ok { m with interrupts := m.interrupts.write8 offset v }
  else
    (IoSlot.locate? offset).map fun
      | some slot => { m with io := m.io.writeSlot slot offset v }
      | none => m

def write8 (m : CheckedMemory) (address : Word) (v : Byte) : Except Stray CheckedMemory :=
  match Region.decode? address with
  | none | some (.bios, _) | some (.rom, _) => .ok m
  | some (.io, offset) => m.storeIo offset v
  | some (.ewram, offset) =>
    (Checked.set m.ewram offset.toNat v).map fun bytes => { m with ewram := bytes }
  | some (.iwram, offset) =>
    (Checked.set m.iwram offset.toNat v).map fun bytes => { m with iwram := bytes }
  | some (.palette, offset) =>
    (Checked.set m.palette offset.toNat v).map fun bytes => { m with palette := bytes }
  | some (.vram, offset) =>
    (Checked.set m.vram offset.toNat v).map fun bytes => { m with vram := bytes }
  | some (.oam, offset) =>
    (Checked.set m.oam offset.toNat v).map fun bytes => { m with oam := bytes }
  | some (.sram, offset) =>
    (Checked.set m.sram offset.toNat v).map fun bytes => { m with sram := bytes }

/-- The colour at an index of the palette; the product is one of 64 bits. -/
def paletteEntry (m : CheckedMemory) (index : Nat) : Except Stray Half :=
  if index * 2 < 2 ^ 64 then do
    let offset := index * 2 % 0x400
    let low ← Checked.get m.palette offset
    let high ← Checked.get m.palette (offset + 1)
    return Half.ofBytes low high
  else .error (.overflow (index * 2))

/-- The blocks have the sizes of their regions, and the cartridge fits its window. -/
structure Sized (m : CheckedMemory) : Prop where
  bios : m.bios.size = 0x4000
  ewram : m.ewram.size = 0x40000
  iwram : m.iwram.size = 0x8000
  palette : m.palette.size = 0x400
  vram : m.vram.size = 0x18000
  oam : m.oam.size = 0x400
  rom : 4 ≤ m.rom.size ∧ m.rom.size ≤ 0x2000000
  sram : m.sram.size = 0x10000

/-- How many bytes there are to a region: those of its block, or the I/O window. -/
def length (m : CheckedMemory) : Region → Nat
  | .bios => m.bios.size
  | .ewram => m.ewram.size
  | .iwram => m.iwram.size
  | .io => 0x400
  | .palette => m.palette.size
  | .vram => m.vram.size
  | .oam => m.oam.size
  | .rom => m.rom.size
  | .sram => m.sram.size

theorem Sized.length_eq {m : CheckedMemory} (h : m.Sized) {r : Region} (hr : r ≠ .rom) :
    m.length r = r.size := by
  cases r with
  | bios => exact h.bios
  | ewram => exact h.ewram
  | iwram => exact h.iwram
  | io => rfl
  | palette => exact h.palette
  | vram => exact h.vram
  | oam => exact h.oam
  | rom => exact absurd rfl hr
  | sram => exact h.sram

/-- A decoded offset is one of its block, or becomes one modulo the size of the image. -/
theorem Sized.decode?_lt {m : CheckedMemory} (h : m.Sized) {a : Word} {r : Region} {offset : Word}
    (hdecode : Region.decode? a = some (r, offset)) :
    (r ≠ .rom → offset.toNat < m.length r) ∧
      (r = .rom → 0 < m.rom.size ∧ offset.toNat % m.rom.size < m.rom.size) := by
  rw [Region.decode?_eq, Option.map_eq_some_iff] at hdecode
  obtain ⟨c, -, heq⟩ := hdecode
  cases heq
  constructor
  · intro hr
    rw [h.length_eq hr, UInt32.toNat_ofNat']
    exact Nat.lt_of_le_of_lt (Nat.mod_le _ _) c.offset_lt
  · intro _
    have hpos : 0 < m.rom.size := Nat.lt_of_lt_of_le (by decide) h.rom.1
    exact ⟨hpos, Nat.mod_lt _ hpos⟩

end CheckedMemory

/-- The byte and the memory that a read results in, if its check has not failed. -/
def CheckedMemory.answer : Except Stray (Byte × CheckedMemory) → Byte × Except Stray CheckedMemory
  | .ok (v, m) => (v, .ok m)
  | .error stray => (0, .error stray)

/-- After a check that has failed nothing more happens. -/
instance : Bus (Except Stray CheckedMemory) where
  read8 r address := CheckedMemory.answer (r.bind fun m => m.read8 address)
  write8 r address v := r.bind fun m => m.write8 address v
  irqPending
    | .ok m => m.interrupts.pending
    | .error _ => false

/-! ## 5. No check fails -/

namespace Memory

variable (m : Memory)

theorem lookupIo_checked (offset : Word) : m.checked.lookupIo offset = .ok (m.lookupIo offset) := by
  unfold CheckedMemory.lookupIo lookupIo
  split
  · rfl
  · rw [IoSlot.locate?_eq]
    rfl

theorem lookup_checked (a : Word) : m.checked.lookup a = .ok (m.mapped? a) := by
  unfold CheckedMemory.lookup mapped?
  rw [Region.decode?_eq]
  cases Cell.ofAddress? a with
  | none => rfl
  | some c =>
    cases c with
    | io i => exact m.lookupIo_checked _
    | rom i =>
      show (Checked.getMod m.rom.bytes (UInt32.ofNat i).toNat).map some = _
      rw [Checked.toNat_ofNat_index (by decide), Checked.getMod_rom]
      rfl
    | bios i | ewram i | iwram i | palette i | vram i | oam i | sram i =>
      exact congrArg (Except.map some) (Checked.get_arena (by decide) _ i)

theorem read8_checked (a : Word) :
    m.checked.read8 a = .ok ((m.read8 a).1, (m.read8 a).2.checked) := by
  unfold CheckedMemory.read8 read8
  rw [m.lookup_checked]
  cases m.mapped? a <;> rfl

theorem storeIo_checked (offset : Word) (v : Byte) :
    m.checked.storeIo offset v = .ok (m.storeIo offset v).checked := by
  unfold CheckedMemory.storeIo storeIo
  split
  · rfl
  · rw [IoSlot.locate?_eq]
    unfold IoRegisters.write8
    cases IoSlot.ofOffset? offset <;> rfl

theorem write8_checked (a : Word) (v : Byte) :
    m.checked.write8 a v = .ok (m.write8 a v).checked := by
  unfold CheckedMemory.write8 write8
  rw [Region.decode?_eq]
  cases Cell.ofAddress? a with
  | none => rfl
  | some c =>
    cases c with
    | bios _ | rom _ => rfl
    | io i => exact m.storeIo_checked _ v
    | ewram i | iwram i | palette i | vram i | oam i | sram i =>
      exact congrArg (Except.map _) (Checked.set_arena (by decide) _ i v)

/-- Only an image that is too short is made longer. -/
theorem padded_eq (image : ByteArray) :
    (if image.size < 4 then image ++ CheckedMemory.zeros (4 - image.size) else image) =
      Rom.padded image := by
  split
  next => rfl
  next h =>
    unfold Rom.padded
    rw [Nat.sub_eq_zero_of_le (Nat.not_lt.1 h)]
    exact ByteArray.append_empty.symm

theorem checked_ofImage (image : ByteArray) :
    CheckedMemory.ofImage image = (ofImage image).map checked := by
  unfold CheckedMemory.ofImage ofImage Rom.ofImage
  by_cases h : image.size ≤ 0x2000000
  · rw [if_neg (Nat.not_lt.2 h), dif_pos h, padded_eq]
    rfl
  · rw [if_pos (Nat.not_le.1 h), dif_neg h]
    rfl

/-- The blocks are never of another size, so start-up code that is not too large fits. -/
theorem loadBios_checked (image : ByteArray) :
    m.checked.loadBios image = .ok ((m.loadBios image).map checked) := by
  have hsize : m.checked.bios.size = 0x4000 := m.bios.size_eq
  unfold CheckedMemory.loadBios loadBios
  by_cases h : image.size ≤ 0x4000
  · rw [if_neg (Nat.not_lt.2 h), hsize, if_pos h, dif_pos h]
    rfl
  · rw [if_pos (Nat.not_le.1 h), dif_neg h]
    rfl

theorem paletteEntry_checked {index : Nat} (h : index < 2 ^ 63) :
    m.checked.paletteEntry index = .ok (m.paletteEntry index) := by
  -- The block has 512 entries of two bytes.
  have hget (i : Nat) (hi : i < 0x400) :
      Checked.get m.checked.palette i = .ok (m.palette.get ⟨i, hi⟩) :=
    dif_pos (m.palette.lt_size ⟨i, hi⟩)
  have hoffset : index * 2 % 0x400 = 2 * (index % 512) := by omega
  unfold CheckedMemory.paletteEntry paletteEntry
  dsimp only
  rw [if_pos (by omega), hoffset, hget _ (by omega), hget _ (by omega)]
  rfl

/-- To a processor the two are the same. -/
theorem lockstep_checked :
    Bus.Lockstep (fun _ => True) fun (m : Memory) (r : Except Stray CheckedMemory) =>
      r = .ok m.checked where
  irqPending := by
    rintro m r rfl
    rfl
  read8 := by
    rintro m r a rfl -
    show (CheckedMemory.answer (m.checked.read8 a)).1 = _ ∧
      (CheckedMemory.answer (m.checked.read8 a)).2 = _
    rw [m.read8_checked a]
    exact ⟨rfl, rfl⟩
  write8 := by
    rintro m r a v rfl -
    exact m.write8_checked a v

end Memory

/-! ## 6. Whatever happens -/

/-- Operations lead related buses to related ones. -/
theorem BusOp.lockstep_run {β γ : Type} [Bus β] [Bus γ] {R : β → γ → Prop}
    (h : Bus.Lockstep (fun _ => True) R) (op : BusOp) {b : β} {g : γ} (hR : R b g) :
    R (op.run b) (op.run g) := by
  have hdialogue {α : Type} {f : ∀ {β : Type} [Bus β], β → α × β} (hf : IsDialogue f) :
      R (f b).2 (f g).2 := by
    obtain ⟨d, hd⟩ := hf
    have hb : f b = d.on b := hd b
    have hg : f g = d.on g := hd g
    rw [hb, hg]
    exact (d.lockstep h hR fun _ _ => trivial).2
  cases op with
  | read w address =>
    cases w with
    | byte => exact hdialogue (.read8 address)
    | half => exact hdialogue (.read16 address)
    | word => exact hdialogue (.read32 address)
  | write w address v =>
    cases w with
    | byte => exact hdialogue (.write8 () address v)
    | half => exact hdialogue (.write16 () address v)
    | word => exact hdialogue (.write32 () address v)
  | steps n c => exact (Cpu.lockstep_steps h n c hR fun _ _ => trivial).2.2

namespace Memory

/-- What is done to the memory: what a program does, what a host does, and accesses of the host to
single registers at any offset. -/
inductive Use where
  | program (op : BusOp)
  | loadBios (image : ByteArray)
  | peek (address : Word)
  | latchKeys (mask : Option Half)
  | request (s : Interrupt)
  | readIo (offset : Word)
  | writeIo (offset : Word) (v : Byte)
  | readInterrupts (offset : Word)
  | writeInterrupts (offset : Word) (v : Byte)

namespace Use

def apply (m : Memory) : Use → Memory
  | program op => op.run m
  | loadBios image => (m.loadBios image).toOption.getD m
  | latchKeys mask => m.latchKeys mask
  | request s => m.request s
  | writeIo offset v => { m with io := m.io.write8 offset v }
  | writeInterrupts offset v => { m with interrupts := m.interrupts.write8 offset v }
  | peek _ | readIo _ | readInterrupts _ => m

/-- The same done to a memory that checks its indices. -/
def check (r : Except Stray CheckedMemory) : Use → Except Stray CheckedMemory
  | program op => op.run r
  | loadBios image => r.bind fun m => (m.loadBios image).map fun loaded => loaded.toOption.getD m
  | peek address => r.bind fun m => (m.lookup address).map fun _ => m
  | latchKeys mask =>
    r.map fun m =>
      { m with io := m.io.setKeys ((mask.map (· ||| 0xFC00)).getD Keypad.releasedMask) }
  | request s => r.map fun m => { m with interrupts := m.interrupts.request s }
  | readIo offset => r.bind fun m => (IoSlot.locate? offset).map fun _ => m
  | writeIo offset v =>
    r.bind fun m => (IoSlot.locate? offset).map fun
      | some slot => { m with io := m.io.writeSlot slot offset v }
      | none => m
  | readInterrupts _ => r
  | writeInterrupts offset v =>
    r.map fun m => { m with interrupts := m.interrupts.write8 offset v }

theorem check_checked (m : Memory) (use : Use) :
    use.check (.ok m.checked) = .ok (use.apply m).checked := by
  cases use with
  | program op => exact op.lockstep_run lockstep_checked rfl
  | loadBios image =>
    show (m.checked.loadBios image).map _ = _
    rw [m.loadBios_checked]
    unfold apply
    dsimp only
    cases m.loadBios image <;> rfl
  | peek address =>
    show (m.checked.lookup address).map _ = _
    rw [m.lookup_checked]
    rfl
  | readIo offset =>
    show (IoSlot.locate? offset).map _ = _
    rw [IoSlot.locate?_eq]
    rfl
  | writeIo offset v =>
    show (IoSlot.locate? offset).map _ = _
    rw [IoSlot.locate?_eq]
    unfold apply IoRegisters.write8
    dsimp only
    cases IoSlot.ofOffset? offset <;> rfl
  | latchKeys _ | request _ | readInterrupts _ | writeInterrupts _ _ => rfl

theorem foldl_check (m : Memory) (uses : List Use) :
    uses.foldl check (.ok m.checked) = .ok (uses.foldl apply m).checked := by
  induction uses generalizing m with
  | nil => rfl
  | cons use uses ih =>
    rw [List.foldl_cons, check_checked]
    exact ih _

end Use

/-- Start-up code that is too large is refused, and leaves everything as it is. -/
theorem refuses_bios (m : CheckedMemory) {bios : ByteArray} (h : 0x4000 < bios.size) :
    m.loadBios bios = .ok (.error (.biosTooLarge bios.size)) ∧
      (Use.loadBios bios).check (.ok m) = .ok m := by
  have hrefused : m.loadBios bios = .ok (.error (.biosTooLarge bios.size)) := if_pos h
  refine ⟨hrefused, ?_⟩
  show (m.loadBios bios).map _ = _
  rw [hrefused]
  rfl

theorem sized_checked (m : Memory) : m.checked.Sized where
  bios := m.bios.size_eq
  ewram := m.ewram.size_eq
  iwram := m.iwram.size_eq
  palette := m.palette.size_eq
  vram := m.vram.size_eq
  oam := m.oam.size_eq
  rom := ⟨m.rom.four_le, m.rom.le_window⟩
  sram := m.sram.size_eq

/-- A new memory with any cartridge that fits never fails a check, whatever is done to it, and ends
where the memory does that checks nothing.  Its blocks keep their sizes, every offset that is
decoded and every number that is computed from one is in range, and start-up code that is too large
leaves it as it is. -/
theorem in_bounds_of_uses {image : ByteArray} (himage : image.size ≤ 0x2000000)
    (uses : List Use) :
    ∃ m, ofImage image = .ok m ∧ CheckedMemory.ofImage image = .ok m.checked ∧
      let after := (uses.foldl Use.apply m).checked
      uses.foldl Use.check (.ok m.checked) = .ok after ∧
      after.Sized ∧
      (∀ a r offset, Region.decode? a = some (r, offset) →
        (r ≠ .rom → offset.toNat < after.length r) ∧
          (r = .rom → 0 < after.rom.size ∧ offset.toNat % after.rom.size < after.rom.size)) ∧
      (∀ o : Word, (0x008 ≤ o → o ≤ 0x00E → ((o - 0x008) / 2).toNat < 4) ∧
        (0x010 ≤ o → o ≤ 0x01E → ((o - 0x010) / 4).toNat < 4)) ∧
      (∀ index < 2 ^ 63,
        after.paletteEntry index = .ok ((uses.foldl Use.apply m).paletteEntry index)) ∧
      (∀ bios : ByteArray, 0x4000 < bios.size →
        after.loadBios bios = .ok (.error (.biosTooLarge bios.size)) ∧
          (Use.loadBios bios).check (.ok after) = .ok after) := by
  have hrom : ofImage image = .ok (ofRom _) := congrArg (Except.map ofRom) (dif_pos himage)
  refine ⟨_, hrom, by rw [checked_ofImage, hrom]; rfl, Use.foldl_check _ uses, sized_checked _,
    fun a r offset => (sized_checked _).decode?_lt, background_lt,
    fun index => paletteEntry_checked _, fun bios => refuses_bios _⟩

/-- An empty cartridge, the folded quarter of video memory, and an offset far outside the window. -/
theorem in_bounds_of_uses_empty :
    let uses : List Use :=
      [.program (.write .word 0x0601FFFC 0x12345678), .program (.read .half 0x0DFFFFFE),
        .writeIo 0xFFFFFFFF 1, .program (.steps 3 (Cpu.reset 0x08000000 false))]
    ByteArray.empty.size ≤ 0x2000000 ∧ 513 < 2 ^ 63 ∧
      ∃ m, ofImage ByteArray.empty = .ok m ∧
        uses.foldl Use.check (.ok m.checked) = .ok (uses.foldl Use.apply m).checked ∧
        (uses.foldl Use.apply m).checked.paletteEntry 513 =
          .ok ((uses.foldl Use.apply m).paletteEntry 513) := by
  intro uses
  have himage : ByteArray.empty.size ≤ 0x2000000 := by decide
  have hindex : 513 < 2 ^ 63 := by decide
  obtain ⟨m, hm, -, hrun, -, -, -, hpalette, -⟩ := in_bounds_of_uses himage uses
  exact ⟨himage, hindex, m, hm, hrun, hpalette 513 hindex⟩

end Memory

end Handheld
