import Handheld.Proofs.Memory.Registers

/-!
# Blocks of memory

Six regions are RAM: what is stored in one of their cells is found there, and nowhere else.  The
start-up code and the cartridge cannot be stored to, and the I/O window has registers in place of a
block.
-/

namespace Handheld

/-- Whether a program can store to the region and find there what it stored. -/
def Region.isRam : Region → Bool
  | .ewram | .iwram | .palette | .vram | .oam | .sram => true
  | .bios | .io | .rom => false

/-- The address is that of a byte of RAM. -/
def Cell.ReachesRam (a : Word) : Prop := ∃ c, ofAddress? a = some c ∧ c.region.isRam = true

theorem Cell.ReachesRam.congr {a b : Word} (ha : ReachesRam a)
    (h : ofAddress? b = ofAddress? a) : ReachesRam b := by
  obtain ⟨c, hc, hram⟩ := ha
  exact ⟨c, h.trans hc, hram⟩

namespace Memory

/-- The bytes of a region; the I/O window has none of its own. -/
def contents (m : Memory) : Region → ByteArray
  | .bios => m.bios.bytes
  | .ewram => m.ewram.bytes
  | .iwram => m.iwram.bytes
  | .io => .empty
  | .palette => m.palette.bytes
  | .vram => m.vram.bytes
  | .oam => m.oam.bytes
  | .rom => m.rom.bytes
  | .sram => m.sram.bytes

/-! ## 1. Cells -/

variable (m : Memory) (v : Byte)

theorem lookup_store_self {c : Cell} (h : c.region.isRam = true) :
    (m.store c v).lookup c = some v := by
  cases c with
  | bios _ | io _ | rom _ => cases h
  | ewram i => exact congrArg some (m.ewram.get_set_self i v)
  | iwram i => exact congrArg some (m.iwram.get_set_self i v)
  | palette i => exact congrArg some (m.palette.get_set_self i v)
  | vram i => exact congrArg some (m.vram.get_set_self i v)
  | oam i => exact congrArg some (m.oam.get_set_self i v)
  | sram i => exact congrArg some (m.sram.get_set_self i v)

/-- A cell of RAM is not changed by a store in another cell. -/
theorem lookup_store_of_ne {c c' : Cell} (hio : c.region ≠ .io) (h : c ≠ c') :
    (m.store c v).lookup c' = m.lookup c' := by
  -- Cells of two blocks never meet; in one block their indices differ.
  have hne {n : Nat} {i j : Fin n} {f : Fin n → Cell} (h : f i ≠ f j) : i ≠ j :=
    fun e => h (congrArg f e)
  cases c with
  | bios _ | rom _ => rfl
  | io _ => exact absurd rfl hio
  | ewram i =>
    cases c' with
    | ewram j => exact congrArg some (m.ewram.get_set_ne v (hne h))
    | _ => rfl
  | iwram i =>
    cases c' with
    | iwram j => exact congrArg some (m.iwram.get_set_ne v (hne h))
    | _ => rfl
  | palette i =>
    cases c' with
    | palette j => exact congrArg some (m.palette.get_set_ne v (hne h))
    | _ => rfl
  | vram i =>
    cases c' with
    | vram j => exact congrArg some (m.vram.get_set_ne v (hne h))
    | _ => rfl
  | oam i =>
    cases c' with
    | oam j => exact congrArg some (m.oam.get_set_ne v (hne h))
    | _ => rfl
  | sram i =>
    cases c' with
    | sram j => exact congrArg some (m.sram.get_set_ne v (hne h))
    | _ => rfl

theorem store_of_not_ram {c : Cell} (hio : c.region ≠ .io) (h : c.region.isRam = false) :
    m.store c v = m := by
  cases c with
  | bios _ | rom _ => rfl
  | io _ => exact absurd rfl hio
  | ewram _ | iwram _ | palette _ | vram _ | oam _ | sram _ => cases h

theorem openBus_store (c : Cell) : (m.store c v).openBus = m.openBus := by
  cases c with
  | io i =>
    show (m.storeIo _ v).openBus = m.openBus
    unfold storeIo
    split <;> rfl
  | bios _ | ewram _ | iwram _ | palette _ | vram _ | oam _ | rom _ | sram _ => rfl

theorem contents_store_io (i : Fin 0x400) (r : Region) :
    (m.store (.io i) v).contents r = m.contents r := by
  show (m.storeIo _ v).contents r = m.contents r
  unfold storeIo
  split <;> cases r <;> rfl

/-! ## 2. Blocks -/

/-- A cell of RAM is the byte of its block that its offset counts. -/
theorem getElem?_contents {c : Cell} (h : c.region.isRam = true) :
    (m.contents c.region)[c.offset]? = m.lookup c := by
  cases c with
  | bios _ | io _ | rom _ => cases h
  | ewram i => exact getElem?_pos m.ewram.bytes i.val (m.ewram.lt_size i)
  | iwram i => exact getElem?_pos m.iwram.bytes i.val (m.iwram.lt_size i)
  | palette i => exact getElem?_pos m.palette.bytes i.val (m.palette.lt_size i)
  | vram i => exact getElem?_pos m.vram.bytes i.val (m.vram.lt_size i)
  | oam i => exact getElem?_pos m.oam.bytes i.val (m.oam.lt_size i)
  | sram i => exact getElem?_pos m.sram.bytes i.val (m.sram.lt_size i)

theorem contents_store_self {c : Cell} (h : c.region.isRam = true)
    (hlt : c.offset < (m.contents c.region).size) :
    (m.store c v).contents c.region = (m.contents c.region).set c.offset v hlt := by
  cases c with
  | bios _ | io _ | rom _ => cases h
  | ewram _ | iwram _ | palette _ | vram _ | oam _ | sram _ => rfl

theorem contents_store_of_ne {c : Cell} {r : Region} (h : r ≠ c.region) :
    (m.store c v).contents r = m.contents r := by
  cases c with
  | bios _ | rom _ => rfl
  | io i => exact contents_store_io m v i r
  | ewram _ | iwram _ | palette _ | vram _ | oam _ | sram _ =>
    cases r <;> first | rfl | exact absurd rfl h

theorem size_contents {r : Region} (h : r.isRam = true) : (m.contents r).size = r.size := by
  cases r with
  | bios | io | rom => cases h
  | ewram => exact m.ewram.size_eq
  | iwram => exact m.iwram.size_eq
  | palette => exact m.palette.size_eq
  | vram => exact m.vram.size_eq
  | oam => exact m.oam.size_eq
  | sram => exact m.sram.size_eq

/-! ## 3. Addresses -/

variable (a : Word)

theorem openBus_write8 : (m.write8 a v).openBus = m.openBus := by
  unfold write8
  split
  · exact openBus_store m v _
  · rfl

theorem mapped?_write8_self {a b : Word} (hram : Cell.ReachesRam a)
    (h : Cell.ofAddress? b = Cell.ofAddress? a) : (m.write8 a v).mapped? b = some v := by
  obtain ⟨c, hc, hram⟩ := hram
  unfold mapped? write8
  rw [h, hc]
  exact lookup_store_self m v hram

theorem region_ne_io {a : Word} (htop : a >>> 24 ≠ 4) {c : Cell}
    (hc : Cell.ofAddress? a = some c) : c.region ≠ .io := by
  intro hio
  cases c with
  | io i => exact Cell.ofAddress?_ne_io htop i hc
  | bios _ | ewram _ | iwram _ | palette _ | vram _ | oam _ | rom _ | sram _ => cases hio

/-- Outside the I/O window a write that does not reach RAM is lost. -/
theorem write8_of_not_ram {a : Word} (htop : a >>> 24 ≠ 4) (h : ¬ Cell.ReachesRam a) :
    m.write8 a v = m := by
  unfold write8
  split
  next c hc =>
    apply store_of_not_ram m v (region_ne_io htop hc)
    rw [← Bool.not_eq_true]
    exact fun hram => h ⟨c, hc, hram⟩
  next => rfl

theorem mapped?_write8_of_ne {a b : Word} (htop : a >>> 24 ≠ 4)
    (h : Cell.ofAddress? b ≠ Cell.ofAddress? a) : (m.write8 a v).mapped? b = m.mapped? b := by
  unfold mapped? write8
  cases hb : Cell.ofAddress? b with
  | none => rfl
  | some c' =>
    cases ha : Cell.ofAddress? a with
    | none => rfl
    | some c =>
      rw [hb, ha] at h
      exact lookup_store_of_ne m v (region_ne_io htop ha) fun e => h (congrArg some e.symm)

end Memory

end Handheld
