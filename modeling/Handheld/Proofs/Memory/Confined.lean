import Handheld.Bus.FlatRam
import Handheld.Proofs.Lockstep
import Handheld.Proofs.Memory.Blocks
import Handheld.Proofs.Memory.DataLines

/-!
# Programs that stay in one block of RAM

Five regions show their block again and again from one end of their top bytes to the other.  To a
program that stays in one of them the console's memory is a flat memory of that block.
-/

namespace Handheld

namespace Region

/-- The top bytes of the addresses in the region. -/
def topBytes : Region → List Word
  | bios => [0x00]
  | ewram => [0x02]
  | iwram => [0x03]
  | io => [0x04]
  | palette => [0x05]
  | vram => [0x06]
  | oam => [0x07]
  | rom => [0x08, 0x09, 0x0A, 0x0B, 0x0C, 0x0D]
  | sram => [0x0E, 0x0F]

/-- The region is RAM, and all of its window shows its block in order. -/
def isFlat : Region → Bool
  | ewram | iwram | palette | oam | sram => true
  | bios | io | vram | rom => false

theorem size_pos (r : Region) : 0 < r.size := by
  cases r <;> decide

theorem isRam_of_isFlat {r : Region} (h : r.isFlat = true) : r.isRam = true := by
  cases r <;> first | rfl | cases h

end Region

/-- In a flat region the address counts modulo the size of the block. -/
theorem Cell.ofAddress?_of_isFlat {r : Region} {a : Word} (hflat : r.isFlat = true)
    (htop : a >>> 24 ∈ r.topBytes) :
    ∃ c, ofAddress? a = some c ∧ c.region = r ∧ c.offset = a.toNat % r.size := by
  unfold ofAddress?
  cases r with
  | bios | io | vram | rom => cases hflat
  | ewram | iwram | palette | oam =>
    rw [List.mem_singleton.1 htop]
    exact ⟨_, rfl, rfl, rfl⟩
  | sram =>
    -- The block shows under two top bytes.
    rcases List.mem_cons.1 htop with h | h
    · rw [h]
      exact ⟨_, rfl, rfl, rfl⟩
    · rw [List.mem_singleton.1 h]
      exact ⟨_, rfl, rfl, rfl⟩

namespace Memory

/-! ## 1. Lockstep with a flat memory -/

theorem contents_withOpenBus (m : Memory) (latch : Byte) (r : Region) :
    (m.withOpenBus latch).contents r = m.contents r := by
  cases r <;> rfl

/-- The flat memory has the bytes of the region, and the rest of the memory is as in `start`. -/
structure Shadows (start : Memory) (r : Region) (ram : FlatRam) (m : Memory) : Prop where
  bytes : m.contents r = ram.bytes
  irq : ram.irq = false
  contents : ∀ r', r' ≠ r → m.contents r' = start.contents r'
  io : m.io = start.io
  interrupts : m.interrupts = start.interrupts

theorem Shadows.withOpenBus {start m : Memory} {r : Region} {ram : FlatRam}
    (h : Shadows start r ram m) (latch : Byte) : Shadows start r ram (m.withOpenBus latch) :=
  ⟨(m.contents_withOpenBus latch r).trans h.bytes, h.irq,
    fun r' hr => (m.contents_withOpenBus latch r').trans (h.contents r' hr), h.io, h.interrupts⟩

variable {start m : Memory} {r : Region} {ram : FlatRam} {a : Word}

theorem Shadows.read8 (hflat : r.isFlat = true) (h : Shadows start r ram m)
    (htop : a >>> 24 ∈ r.topBytes) :
    (m.read8 a).1 = ram.peek a ∧ Shadows start r ram (m.read8 a).2 := by
  obtain ⟨c, hc, rfl, hoffset⟩ := Cell.ofAddress?_of_isFlat hflat htop
  have hram := Region.isRam_of_isFlat hflat
  -- Both count the address modulo the size of the block.
  have hindex : c.offset = (ram.index a).val := by
    show c.offset = a.toNat % ram.bytes.size
    rw [hoffset, ← h.bytes, m.size_contents hram]
  have hbyte : m.mapped? a = some (ram.peek a) := by
    unfold mapped?
    rw [hc, Option.bind_some, ← m.getElem?_contents hram, h.bytes, hindex]
    exact getElem?_pos ram.bytes _ (ram.index a).isLt
  have hpeek : m.peek8 a = ram.peek a := by
    unfold peek8
    rw [hbyte]
    rfl
  rw [read8_eq, hpeek]
  exact ⟨rfl, h.withOpenBus _⟩

theorem Shadows.write8 (hflat : r.isFlat = true) (h : Shadows start r ram m)
    (htop : a >>> 24 ∈ r.topBytes) (v : Byte) :
    Shadows start r (ram.poke a v) (m.write8 a v) := by
  obtain ⟨c, hc, rfl, hoffset⟩ := Cell.ofAddress?_of_isFlat hflat htop
  have hram := Region.isRam_of_isFlat hflat
  have hsize := m.size_contents hram
  -- The store goes to the byte that the flat memory writes.
  have hlt : c.offset < (m.contents c.region).size := by
    rw [hoffset, hsize]
    exact Nat.mod_lt _ c.region.size_pos
  have hwrite : m.write8 a v = m.store c v := by
    unfold Memory.write8
    rw [hc]
  have hne : ∀ i, c ≠ .io i := by
    rintro i rfl
    cases hram
  obtain ⟨hio, hinterrupts⟩ := registers_store m v hne
  rw [hwrite]
  exact
    { bytes := by
        rw [m.contents_store_self v hram hlt]
        unfold FlatRam.poke
        simp only [← h.bytes, hsize, hoffset]
      irq := h.irq
      contents := fun r' hr => (m.contents_store_of_ne v hr).trans (h.contents r' hr)
      io := hio.trans h.io
      interrupts := hinterrupts.trans h.interrupts }

/-- While accesses stay in the region, the two memories cannot be told apart. -/
theorem lockstep_shadows (hflat : r.isFlat = true) (hline : Bus.irqPending start = false) :
    Bus.Lockstep (fun a => a >>> 24 ∈ r.topBytes) (Shadows start r) where
  irqPending {b g} h := by
    show g.interrupts.pending = b.irq
    rw [h.irq, h.interrupts]
    exact hline
  read8 h htop := h.read8 hflat htop
  write8 v h htop := h.write8 hflat htop v

/-! ## 2. Runs -/

/-- A program that stays in one flat region of RAM runs as it would on a flat memory with the same
bytes, and touches nothing else. -/
theorem steps_of_confined (hflat : r.isFlat = true) (n : Nat) (c : Cpu) (m : Memory) (ram : FlatRam)
    (hbytes : ram.bytes = m.contents r) (hirq : ram.irq = false)
    (hline : Bus.irqPending m = false)
    (hconfined : ∀ x ∈ Cpu.traffic n c ram, x.address >>> 24 ∈ r.topBytes) :
    let flat := Cpu.steps n c ram
    let run := Cpu.steps n c m
    run.1 = flat.1 ∧ run.2.1 = flat.2.1 ∧ run.2.2.contents r = flat.2.2.bytes ∧
      (∀ r', r' ≠ r → run.2.2.contents r' = m.contents r') ∧
      run.2.2.io = m.io ∧ run.2.2.interrupts = m.interrupts := by
  have hstart : Shadows m r ram m := ⟨hbytes.symm, hirq, fun _ _ => rfl, rfl, rfl⟩
  obtain ⟨hcost, hcpu, hend⟩ := Cpu.lockstep_steps (lockstep_shadows hflat hline) n c hstart hconfined
  exact ⟨hcost, hcpu, hend.bytes, hend.contents, hend.io, hend.interrupts⟩

/-- `STR r0, [r1]` in the sprite memory stores, through a mirror, the instruction `MOV r2, #5` that
comes next. -/
theorem steps_of_confined_oam :
    let m := Bus.write32 (ofRom ⟨⟨#[0, 0, 0, 0]⟩, by decide, by decide⟩) 0x07000000 0xE5810000
    let ram : FlatRam := ⟨m.contents .oam, false, by decide +kernel⟩
    let c := Cpu.initial.setRegs [0, 1, .pc] [0xE3A02005, 0x07FFFC04, 0x07000000]
    Bus.irqPending m = false ∧
    (∀ x ∈ Cpu.traffic 2 c ram, x.address >>> 24 ∈ Region.oam.topBytes) ∧
      (Cpu.steps 2 c m).2.1.reg 2 = 5 ∧
      (Cpu.steps 2 c m).2.2.contents .oam = (Cpu.steps 2 c ram).2.2.bytes ∧
      (Cpu.steps 2 c m).2.2.io = m.io := by
  intro m ram c
  have hline : Bus.irqPending m = false := by decide +kernel
  have hconfined : ∀ x ∈ Cpu.traffic 2 c ram, x.address >>> 24 ∈ Region.oam.topBytes := by
    decide +kernel
  have hreg : (Cpu.steps 2 c ram).2.1.reg 2 = 5 := by decide +kernel
  obtain ⟨-, hcpu, hbytes, -, hio, -⟩ :=
    steps_of_confined (r := .oam) rfl 2 c m ram rfl rfl hline hconfined
  exact ⟨hline, hconfined, by rw [hcpu, hreg], hbytes, hio⟩

end Memory

end Handheld
