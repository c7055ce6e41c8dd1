import Handheld.Proofs.Memory.Blocks
import Handheld.Proofs.Memory.Cells
import Handheld.Proofs.Memory.DataLines

/-!
# Reading what was written, through mirrors

Memory is read and written by cells: an address shows a byte that was written at another address
exactly if the two reach one cell of RAM.  Since an access reaches neighbouring cells of one region,
the same holds of halfwords and words.
-/

namespace Handheld

namespace Cell

/-- An access reaches RAM with all of its bytes or with none. -/
theorem reachesRam_address (w : Width) (a : Word) {i : Nat} (hi : i < w.size) :
    ReachesRam (w.address a i) ↔ ReachesRam a := by
  obtain ⟨j, hj, ha⟩ := w.exists_address_eq a
  have hone {i j : Nat} (hi : i < w.size) (hj : j < w.size) (h : ReachesRam (w.address a i)) :
      ReachesRam (w.address a j) := by
    obtain ⟨c, hc, hram⟩ := h
    rcases ofAddress?_address w a with hnone | ⟨r, n, -, hcells⟩
    · rw [hnone i hi] at hc
      cases hc
    · obtain ⟨d, hd, hdr, -⟩ := hcells i hi
      obtain ⟨d', hd', hdr', -⟩ := hcells j hj
      obtain rfl : c = d := Option.some.inj (hc.symm.trans hd)
      exact ⟨d', hd', by rw [hdr', ← hdr, hram]⟩
  constructor
  · intro h
    rw [← ha]
    exact hone hi hj h
  · intro h
    rw [← ha] at h
    exact hone hj hi h

end Cell

namespace Memory

/-! ## 1. Bytes in a row -/

variable (m : Memory)

theorem mapped?_writeBytes_of_ne {a b : Word} {bs : List Byte}
    (htop : ∀ i < bs.length, (a + UInt32.ofNat i) >>> 24 ≠ 4)
    (h : ∀ i < bs.length, Cell.ofAddress? b = Cell.ofAddress? (a + UInt32.ofNat i) →
      ¬ Cell.ReachesRam b) :
    (Bus.writeBytes m a bs).mapped? b = m.mapped? b := by
  refine Bus.writeBytes_keeps (P := fun m' : Memory => m'.mapped? b = m.mapped? b) ?_ rfl
  intro m' hm' i hi v
  rw [← hm']
  by_cases hcell : Cell.ofAddress? b = Cell.ofAddress? (a + UInt32.ofNat i)
  · have hram : ¬ Cell.ReachesRam (a + UInt32.ofNat i) := fun hram =>
      h i hi hcell (hram.congr hcell)
    exact congrArg (mapped? · b) (m'.write8_of_not_ram v (htop i hi) hram)
  · exact m'.mapped?_write8_of_ne v (htop i hi) hcell

/-- The last byte of the row that goes to a cell is found there. -/
theorem mapped?_writeBytes_of_eq {a b : Word} {bs : List Byte} {i : Nat}
    (htop : ∀ i < bs.length, (a + UInt32.ofNat i) >>> 24 ≠ 4) (hi : i < bs.length)
    (hcell : Cell.ofAddress? b = Cell.ofAddress? (a + UInt32.ofNat i)) (hram : Cell.ReachesRam b)
    (hlater : ∀ j < bs.length, i < j →
      Cell.ofAddress? b ≠ Cell.ofAddress? (a + UInt32.ofNat j)) :
    (Bus.writeBytes m a bs).mapped? b = some bs[i] := by
  induction bs generalizing m a i with
  | nil => cases hi
  | cons v bs ih =>
    have hnext : ∀ j < bs.length, (a + 1 + UInt32.ofNat j) >>> 24 ≠ 4 := by
      intro j hj
      rw [Word.add_one_add_ofNat]
      exact htop (j + 1) (Nat.succ_lt_succ hj)
    cases i with
    | zero =>
      have hzero : a + UInt32.ofNat 0 = a := UInt32.add_zero a
      rw [hzero] at hcell
      refine (mapped?_writeBytes_of_ne _ hnext ?_).trans
        (m.mapped?_write8_self v (hram.congr hcell.symm) hcell)
      intro j hj hcell'
      rw [Word.add_one_add_ofNat] at hcell'
      exact absurd hcell' (hlater (j + 1) (Nat.succ_lt_succ hj) (Nat.zero_lt_succ j))
    | succ i =>
      rw [← Word.add_one_add_ofNat] at hcell
      refine ih _ hnext (Nat.lt_of_succ_lt_succ hi) hcell fun j hj hij => ?_
      rw [Word.add_one_add_ofNat]
      exact hlater (j + 1) (Nat.succ_lt_succ hj) (Nat.succ_lt_succ hij)

/-! ## 2. One access -/

section Write

variable (w : Width) {a : Word} (v : w.Value)

theorem top_address_ne (htop : a >>> 24 ≠ 4) {i : Nat} (hi : i < (w.toBytes v).length) :
    w.address a i >>> 24 ≠ 4 := by
  rw [w.length_toBytes] at hi
  rw [w.top_address a hi]
  exact htop

/-- An address that reaches the cell of a byte of the access shows that byte. -/
theorem mapped?_write_of_eq (htop : a >>> 24 ≠ 4) {b : Word} {i : Nat} (hi : i < w.size)
    (hcell : Cell.ofAddress? b = Cell.ofAddress? (w.address a i)) (hram : Cell.ReachesRam b) :
    (w.write m a v).mapped? b = some (w.byteOf v i) := by
  have hlength : i < (w.toBytes v).length := by
    rw [w.length_toBytes]
    exact hi
  rw [w.write_eq_writeBytes, ← w.getElem_toBytes v hlength]
  refine mapped?_writeBytes_of_eq m (fun j hj => top_address_ne w v htop hj) hlength hcell hram ?_
  -- The bytes after it go to other cells.
  intro j hj hij hcell'
  rw [w.length_toBytes] at hj
  obtain ⟨c, hc, -⟩ := hram
  have hsame := Cell.ofAddress?_address_injective hi hj (hcell.symm.trans hc) (hcell'.symm.trans hc)
  omega

theorem mapped?_write_of_ne (htop : a >>> 24 ≠ 4) {b : Word}
    (h : ∀ i < w.size, Cell.ofAddress? b = Cell.ofAddress? (w.address a i) →
      ¬ Cell.ReachesRam b) :
    (w.write m a v).mapped? b = m.mapped? b := by
  rw [w.write_eq_writeBytes]
  refine mapped?_writeBytes_of_ne m (fun j hj => top_address_ne w v htop hj) fun i hi => ?_
  rw [w.length_toBytes] at hi
  exact h i hi

theorem write_keeps {P : Memory → Prop} (htop : a >>> 24 ≠ 4)
    (hstep : ∀ (m' : Memory) (b : Word) (u : Byte), b >>> 24 ≠ 4 → P m' → P (m'.write8 b u))
    (h : P m) : P (w.write m a v) := by
  rw [w.write_eq_writeBytes]
  refine Bus.writeBytes_keeps ?_ h
  intro m' hm' i hi u
  exact hstep m' (w.address a i) u (top_address_ne w v htop hi) hm'

/-- Outside the I/O window an access writes neither registers nor the data lines. -/
theorem registers_write (htop : a >>> 24 ≠ 4) :
    (w.write m a v).openBus = m.openBus ∧ (w.write m a v).io = m.io ∧
      (w.write m a v).interrupts = m.interrupts := by
  refine write_keeps m w v htop (P := fun m' =>
    m'.openBus = m.openBus ∧ m'.io = m.io ∧ m'.interrupts = m.interrupts) ?_ ⟨rfl, rfl, rfl⟩
  rintro m' b u hb ⟨hopen, hio, hinterrupts⟩
  obtain ⟨hio', hinterrupts'⟩ := registers_write8_of_not_window m' b u hb
  exact ⟨(openBus_write8 m' u b).trans hopen, hio'.trans hio, hinterrupts'.trans hinterrupts⟩

theorem write_of_not_ram (htop : a >>> 24 ≠ 4) (h : ¬ Cell.ReachesRam a) : w.write m a v = m := by
  rw [w.write_eq_writeBytes]
  refine Bus.writeBytes_keeps (P := fun m' : Memory => m' = m) ?_ rfl
  rintro m' rfl i hi u
  have hsize := hi
  rw [w.length_toBytes] at hsize
  exact m'.write8_of_not_ram u (top_address_ne w v htop hi)
    (mt (Cell.reachesRam_address w a hsize).1 h)

/-- A read through a mirror finds the whole value. -/
theorem read_write (htop : a >>> 24 ≠ 4) (hram : Cell.ReachesRam a) {a' : Word}
    (h : Cell.ofAddress? (w.align a') = Cell.ofAddress? (w.align a)) :
    (w.read (w.write m a v) a').1 = v := by
  apply w.eq_of_toBytes_eq
  unfold Width.toBytes
  apply List.map_congr_left
  intro i hi
  have hsize : i < w.size := List.mem_range.1 hi
  have hcell : Cell.ofAddress? (w.address a' i) = Cell.ofAddress? (w.address a i) := by
    rw [← w.address_zero, ← w.address_zero] at h
    exact Cell.ofAddress?_address_congr w.size_pos w.size_pos h hsize
  have hram' : Cell.ReachesRam (w.address a' i) :=
    ((Cell.reachesRam_address w a hsize).2 hram).congr hcell
  rw [byteOf_read _ _ w hsize]
  exact heard_of_mapped _ _ (mapped?_write_of_eq m w v htop hsize hcell hram')

end Write

/-- After an access of any width outside the I/O window: an address that reaches the cell of one of
its bytes, in RAM, shows that byte, and every other address shows what it did; registers and data
lines are as they were; an access that does not reach RAM has changed nothing.  The bytes of an
access reach cells of one region in a row or reach nothing, and addresses that reach one cell still
do with their low bits cleared, so that a read of the width through any mirror finds the value. -/
theorem write_seen_through_mirrors (m : Memory) (w : Width) {a : Word} (v : w.Value)
    (htop : a >>> 24 ≠ 4) :
    let m' := w.write m a v
    (∀ b, ∀ i < w.size, Cell.ofAddress? b = Cell.ofAddress? (w.address a i) →
      Cell.ReachesRam b → m'.peek8 b = w.byteOf v i) ∧
    (∀ b, (∀ i < w.size, Cell.ofAddress? b = Cell.ofAddress? (w.address a i) →
      ¬ Cell.ReachesRam b) → m'.peek8 b = m.peek8 b) ∧
    (m'.openBus = m.openBus ∧ m'.io = m.io ∧ m'.interrupts = m.interrupts) ∧
    (¬ Cell.ReachesRam a → m' = m) ∧
    (∀ x, (∀ i < w.size, Cell.ofAddress? (w.address x i) = none) ∨
      ∃ r k, ∀ i < w.size, ∃ c, Cell.ofAddress? (w.address x i) = some c ∧
        c.region = r ∧ c.offset = k + i) ∧
    (∀ x y, Cell.ofAddress? x = Cell.ofAddress? y →
      Cell.ofAddress? (w.align x) = Cell.ofAddress? (w.align y)) ∧
    (Cell.ReachesRam a → ∀ a', Cell.ofAddress? (w.align a') = Cell.ofAddress? (w.align a) →
      (w.read m' a').1 = v) := by
  intro m'
  refine ⟨fun b i hi hcell hram => ?_, fun b h => ?_, registers_write m w v htop,
    write_of_not_ram m w v htop, fun x => ?_, fun x y => Cell.ofAddress?_align_congr w,
    fun hram a' => read_write m w v htop hram⟩
  · unfold peek8
    rw [mapped?_write_of_eq m w v htop hi hcell hram]
    rfl
  · unfold peek8
    rw [mapped?_write_of_ne m w v htop h, (registers_write m w v htop).1]
  · rcases Cell.ofAddress?_address w x with hnone | ⟨r, k, -, hcells⟩
    · exact .inl hnone
    · exact .inr ⟨r, k, hcells⟩

/-- A word written in the last quarter of the video window, at an address with low bits set, and seen
in the quarter before it and one window further. -/
theorem write_seen_through_mirrors_video :
    let m := ofRom ⟨⟨#[0, 0, 0, 0]⟩, by decide, by decide⟩
    let m' := Bus.write32 m 0x0601FFFE 0xDEADBEEF
    (0x0601FFFE : Word) >>> 24 ≠ 4 ∧ m'.peek8 0x06017FFD = 0xBE ∧
      m'.peek8 0x0600FFFD = m.peek8 0x0600FFFD ∧
      (Bus.read32 m' 0x06037FFF).1 = 0xDEADBEEF := by
  intro m m'
  have htop : (0x0601FFFE : Word) >>> 24 ≠ 4 := by decide
  obtain ⟨hsame, hother, -, -, -, -, hread⟩ :=
    write_seen_through_mirrors m .word (a := 0x0601FFFE) (0xDEADBEEF : Word) htop
  refine ⟨htop, ?_, ?_, ?_⟩
  · exact hsame 0x06017FFD 1 (by decide) (by decide) ⟨_, rfl, rfl⟩
  · apply hother 0x0600FFFD
    intro i hi hcell
    exact absurd hcell (by revert i; decide)
  · exact hread ⟨_, rfl, rfl⟩ 0x06037FFF (by decide)

end Memory

end Handheld
