import Handheld.Memory
import Handheld.Proofs.Word.Field
import Handheld.Proofs.Word.HalfBits

/-!
# What a byte access does to the registers

Only the I/O window reaches the display, keypad and interrupt registers, and each of their bytes has
one address in it.  So the effect of a write on them is a function of the address and the byte.  A
read changes none of them.
-/

namespace Handheld

/-! ## 1. Addresses -/

namespace Word

theorem toNat_and_not_one (w : Word) : (w &&& ~~~1).toNat = 2 * (w.toNat / 2) := by
  have hmask : (~~~1 : Word).toNat = (2 ^ 31 - 1) * 2 ^ 1 := by decide
  have hlt := w.toNat_lt
  rw [toNat_and_mask hmask]
  omega

theorem eq_or_eq_of_and_not_one {w v : Word} (h : w &&& ~~~1 = v) : w = v ∨ w = v + 1 := by
  have hnat := congrArg UInt32.toNat h
  have hlt := w.toNat_lt
  rw [toNat_and_not_one] at hnat
  rw [← UInt32.toNat_inj, ← UInt32.toNat_inj, UInt32.toNat_add, UInt32.toNat_one]
  omega

theorem eq_of_and_not_one {w v : Word} (h : w &&& ~~~1 = v &&& ~~~1) (hbit : w.bit 0 = v.bit 0) :
    w = v := by
  have hnat := congrArg UInt32.toNat h
  rw [toNat_and_not_one, toNat_and_not_one] at hnat
  rw [bit_eq_decide (by decide), bit_eq_decide (by decide), decide_eq_decide] at hbit
  change w.toNat / 1 % 2 = 1 ↔ v.toNat / 1 % 2 = 1 at hbit
  rw [← UInt32.toNat_inj]
  omega

/-- An address in the I/O window is its offset with the top byte `04`. -/
theorem eq_of_window {a o : Word} (htop : a >>> 24 = 4) (ho : a &&& 0xFFFFFF = o) :
    a = 0x04000000 + o := by
  have hmask : (0xFFFFFF : Word).toNat = (2 ^ 24 - 1) * 2 ^ 0 := by decide
  have hhigh := congrArg UInt32.toNat htop
  have hlow := congrArg UInt32.toNat ho
  have hlt := a.toNat_lt
  rw [toNat_shiftRight (by decide)] at hhigh
  rw [toNat_and_mask hmask] at hlow
  change a.toNat / 2 ^ 24 = 4 at hhigh
  rw [← UInt32.toNat_inj, UInt32.toNat_add]
  change a.toNat = (67108864 + o.toNat) % 2 ^ 32
  omega

end Word

namespace Cell

theorem ofAddress?_of_window {a : Word} (h : a >>> 24 = 4) :
    ofAddress? a =
      if h : (a &&& 0xFFFFFF).toNat < 0x400 then some (.io ⟨(a &&& 0xFFFFFF).toNat, h⟩) else none := by
  unfold ofAddress?
  rw [h]
  rfl

theorem ofAddress?_ne_io {a : Word} (h : a >>> 24 ≠ 4) (i : Fin 0x400) :
    ofAddress? a ≠ some (.io i) := by
  unfold ofAddress?
  split
  case h_1 => split <;> simp
  case h_4 htop => exact absurd htop h
  case h_6 =>
    unfold ofVideo
    dsimp only
    split <;> simp
  all_goals simp

end Cell

/-! ## 2. The window -/

theorem IoSlot.ofOffset?_eq_none {o : Word} (h : 0x200 ≤ o) : ofOffset? o = none := by
  unfold ofOffset?
  -- Each register is at an even address below `200` and at the odd one after it.
  split
  case h_17 => rfl
  all_goals
    next hslot =>
      rcases Word.eq_or_eq_of_and_not_one hslot with rfl | rfl <;> exact absurd h (by decide)

theorem IoRegisters.write8_of_le {o : Word} (h : 0x200 ≤ o) (io : IoRegisters) (v : Byte) :
    io.write8 o v = io := by
  unfold write8
  rw [IoSlot.ofOffset?_eq_none h]

namespace InterruptController

theorem le_of_owns {o : Word} (h : owns o = true) : 0x200 ≤ o ∧ o ≤ 0x20B := by
  unfold owns at h
  rw [Bool.and_eq_true, decide_eq_true_iff, decide_eq_true_iff] at h
  exact h

theorem write8_of_not_owns {o : Word} (h : owns o = false) (ic : InterruptController) (v : Byte) :
    ic.write8 o v = ic := by
  unfold write8
  split
  case h_4 => rfl
  all_goals
    next hregister =>
      rcases Word.eq_or_eq_of_and_not_one hregister with rfl | rfl <;> exact absurd h (by decide)

end InterruptController

namespace Memory

variable (m : Memory) (a : Word) (v : Byte)

/-- Storing in a cell outside the window changes neither group of registers. -/
theorem registers_store {cell : Cell} (h : ∀ i, cell ≠ .io i) :
    (m.store cell v).io = m.io ∧ (m.store cell v).interrupts = m.interrupts := by
  cases cell with
  | io i => exact absurd rfl (h i)
  | bios _ | ewram _ | iwram _ | palette _ | vram _ | oam _ | rom _ | sram _ => exact ⟨rfl, rfl⟩

/-- Each group of registers may be asked at every offset: it ignores those of the other. -/
theorem registers_storeIo (o : Word) :
    (m.storeIo o v).io = m.io.write8 o v ∧
      (m.storeIo o v).interrupts = m.interrupts.write8 o v := by
  unfold storeIo
  by_cases h : InterruptController.owns o = true
  · rw [if_pos h, IoRegisters.write8_of_le (InterruptController.le_of_owns h).1]
    exact ⟨rfl, rfl⟩
  · rw [if_neg h, InterruptController.write8_of_not_owns (Bool.eq_false_iff.2 h)]
    exact ⟨rfl, rfl⟩

theorem registers_write8_of_window (h : a >>> 24 = 4) :
    (m.write8 a v).io = m.io.write8 (a &&& 0xFFFFFF) v ∧
      (m.write8 a v).interrupts = m.interrupts.write8 (a &&& 0xFFFFFF) v := by
  unfold write8
  rw [Cell.ofAddress?_of_window h]
  by_cases hlt : (a &&& 0xFFFFFF).toNat < 0x400
  · have hstore := registers_storeIo m v (UInt32.ofNat (a &&& 0xFFFFFF).toNat)
    rw [UInt32.ofNat_toNat] at hstore
    rw [dif_pos hlt]
    show (m.storeIo (UInt32.ofNat (a &&& 0xFFFFFF).toNat) v).io = _ ∧
      (m.storeIo (UInt32.ofNat (a &&& 0xFFFFFF).toNat) v).interrupts = _
    rw [UInt32.ofNat_toNat]
    exact hstore
  · -- Beyond its first kibibyte the window holds no register of either group.
    have hge : 0x400 ≤ a &&& 0xFFFFFF := UInt32.le_iff_toNat_le.2 (Nat.le_of_not_lt hlt)
    have howns : InterruptController.owns (a &&& 0xFFFFFF) = false := by
      apply Bool.eq_false_iff.2
      intro howns
      have hle := UInt32.le_trans hge (InterruptController.le_of_owns howns).2
      exact absurd hle (by decide)
    rw [dif_neg hlt, IoRegisters.write8_of_le (UInt32.le_trans (by decide) hge),
      InterruptController.write8_of_not_owns howns]
    exact ⟨rfl, rfl⟩

theorem registers_write8_of_not_window (h : a >>> 24 ≠ 4) :
    (m.write8 a v).io = m.io ∧ (m.write8 a v).interrupts = m.interrupts := by
  unfold write8
  cases hcell : Cell.ofAddress? a with
  | none => exact ⟨rfl, rfl⟩
  | some cell =>
    have hne : ∀ i, cell ≠ .io i := fun i hi => Cell.ofAddress?_ne_io h i (hi ▸ hcell)
    exact registers_store m v hne

theorem registers_read8 : (m.read8 a).2.io = m.io ∧ (m.read8 a).2.interrupts = m.interrupts := by
  unfold read8
  split <;> exact ⟨rfl, rfl⟩

end Memory

/-! ## 3. The interrupt registers -/

namespace InterruptController

theorem and_not_ofBytes_zero (h : Half) : h &&& ~~~Half.ofBytes 0 0 = h := by
  have hmask : (~~~Half.ofBytes 0 0 : Half) = -1 := by decide
  rw [hmask, UInt16.and_neg_one]

/-- The registers after the byte `v` was written at the address `a`. -/
def written (ic : InterruptController) (a : Word) (v : Byte) : InterruptController where
  enable := Half.ofBytes (if a = 0x04000200 then v else ic.enable.low)
    (if a = 0x04000201 then v else ic.enable.high)
  flags := ic.flags &&& ~~~Half.ofBytes (if a = 0x04000202 then v else 0)
    (if a = 0x04000203 then v else 0)
  master := Half.ofBytes (if a = 0x04000208 then v else ic.master.low)
    (if a = 0x04000209 then v else ic.master.high)

/-- The addresses at which there is a byte of a register. -/
def addresses : List Word :=
  [0x04000200, 0x04000201, 0x04000202, 0x04000203, 0x04000208, 0x04000209]

theorem written_of_not_mem {a : Word} (h : a ∉ addresses) (ic : InterruptController) (v : Byte) :
    ic.written a v = ic := by
  unfold addresses at h
  simp only [List.mem_cons, List.not_mem_nil, or_false, not_or] at h
  obtain ⟨h0, h1, h2, h3, h8, h9⟩ := h
  unfold written
  simp [h0, h1, h2, h3, h8, h9, Half.ofBytes_low_high, and_not_ofBytes_zero]

theorem write8_eq_written {a : Word} (htop : a >>> 24 = 4) (ic : InterruptController) (v : Byte) :
    ic.write8 (a &&& 0xFFFFFF) v = ic.written a v := by
  unfold write8
  -- A register is reached at its even and at its odd address.
  split
  case h_1 h =>
    rcases Word.eq_or_eq_of_and_not_one h with ho | ho <;> cases Word.eq_of_window htop ho
    · rw [Half.withByteAt_even (by decide)]
      simp [written, Half.ofBytes_low_high, and_not_ofBytes_zero]
    · rw [Half.withByteAt_odd (by decide)]
      simp [written, Half.ofBytes_low_high, and_not_ofBytes_zero]
  case h_2 h =>
    rcases Word.eq_or_eq_of_and_not_one h with ho | ho <;> cases Word.eq_of_window htop ho
    · rw [Half.withByteAt_even (by decide)]
      simp [written, Half.ofBytes_low_high, acknowledge]
      rfl
    · rw [Half.withByteAt_odd (by decide)]
      simp [written, Half.ofBytes_low_high, acknowledge]
      rfl
  case h_3 h =>
    rcases Word.eq_or_eq_of_and_not_one h with ho | ho <;> cases Word.eq_of_window htop ho
    · rw [Half.withByteAt_even (by decide)]
      simp [written, Half.ofBytes_low_high, and_not_ofBytes_zero]
    · rw [Half.withByteAt_odd (by decide)]
      simp [written, Half.ofBytes_low_high, and_not_ofBytes_zero]
  case h_4 henable hflags hmaster =>
    rw [written_of_not_mem]
    intro ha
    simp only [addresses, List.mem_cons, List.not_mem_nil, or_false] at ha
    rcases ha with rfl | rfl | rfl | rfl | rfl | rfl
    · exact henable rfl
    · exact henable rfl
    · exact hflags rfl
    · exact hflags rfl
    · exact hmaster rfl
    · exact hmaster rfl

end InterruptController

theorem Memory.interrupts_write8 (m : Memory) (a : Word) (v : Byte) :
    (m.write8 a v).interrupts = m.interrupts.written a v := by
  by_cases htop : a >>> 24 = 4
  · rw [(registers_write8_of_window m a v htop).2]
    exact InterruptController.write8_eq_written htop m.interrupts v
  · rw [(registers_write8_of_not_window m a v htop).2, InterruptController.written_of_not_mem]
    intro ha
    simp only [InterruptController.addresses, List.mem_cons, List.not_mem_nil, or_false] at ha
    rcases ha with rfl | rfl | rfl | rfl | rfl | rfl <;> exact htop (by decide)

namespace InterruptController

/-- The address of the byte of IF that holds bit `k`. -/
def flagAddress (k : Nat) : Word := if k < 8 then 0x04000202 else 0x04000203

/-- The byte `v` written at the address `a` acknowledges bit `k` of IF: it has a one there. -/
def Acknowledges (k : Nat) (a : Word) (v : Byte) : Prop :=
  a = flagAddress k ∧ v.toNat.testBit (k % 8) = true

instance (k : Nat) (a : Word) (v : Byte) : Decidable (Acknowledges k a v) := by
  unfold Acknowledges
  infer_instance

/-- A write clears the bits of IF that it acknowledges, and can do nothing else to IF. -/
theorem testBit_flags_written (ic : InterruptController) (a : Word) (v : Byte) {k : Nat}
    (hk : k < 16) :
    (ic.written a v).flags.toNat.testBit k = true ↔
      ic.flags.toNat.testBit k = true ∧ ¬ Acknowledges k a v := by
  unfold written Acknowledges flagAddress
  rw [UInt16.toNat_and, Nat.testBit_and, Half.testBit_not _ hk, Half.testBit_ofBytes]
  by_cases hlow : k < 8
  · rw [if_pos hlow, if_pos hlow, Nat.mod_eq_of_lt hlow]
    by_cases ha : a = 0x04000202 <;> simp [ha]
  · have hmod : k % 8 = k - 8 := by omega
    rw [if_neg hlow, if_neg hlow, hmod]
    by_cases ha : a = 0x04000203 <;> simp [ha]

end InterruptController

theorem Interrupt.testBit_mask (s : Interrupt) {k : Nat} (hk : k < 16) :
    s.mask.toNat.testBit k = true ↔ s.bit = k := by
  have hall : ∀ k < 16, s.mask.toNat.testBit k = true ↔ s.bit = k := by cases s <;> decide
  exact hall k hk

theorem Interrupt.bit_lt (s : Interrupt) : s.bit < 14 := by cases s <;> decide

theorem Memory.testBit_flags_request (m : Memory) (s : Interrupt) {k : Nat} (hk : k < 16) :
    ((m.request s).interrupts.flags.toNat.testBit k = true) ↔
      s.bit = k ∨ m.interrupts.flags.toNat.testBit k = true := by
  show (m.interrupts.flags ||| s.mask).toNat.testBit k = true ↔ _
  rw [UInt16.toNat_or, Nat.testBit_or, Bool.or_eq_true, Interrupt.testBit_mask s hk, or_comm]

/-- The line to the processor is high exactly if interrupts are on and one is selected and due. -/
theorem InterruptController.pending_iff (ic : InterruptController) :
    ic.pending = true ↔
      ic.master.toNat.testBit 0 = true ∧
        ∃ k < 16, ic.enable.toNat.testBit k = true ∧ ic.flags.toNat.testBit k = true := by
  unfold pending
  have hmaster : (ic.master &&& 1 != 0) = ic.master.toNat.testBit 0 :=
    Half.and_bne_zero ic.master rfl
  have hone : (ic.enable &&& ic.flags != 0) = true ↔ ic.enable &&& ic.flags ≠ 0 := bne_iff_ne
  rw [Bool.and_eq_true, hmaster, hone, Half.and_ne_zero_iff]

/-! ## 4. The display status, the line counter and the keys -/

namespace IoRegisters

/-- The address of the byte of the display status that holds bit `k`. -/
def statusAddress (k : Nat) : Word := if k < 8 then 0x04000004 else 0x04000005

theorem testBit_statusMask {k : Nat} (hk : k < 16) :
    statusMask.toNat.testBit k = decide (k < 3) := by
  have hall : ∀ k < 16, statusMask.toNat.testBit k = decide (k < 3) := by decide
  exact hall k hk

theorem dispstat_writeSlot {slot : IoSlot} (h : slot ≠ .displayStatus) (io : IoRegisters) (o : Word)
    (v : Byte) : (io.writeSlot slot o v).dispstat = io.dispstat := by
  cases slot with
  | displayStatus => exact absurd rfl h
  | displayControl | lineCounter | control _ | scrollX _ | scrollY _ | keys => rfl

theorem testBit_dispstat_writeSlot (io : IoRegisters) (o : Word) (v : Byte) {k : Nat}
    (hk : k < 16) :
    (io.writeSlot .displayStatus o v).dispstat.toNat.testBit k =
      if k < 3 then io.dispstat.toNat.testBit k else (io.dispstat.withByteAt o v).toNat.testBit k := by
  show ((io.dispstat.withByteAt o v &&& ~~~statusMask) |||
    (io.dispstat &&& statusMask)).toNat.testBit k = _
  rw [UInt16.toNat_or, Nat.testBit_or, UInt16.toNat_and, Nat.testBit_and, UInt16.toNat_and,
    Nat.testBit_and, Half.testBit_not _ hk, testBit_statusMask hk]
  by_cases h3 : k < 3 <;> simp [h3]

theorem eq_of_displayStatus {o : Word} (h : IoSlot.ofOffset? o = some .displayStatus) :
    o = 0x004 ∨ o = 0x005 := by
  unfold IoSlot.ofOffset? at h
  split at h
  case h_2 ho => exact Word.eq_or_eq_of_and_not_one ho
  all_goals simp at h

end IoRegisters

namespace Memory

variable (m : Memory) (a : Word) (v : Byte)

theorem dispstat_write8_of_ne (heven : a ≠ 0x04000004) (hodd : a ≠ 0x04000005) :
    (m.write8 a v).io.dispstat = m.io.dispstat := by
  by_cases htop : a >>> 24 = 4
  · rw [(registers_write8_of_window m a v htop).1]
    unfold IoRegisters.write8
    cases hslot : IoSlot.ofOffset? (a &&& 0xFFFFFF) with
    | none => rfl
    | some slot =>
      apply IoRegisters.dispstat_writeSlot
      rintro rfl
      rcases IoRegisters.eq_of_displayStatus hslot with ho | ho
      · exact heven (Word.eq_of_window htop ho)
      · exact hodd (Word.eq_of_window htop ho)
  · rw [(registers_write8_of_not_window m a v htop).1]

/-- A program writes the bits of the display status from the third on. -/
theorem testBit_dispstat_write8 {k : Nat} (hk : k < 16) :
    (m.write8 a v).io.dispstat.toNat.testBit k =
      if 3 ≤ k ∧ a = IoRegisters.statusAddress k then v.toNat.testBit (k % 8)
      else m.io.dispstat.toNat.testBit k := by
  -- The address is that of the low byte, that of the high byte, or neither.
  by_cases heven : a = 0x04000004
  · subst heven
    rw [(registers_write8_of_window m _ v (by decide)).1]
    refine (IoRegisters.testBit_dispstat_writeSlot m.io _ v hk).trans ?_
    rw [Half.withByteAt_even (by decide), Half.testBit_ofBytes]
    unfold IoRegisters.statusAddress
    by_cases hlow : k < 8
    · by_cases h3 : k < 3
      · simp [h3, Nat.not_le.2 h3]
      · simp [h3, hlow, Nat.le_of_not_lt h3, Nat.mod_eq_of_lt hlow]
    · simp [hlow, Half.testBit_high _ (Nat.le_of_not_lt hlow)]
  · by_cases hodd : a = 0x04000005
    · subst hodd
      rw [(registers_write8_of_window m _ v (by decide)).1]
      refine (IoRegisters.testBit_dispstat_writeSlot m.io _ v hk).trans ?_
      rw [Half.withByteAt_odd (by decide), Half.testBit_ofBytes]
      unfold IoRegisters.statusAddress
      by_cases hlow : k < 8
      · simp [hlow, Half.testBit_low _ hlow]
      · have hmod : k % 8 = k - 8 := by omega
        have h3 : ¬ k < 3 := by omega
        simp [h3, hlow, hmod, Nat.le_of_not_lt h3]
    · have hne : a ≠ IoRegisters.statusAddress k := by
        unfold IoRegisters.statusAddress
        split <;> assumption
      rw [dispstat_write8_of_ne m a v heven hodd, if_neg fun h => hne h.2]

theorem vcount_keyinput_write8 :
    (m.write8 a v).io.vcount = m.io.vcount ∧ (m.write8 a v).io.keyinput = m.io.keyinput := by
  by_cases htop : a >>> 24 = 4
  · rw [(registers_write8_of_window m a v htop).1]
    unfold IoRegisters.write8
    split
    next slot _ => cases slot <;> exact ⟨rfl, rfl⟩
    next => exact ⟨rfl, rfl⟩
  · rw [(registers_write8_of_not_window m a v htop).1]
    exact ⟨rfl, rfl⟩

/-! ## 5. A new memory -/

theorem registers_ofImage {image : ByteArray} {m : Memory} (h : ofImage image = .ok m) :
    m.io = IoRegisters.initial ∧ m.interrupts = InterruptController.initial := by
  unfold ofImage at h
  cases hrom : Rom.ofImage image with
  | error e =>
    rw [hrom] at h
    cases h
  | ok rom =>
    rw [hrom] at h
    cases h
    exact ⟨rfl, rfl⟩

theorem registers_loadBios {image : ByteArray} {m m' : Memory}
    (h : m.loadBios image = .ok m') : m'.io = m.io ∧ m'.interrupts = m.interrupts := by
  unfold loadBios at h
  split at h
  · cases h
    exact ⟨rfl, rfl⟩
  · cases h

end Memory

end Handheld
