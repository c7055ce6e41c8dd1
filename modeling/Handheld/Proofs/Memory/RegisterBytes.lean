import Handheld.Proofs.Memory.Registers

/-!
# The bytes of the registers

Each register of the I/O window has two bytes, and each byte has a rule that says what a write makes
of it.  So a write in the window changes at most one byte, by its rule.
-/

namespace Handheld

/-! ## 1. Rules -/

/-- What becomes of a byte when one is written over it. -/
inductive ByteRule where
  /-- It is what was written. -/
  | stores
  /-- It is bit 0 of what was written. -/
  | lowBit
  /-- It is what was written, but its own three low bits stay. -/
  | keepsStatus
  /-- The bits that were written as ones are cleared. -/
  | clears
  /-- It stays. -/
  | fixed
deriving DecidableEq, Repr

def ByteRule.after : ByteRule → Byte → Byte → Byte
  | stores, _, v => v
  | lowBit, _, v => v &&& 1
  | keepsStatus, old, v => (v &&& ~~~7) ||| (old &&& 7)
  | clears, old, v => old &&& ~~~v
  | fixed, old, _ => old

/-- The rule of the byte at an I/O offset, if there is one. -/
def ByteRule.ofOffset? (o : Nat) : Option ByteRule :=
  if o < 0x02 then some stores -- DISPCNT
  else if o < 0x04 then none
  else if o = 0x04 then some keepsStatus -- DISPSTAT
  else if o = 0x05 then some stores
  else if o < 0x08 then some fixed -- VCOUNT
  else if o < 0x10 then some stores -- BG0CNT to BG3CNT
  else if o < 0x20 then some (if o % 2 = 0 then stores else lowBit) -- BG0HOFS to BG3VOFS
  else if o = 0x130 ∨ o = 0x131 then some fixed -- KEYINPUT
  else if o = 0x200 ∨ o = 0x201 then some stores -- IE
  else if o = 0x202 ∨ o = 0x203 then some clears -- IF
  else if o = 0x208 ∨ o = 0x209 then some stores -- IME
  else none

/-! ## 2. Registers -/

theorem toNat_ofNat_ioOffset (o : Fin 0x400) : (UInt32.ofNat o).toNat = o.val :=
  UInt32.toNat_ofNat_of_lt' (Nat.lt_trans o.isLt (by decide))

theorem ofNat_ioOffset_inj {o o' : Fin 0x400} (h : UInt32.ofNat o' = UInt32.ofNat o) : o' = o := by
  have hnat := congrArg UInt32.toNat h
  rw [toNat_ofNat_ioOffset, toNat_ofNat_ioOffset] at hnat
  exact Fin.ext hnat

/-- A register of the I/O window. -/
inductive Register where
  | display (slot : IoSlot)
  | enable
  | flags
  | master
deriving DecidableEq, Repr

namespace Register

/-- The register at an I/O offset, if there is one. -/
def ofOffset? (o : Word) : Option Register :=
  match o &&& ~~~1 with
  | 0x200 => some enable
  | 0x202 => some flags
  | 0x208 => some master
  | _ => (IoSlot.ofOffset? o).map display

/-- The offset of the low byte of a register. -/
def offset : Register → Word
  | display .displayControl => 0x000
  | display .displayStatus => 0x004
  | display .lineCounter => 0x006
  | display (.control n) => 0x008 + 2 * UInt32.ofNat n
  | display (.scrollX n) => 0x010 + 4 * UInt32.ofNat n
  | display (.scrollY n) => 0x012 + 4 * UInt32.ofNat n
  | display .keys => 0x130
  | enable => 0x200
  | flags => 0x202
  | master => 0x208

/-- The rule of the byte that stands at `o`. -/
def rule (r : Register) (o : Word) : ByteRule :=
  match r with
  | display .displayStatus => if o.bit 0 then .stores else .keepsStatus
  | display (.scrollX _) | display (.scrollY _) => if o.bit 0 then .lowBit else .stores
  | display .lineCounter | display .keys => .fixed
  | display .displayControl | display (.control _) | enable | master => .stores
  | flags => .clears

def all : List Register :=
  [display .displayControl, display .displayStatus, display .lineCounter, display .keys, enable,
    flags, master] ++
    (List.finRange 4).flatMap fun n =>
      [display (.control n), display (.scrollX n), display (.scrollY n)]

theorem mem_all (r : Register) : r ∈ all := by
  cases r with
  | enable | flags | master => decide
  | display slot =>
    cases slot with
    | displayControl | displayStatus | lineCounter | keys => decide
    | control n | scrollX n | scrollY n =>
      revert n
      decide

theorem ofOffset?_display {o : Word} {slot : IoSlot} :
    ofOffset? o = some (display slot) ↔ IoSlot.ofOffset? o = some slot := by
  unfold ofOffset?
  split
  case h_4 => simp
  all_goals
    next ho =>
      have hle : 0x200 ≤ o := by
        rcases Word.eq_or_eq_of_and_not_one ho with rfl | rfl <;> decide
      simp [IoSlot.ofOffset?_eq_none hle]

theorem offset_of_ofOffset? {o : Word} {r : Register} (h : ofOffset? o = some r) :
    o &&& ~~~1 = r.offset := by
  unfold ofOffset? at h
  split at h
  case h_4 =>
    obtain ⟨slot, hslot, rfl⟩ := Option.map_eq_some_iff.1 h
    unfold IoSlot.ofOffset? at hslot
    split at hslot
    case h_17 => cases hslot
    all_goals
      next ho =>
        cases hslot
        exact ho
  all_goals
    next ho =>
      cases h
      exact ho

/-- A register is at the offset of its low byte and at the next one. -/
theorem ofOffset?_eq_some_iff {o : Word} {r : Register} :
    ofOffset? o = some r ↔ o &&& ~~~1 = r.offset := by
  refine ⟨offset_of_ofOffset?, fun h => ?_⟩
  cases r with
  | enable | flags | master =>
    unfold ofOffset?
    rw [h]
    rfl
  | display slot =>
    rw [ofOffset?_display]
    unfold IoSlot.ofOffset?
    rw [h]
    -- Each background is a case of its own.
    clear h
    cases slot with
    | displayControl | displayStatus | lineCounter | keys => rfl
    | control n | scrollX n | scrollY n =>
      revert n
      decide

/-- The low byte of a register is at an even offset of the window. -/
theorem offset_spec (r : Register) :
    r.offset.toNat < 0x400 ∧ (r.offset + 1).toNat < 0x400 ∧ r.offset &&& ~~~1 = r.offset ∧
      (r.offset + 1) &&& ~~~1 = r.offset ∧ r.offset.bit 0 = false ∧
      (r.offset + 1).bit 0 = true := by
  have hall : ∀ r ∈ all,
      r.offset.toNat < 0x400 ∧ (r.offset + 1).toNat < 0x400 ∧ r.offset &&& ~~~1 = r.offset ∧
        (r.offset + 1) &&& ~~~1 = r.offset ∧ r.offset.bit 0 = false ∧
        (r.offset + 1).bit 0 = true := by decide
  exact hall r r.mem_all

/-- A byte of a register is found by the register and its place in it. -/
theorem eq_of_ofOffset? {o o' : Word} {r : Register} (h : ofOffset? o = some r)
    (h' : ofOffset? o' = some r) (hbit : o'.bit 0 = o.bit 0) : o' = o :=
  Word.eq_of_and_not_one ((offset_of_ofOffset? h').trans (offset_of_ofOffset? h).symm) hbit

end Register

namespace ByteRule

/-- The offsets of the keys and of the interrupt registers, far from the display registers. -/
def farOffsets : List Nat := [0x130, 0x131, 0x200, 0x201, 0x202, 0x203, 0x208, 0x209]

theorem ofOffset?_of_far {o : Nat} (hlow : 0x20 ≤ o) (hfar : o ∉ farOffsets) :
    ofOffset? o = none := by
  simp only [farOffsets, List.mem_cons, List.not_mem_nil, or_false, not_or] at hfar
  unfold ofOffset?
  simp only [hfar, or_self, if_false]
  rw [if_neg (by omega), if_neg (by omega), if_neg (by omega), if_neg (by omega), if_neg (by omega),
    if_neg (by omega), if_neg (by omega)]

theorem register_of_far {o : Word} (hlow : 0x20 ≤ o.toNat) (hfar : o.toNat ∉ farOffsets) :
    Register.ofOffset? o = none := by
  cases hr : Register.ofOffset? o with
  | none => rfl
  | some r =>
    -- Both bytes of a register are near, or both are far.
    have hall : ∀ r ∈ Register.all,
        (r.offset.toNat < 0x20 ∨ r.offset.toNat ∈ farOffsets) ∧
          ((r.offset + 1).toNat < 0x20 ∨ (r.offset + 1).toNat ∈ farOffsets) := by decide
    obtain ⟨heven, hodd⟩ := hall r r.mem_all
    have hnot {n : Nat} (hn : 0x20 ≤ n) (hn' : n ∉ farOffsets) : ¬ (n < 0x20 ∨ n ∈ farOffsets) :=
      not_or.2 ⟨Nat.not_lt.2 hn, hn'⟩
    rcases Word.eq_or_eq_of_and_not_one (Register.offset_of_ofOffset? hr) with rfl | rfl
    · exact absurd heven (hnot hlow hfar)
    · exact absurd hodd (hnot hlow hfar)

/-- The rules of the registers, offset by offset. -/
theorem ofOffset?_eq (o : Fin 0x400) :
    ofOffset? o.val =
      (Register.ofOffset? (UInt32.ofNat o)).map fun r => r.rule (UInt32.ofNat o) := by
  have hlow : ∀ i < 0x20, ofOffset? i =
      (Register.ofOffset? (UInt32.ofNat i)).map fun r => r.rule (UInt32.ofNat i) := by decide
  have hfar : ∀ i ∈ farOffsets, ofOffset? i =
      (Register.ofOffset? (UInt32.ofNat i)).map fun r => r.rule (UInt32.ofNat i) := by decide
  by_cases h : o.val < 0x20
  · exact hlow o h
  · by_cases h' : o.val ∈ farOffsets
    · exact hfar o h'
    · have hregister : Register.ofOffset? (UInt32.ofNat o) = none := by
        apply register_of_far <;> rw [toNat_ofNat_ioOffset]
        · exact Nat.le_of_not_lt h
        · exact h'
      rw [ofOffset?_of_far (Nat.le_of_not_lt h) h', hregister]
      rfl

end ByteRule

/-! ## 3. Reads and writes -/

namespace IoRegisters

variable (io : IoRegisters) (o : Word) (v : Byte)

theorem value_writeSlot_of_ne {slot slot' : IoSlot} (h : slot' ≠ slot) :
    (io.writeSlot slot o v).value slot' = io.value slot' := by
  have hne {n n' : Background} {f : Background → IoSlot} (h : f n' ≠ f n) : n.val ≠ n'.val :=
    fun e => h (congrArg f (Fin.ext e).symm)
  cases slot with
  | lineCounter | keys => rfl
  | displayControl | displayStatus => cases slot' <;> first | rfl | exact absurd rfl h
  | control n =>
    cases slot' with
    | control n' => exact Vector.getElem_set_ne n.isLt n'.isLt (hne h)
    | _ => rfl
  | scrollX n =>
    cases slot' with
    | scrollX n' =>
      exact congrArg (· &&& scrollMask) (Vector.getElem_set_ne n.isLt n'.isLt (hne h))
    | _ => rfl
  | scrollY n =>
    cases slot' with
    | scrollY n' =>
      exact congrArg (· &&& scrollMask) (Vector.getElem_set_ne n.isLt n'.isLt (hne h))
    | _ => rfl

theorem byteAt_statusMask (o : Word) : statusMask.byteAt o = if o.bit 0 then 0 else 7 := by
  unfold Half.byteAt
  cases o.bit 0 <;> decide

theorem byteAt_scrollMask (o : Word) : scrollMask.byteAt o = if o.bit 0 then 1 else ~~~0 := by
  unfold Half.byteAt
  cases o.bit 0 <;> decide

theorem byteAt_withStatus (h : Half) (o' : Word) :
    ((h.withByteAt o v &&& ~~~statusMask) ||| (h &&& statusMask)).byteAt o' =
      if o'.bit 0 = o.bit 0 then
        ((Register.display .displayStatus).rule o).after (h.byteAt o) v
      else h.byteAt o' := by
  rw [Half.byteAt_or, Half.byteAt_and, Half.byteAt_and, Half.byteAt_not, Half.byteAt_withByteAt]
  split
  next hbit =>
    rw [Half.byteAt_congr hbit, Half.byteAt_congr hbit, byteAt_statusMask]
    unfold Register.rule
    cases o.bit 0 <;> simp [ByteRule.after]
  -- The other byte is what the mask keeps of it and what it takes away.
  next => exact Half.and_not_or_and _ _

theorem byteAt_withScroll (h : Half) (n : Background) (o' : Word) :
    (h.withByteAt o v &&& scrollMask).byteAt o' =
      if o'.bit 0 = o.bit 0 then
        ((Register.display (.scrollX n)).rule o).after ((h &&& scrollMask).byteAt o) v
      else (h &&& scrollMask).byteAt o' := by
  rw [Half.byteAt_and, Half.byteAt_withByteAt, Half.byteAt_and h scrollMask o']
  split
  next hbit =>
    rw [Half.byteAt_congr hbit, byteAt_scrollMask]
    unfold Register.rule
    cases o.bit 0 <;> simp [ByteRule.after]
  next => rfl

theorem byteAt_value_writeSlot_self (slot : IoSlot) (o' : Word) :
    ((io.writeSlot slot o v).value slot).byteAt o' =
      if o'.bit 0 = o.bit 0 then
        ((Register.display slot).rule o).after ((io.value slot).byteAt o) v
      else (io.value slot).byteAt o' := by
  -- A register that is an entry of a vector is written there.
  have hset (xs : Vector Half 4) (n : Background) (x : Half) : (xs.set n.val x n.isLt)[n] = x :=
    Vector.getElem_set_self n.isLt
  cases slot with
  | displayControl => exact Half.byteAt_withByteAt io.dispcnt o o' v
  | displayStatus => exact byteAt_withStatus o v io.dispstat o'
  | lineCounter | keys =>
    split
    next hbit => exact Half.byteAt_congr hbit _
    next => rfl
  | control n =>
    show ((io.bgcnt.set n.val (io.bgcnt[n].withByteAt o v) n.isLt)[n]).byteAt o' = _
    rw [hset]
    exact Half.byteAt_withByteAt io.bgcnt[n] o o' v
  | scrollX n =>
    show ((io.bghofs.set n.val (io.bghofs[n].withByteAt o v) n.isLt)[n] &&& scrollMask).byteAt o' = _
    rw [hset]
    exact byteAt_withScroll o v io.bghofs[n] n o'
  | scrollY n =>
    show ((io.bgvofs.set n.val (io.bgvofs[n].withByteAt o v) n.isLt)[n] &&& scrollMask).byteAt o' = _
    rw [hset]
    exact byteAt_withScroll o v io.bgvofs[n] n o'

end IoRegisters

namespace Memory

variable (m : Memory) (o : Word) (v : Byte)

/-- What a register shows. -/
def register (m : Memory) : Register → Half
  | .display slot => m.io.value slot
  | .enable => m.interrupts.enable
  | .flags => m.interrupts.flags
  | .master => m.interrupts.master

theorem lookupIo_eq :
    m.lookupIo o = (Register.ofOffset? o).map fun r => (m.register r).byteAt o := by
  unfold lookupIo
  by_cases howns : InterruptController.owns o = true
  · -- The controller has its offsets to itself.
    have hslot := IoSlot.ofOffset?_eq_none (InterruptController.le_of_owns howns).1
    rw [if_pos howns]
    cases hr : Register.ofOffset? o with
    | some r =>
      unfold InterruptController.read8
      rw [Register.offset_of_ofOffset? hr]
      cases r with
      | display slot =>
        rw [Register.ofOffset?_display.1 hr] at hslot
        cases hslot
      | enable | flags | master => rfl
    | none =>
      have hne (r : Register) : o &&& ~~~1 ≠ r.offset := by
        rw [Ne, ← Register.ofOffset?_eq_some_iff, hr]
        exact nofun
      unfold InterruptController.read8
      split
      case h_1 ho => exact absurd ho (hne .enable)
      case h_2 ho => exact absurd ho (hne .flags)
      case h_3 ho => exact absurd ho (hne .master)
      case h_4 => rfl
  · -- Elsewhere none of its registers is reached.
    rw [if_neg howns]
    unfold Register.ofOffset?
    split
    case h_4 =>
      rw [Option.map_map]
      rfl
    all_goals
      next ho =>
        rcases Word.eq_or_eq_of_and_not_one ho with rfl | rfl <;> exact absurd (by decide) howns

/-- A write in the window changes no register but the one that is there. -/
theorem register_storeIo_of_ne {r : Register} (h : Register.ofOffset? o ≠ some r) :
    (m.storeIo o v).register r = m.register r := by
  obtain ⟨hio, hinterrupts⟩ := registers_storeIo m v o
  cases r with
  | display slot =>
    rw [Ne, Register.ofOffset?_display] at h
    show (m.storeIo o v).io.value slot = m.io.value slot
    rw [hio]
    unfold IoRegisters.write8
    split
    next t ht => exact m.io.value_writeSlot_of_ne o v fun e => h (ht.trans (congrArg some e.symm))
    next => rfl
  | enable =>
    rw [Ne, Register.ofOffset?_eq_some_iff] at h
    show (m.storeIo o v).interrupts.enable = m.interrupts.enable
    rw [hinterrupts]
    unfold InterruptController.write8
    split
    case h_1 ho => exact absurd ho h
    all_goals rfl
  | flags =>
    rw [Ne, Register.ofOffset?_eq_some_iff] at h
    show (m.storeIo o v).interrupts.flags = m.interrupts.flags
    rw [hinterrupts]
    unfold InterruptController.write8
    split
    case h_2 ho => exact absurd ho h
    all_goals rfl
  | master =>
    rw [Ne, Register.ofOffset?_eq_some_iff] at h
    show (m.storeIo o v).interrupts.master = m.interrupts.master
    rw [hinterrupts]
    unfold InterruptController.write8
    split
    case h_3 ho => exact absurd ho h
    all_goals rfl

/-- In the register that is there a write changes the byte that is there, by its rule. -/
theorem byteAt_register_storeIo {r : Register} (h : Register.ofOffset? o = some r) (o' : Word) :
    ((m.storeIo o v).register r).byteAt o' =
      if o'.bit 0 = o.bit 0 then (r.rule o).after ((m.register r).byteAt o) v
      else (m.register r).byteAt o' := by
  obtain ⟨hio, hinterrupts⟩ := registers_storeIo m v o
  cases r with
  | display slot =>
    show ((m.storeIo o v).io.value slot).byteAt o' = _
    rw [hio]
    unfold IoRegisters.write8
    rw [Register.ofOffset?_display.1 h]
    exact m.io.byteAt_value_writeSlot_self o v slot o'
  | enable =>
    show Half.byteAt ((m.storeIo o v).interrupts.enable) o' = _
    rw [hinterrupts]
    unfold InterruptController.write8
    rw [Register.ofOffset?_eq_some_iff.1 h]
    exact Half.byteAt_withByteAt m.interrupts.enable o o' v
  | flags =>
    show Half.byteAt ((m.storeIo o v).interrupts.flags) o' = _
    rw [hinterrupts]
    unfold InterruptController.write8
    rw [Register.ofOffset?_eq_some_iff.1 h]
    show (m.interrupts.flags &&& ~~~Half.withByteAt 0 o v).byteAt o' = _
    rw [Half.byteAt_and, Half.byteAt_not, Half.byteAt_withByteAt]
    split
    next hbit =>
      rw [Half.byteAt_congr hbit]
      rfl
    next =>
      -- No bit of the other byte is written as a one.
      have hzero : Half.byteAt 0 o' = 0 := by
        unfold Half.byteAt
        cases o'.bit 0 <;> decide
      have hmask : (~~~0 : Byte) = -1 := by decide
      rw [hzero, hmask, UInt8.and_neg_one]
      rfl
  | master =>
    show Half.byteAt ((m.storeIo o v).interrupts.master) o' = _
    rw [hinterrupts]
    unfold InterruptController.write8
    rw [Register.ofOffset?_eq_some_iff.1 h]
    exact Half.byteAt_withByteAt m.interrupts.master o o' v

end Memory

end Handheld
