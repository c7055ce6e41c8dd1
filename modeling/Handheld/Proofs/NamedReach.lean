import Handheld.Proofs.MemoryFrame

/-!
# Reach by the bits of an opcode

What a memory instruction may change and which bytes it reads and writes stands in its opcode: the
registers, the direction, the width, the list and the address.  This file reads all of them off the
bits, without the decoder, and proves that this is what is reached.
-/

namespace Handheld

/-! ## 1. The 32-bit instructions -/

namespace Arm

section Fields

variable (c : Cpu) (address w : Word)

/-- The offset of a word or byte: the low twelve bits, or the register in the low four shifted by
the constant in bits 11-7. -/
def singleOffset : Word :=
  if w.bit 25 then
    (Shifter.byImmediate (ShiftKind.ofBits (w >>> 5)) (c.operand (w.reg 0) (address + 8))
      (w.field 7 5) (c.flag Psr.carry)).value
  else w.field 0 12

/-- The offset of the other transfers: the two nibbles of a byte, or a register. -/
def extraOffset : Word :=
  if w.bit 22 then 16 * w.field 8 4 + w.field 0 4 else c.operand (w.reg 0) (address + 8)

/-- The address of the access: the base in bits 19-16, and with bit 24 the offset added to it or,
with bit 23 clear, subtracted. -/
def accessed (offset : Word) : Word :=
  let base := c.operand (w.reg 16) (address + 8)
  if w.bit 24 then if w.bit 23 then base + offset else base - offset else base

/-- The base is moved with bit 24 clear or bit 21 set. -/
def baseMoved : List Reg := if w.bit 24 && !w.bit 21 then [] else [w.reg 16]

/-- The bits of the opcode name this reach: bit 20 tells loads from stores, bit 22 bytes from words,
and bits 6-5 the other movements. -/
inductive Reaches : Reach → Prop where
  | loadSingle (h : IsSingle w) (h20 : w.bit 20 = true) :
    Reaches ⟨baseMoved w ++ [w.reg 12], (if w.bit 22 then Width.byte else .word).places .read
      (accessed c address w (singleOffset c address w))⟩
  | storeSingle (h : IsSingle w) (h20 : w.bit 20 = false) :
    Reaches ⟨baseMoved w, (if w.bit 22 then Width.byte else .word).places .write
      (accessed c address w (singleOffset c address w))⟩
  | loadHalf (h : IsExtra w) (h20 : w.bit 20 = true) (h5 : w.field 5 2 = 1) :
    Reaches ⟨baseMoved w ++ [w.reg 12], Width.half.places .read
      (accessed c address w (extraOffset c address w))⟩
  | loadSignedByte (h : IsExtra w) (h20 : w.bit 20 = true) (h5 : w.field 5 2 = 2) :
    Reaches ⟨baseMoved w ++ [w.reg 12], Width.byte.places .read
      (accessed c address w (extraOffset c address w))⟩
  | loadSignedHalf (h : IsExtra w) (h20 : w.bit 20 = true) (h5 : w.field 5 2 = 3) :
    Reaches ⟨baseMoved w ++ [w.reg 12], Width.half.places .read
      (accessed c address w (extraOffset c address w))⟩
  | storeHalf (h : IsExtra w) (h20 : w.bit 20 = false) (h5 : w.field 5 2 = 1) :
    Reaches ⟨baseMoved w, Width.half.places .write
      (accessed c address w (extraOffset c address w))⟩
  | loadPair (h : IsExtra w) (h20 : w.bit 20 = false) (h5 : w.field 5 2 = 2) :
    Reaches ⟨baseMoved w ++ [(w.reg 12).even, (w.reg 12).odd], Place.words .read
      (accessed c address w (extraOffset c address w)) 2⟩
  | storePair (h : IsExtra w) (h20 : w.bit 20 = false) (h5 : w.field 5 2 = 3) :
    Reaches ⟨baseMoved w, Place.words .write (accessed c address w (extraOffset c address w)) 2⟩
  | swapWord (h : w &&& 0x0FF00FF0 = 0x01000090) :
    Reaches ⟨[w.reg 12],
      Width.word.places .read (c.reg (w.reg 16)) ++ Width.word.places .write (c.reg (w.reg 16))⟩
  | swapByte (h : w &&& 0x0FF00FF0 = 0x01400090) :
    Reaches ⟨[w.reg 12],
      Width.byte.places .read (c.reg (w.reg 16)) ++ Width.byte.places .write (c.reg (w.reg 16))⟩
  | push (h : w &&& 0x0FFF0000 = 0x092D0000) :
    Reaches ⟨[.sp], Place.words .write (c.reg .sp - UInt32.ofNat (4 * w.regList.length))
      w.regList.length⟩
  | pop (h : w &&& 0x0FFF0000 = 0x08BD0000) :
    Reaches ⟨.sp :: w.regList, Place.words .read (c.reg .sp) w.regList.length⟩

end Fields

variable {c : Cpu} {address w : Word}

/-- A transfer with the addressing bits of the opcode. -/
theorem reach?_transfer {t : Transfer} (hbase : t.base = w.reg 16) (hup : t.up = w.bit 23)
    (hpre : t.pre = w.bit 24) (hback : t.writeBack = (!w.bit 24 || w.bit 21)) :
    (Instruction.transfer t).reach? c address =
      some ⟨baseMoved w ++ t.loaded,
        t.places (accessed c address w (t.offset.value c (address + 8)))⟩ := by
  have hwritten : t.written = baseMoved w ++ t.loaded := by
    unfold Transfer.written baseMoved
    rw [hback, hbase]
    cases w.bit 24 <;> cases w.bit 21 <;> rfl
  have htarget : t.target c address =
      accessed c address w (t.offset.value c (address + 8)) := by
    unfold Transfer.target Transfer.moved accessed
    rw [hpre, hup, hbase]
  show some (Reach.mk t.written (t.places (t.target c address))) = _
  rw [hwritten, htarget]

theorem value_singleOffset (c : Cpu) (address w : Word) :
    (if w.bit 25 then .shifted (w.reg 0) (shiftKind w) (shiftAmount w)
      else .constant (w &&& 0xFFF) : Offset).value c (address + 8) =
      singleOffset c address w := by
  have hfield : w.field 0 12 = w &&& 0xFFF := by
    show (w >>> 0) &&& 0xFFF = _
    rw [UInt32.shiftRight_zero]
  unfold singleOffset
  rw [hfield]
  cases w.bit 25 <;> rfl

/-- Two nibbles make up a byte. -/
theorem nibbles_eq (w : Word) :
    (w.field 8 4 <<< 4) ||| w.field 0 4 = 16 * w.field 8 4 + w.field 0 4 := by
  have hhigh : w.field 8 4 < 16 := Word.field_lt (by decide) (by decide) rfl w
  have hlow : w.field 0 4 < 16 := Word.field_lt (by decide) (by decide) rfl w
  rw [UInt32.lt_iff_toNat_lt] at hhigh hlow
  change _ < 16 at hhigh hlow
  have hfit : 2 ^ 4 * (w.field 8 4).toNat < 2 ^ 32 := by omega
  apply UInt32.toNat_inj.1
  rw [UInt32.toNat_or, UInt32.toNat_shiftLeft, UInt32.toNat_add, UInt32.toNat_mul]
  show (w.field 8 4).toNat <<< 4 % 2 ^ 32 ||| _ =
    (16 * (w.field 8 4).toNat % 2 ^ 32 + (w.field 0 4).toNat) % 2 ^ 32
  rw [Nat.shiftLeft_eq, Nat.mul_comm, Nat.mod_eq_of_lt hfit, ← Nat.two_pow_add_eq_or_of_lt hlow]
  omega

theorem value_extraOffset (c : Cpu) (address w : Word) :
    (if w.bit 22 then .constant ((w.field 8 4 <<< 4) ||| w.field 0 4)
      else .shifted (w.reg 0) .lsl 0 : Offset).value c (address + 8) =
      extraOffset c address w := by
  unfold extraOffset
  rw [nibbles_eq]
  cases w.bit 22 <;> rfl

/-- What the bits name is what the decoded instruction reaches. -/
theorem Reaches.reach?_eq {x : Reach} (h : Reaches c address w x) :
    (decode w).reach? c address = some x := by
  -- A store loads nothing beside the base.
  have hnothing (places : List Place) :
      some (Reach.mk (baseMoved w ++ []) places) = some ⟨baseMoved w, places⟩ := by
    rw [List.append_nil]
  cases h with
  | loadSingle h h20 =>
    rw [decode_of_isSingle h]
    unfold decodeSingle decodeTransfer
    rw [reach?_transfer rfl rfl rfl rfl, value_singleOffset, h20]
    cases w.bit 22 <;> rfl
  | storeSingle h h20 =>
    rw [decode_of_isSingle h]
    unfold decodeSingle decodeTransfer
    rw [reach?_transfer rfl rfl rfl rfl, value_singleOffset, h20]
    cases w.bit 22 <;> exact hnothing _
  | loadHalf h h20 h5 | loadSignedByte h h20 h5 | loadSignedHalf h h20 h5 | loadPair h h20 h5 =>
    rw [decode_of_isExtra h]
    unfold decodeExtra extraMovement decodeTransfer
    rw [reach?_transfer rfl rfl rfl rfl, value_extraOffset, h20, h5]
    rfl
  | storeHalf h h20 h5 | storePair h h20 h5 =>
    rw [decode_of_isExtra h]
    unfold decodeExtra extraMovement decodeTransfer
    rw [reach?_transfer rfl rfl rfl rfl, value_extraOffset, h20, h5]
    exact hnothing _
  | swapWord h | swapByte h =>
    rw [decode_eq_swap (Word.and_eq_of_and_eq h rfl), Word.bit_eq_of_and_eq h (by decide)]
    rfl
  | push h =>
    rw [decode_push h]
    rfl
  | pop h =>
    rw [decode_pop h]
    rfl

/-- The bits of every memory opcode name a reach. -/
theorem exists_reaches (h : IsMove w) (c : Cpu) (address : Word) : ∃ x, Reaches c address w x := by
  rcases h with (h | h) | h | h | h
  · cases h20 : w.bit 20 with
    | true => exact ⟨_, .loadSingle h h20⟩
    | false => exact ⟨_, .storeSingle h h20⟩
  · have hkind : w.field 5 2 = 1 ∨ w.field 5 2 = 2 ∨ w.field 5 2 = 3 := by
      have hlt : w.field 5 2 < 4 := Word.field_lt (by decide) (by decide) rfl w
      have hne := h.2.2.2
      rw [← UInt32.toNat_inj, ← UInt32.toNat_inj, ← UInt32.toNat_inj]
      rw [UInt32.lt_iff_toNat_lt] at hlt
      rw [ne_eq, ← UInt32.toNat_inj] at hne
      change _ < 4 at hlt
      change ¬ _ = 0 at hne
      show _ = 1 ∨ _ = 2 ∨ _ = 3
      omega
    cases h20 : w.bit 20 with
    | true =>
      rcases hkind with h5 | h5 | h5
      · exact ⟨_, .loadHalf h h20 h5⟩
      · exact ⟨_, .loadSignedByte h h20 h5⟩
      · exact ⟨_, .loadSignedHalf h h20 h5⟩
    | false =>
      rcases hkind with h5 | h5 | h5
      · exact ⟨_, .storeHalf h h20 h5⟩
      · exact ⟨_, .loadPair h h20 h5⟩
      · exact ⟨_, .storePair h h20 h5⟩
  · -- Bit 22 is outside the test for the swaps.
    rcases Word.and_insert_bit (b := 0x00400000) (k := 22) h rfl with h | h
    · exact ⟨_, .swapWord h⟩
    · exact ⟨_, .swapByte h⟩
  · exact ⟨_, .push h⟩
  · exact ⟨_, .pop h⟩

end Arm

/-! ## 2. The 16-bit instructions -/

namespace Thumb

variable {c : Cpu} {address w : Word}

/-- The bits of the opcode name this reach, by way of the instruction that they spell. -/
def Reaches (c : Cpu) (address w : Word) (x : Reach) : Prop :=
  ∃ i, Moves w i ∧ i.reach? c address = some x

theorem Reaches.reach?_eq {x : Reach} (h : Reaches c address w x) :
    (decode w).reach? c address = some x := by
  obtain ⟨i, hi, hx⟩ := h
  rw [hi.decode_eq, hx]

theorem exists_reaches (h : IsMove w) (c : Cpu) (address : Word) : ∃ x, Reaches c address w x := by
  obtain ⟨i, hi⟩ := exists_moves h
  obtain ⟨x, hx⟩ := exists_reach h c address
  rw [hi.decode_eq] at hx
  exact ⟨x, i, hi, hx⟩

end Thumb

/-! ## 3. Both sets -/

section Sets

variable {c : Cpu} {address w : Word} {x : Reach}

/-- The decoder gives every memory opcode the reach that its bits name, and no other. -/
theorem reach?_eq_some_iff :
    (Arm.IsMove w → ((Arm.decode w).reach? c address = some x ↔ Arm.Reaches c address w x)) ∧
      (Thumb.IsMove w →
        ((Thumb.decode w).reach? c address = some x ↔ Thumb.Reaches c address w x)) := by
  refine ⟨fun h => ⟨fun hx => ?_, Arm.Reaches.reach?_eq⟩,
    fun h => ⟨fun hx => ?_, Thumb.Reaches.reach?_eq⟩⟩
  · obtain ⟨y, hy⟩ := Arm.exists_reaches h c address
    obtain rfl := Option.some.inj (hx.symm.trans hy.reach?_eq)
    exact hy
  · obtain ⟨y, hy⟩ := Thumb.exists_reaches h c address
    obtain rfl := Option.some.inj (hx.symm.trans hy.reach?_eq)
    exact hy

/-- A memory opcode changes no more registers and reaches no other bytes than its bits name. -/
theorem execute_within_named_reach :
    (Arm.Reaches c address w x →
      x.Bounds c fun bus => Arm.execute (Arm.decode w) c bus address) ∧
    (Thumb.Reaches c address w x →
      x.Bounds c fun bus => Thumb.execute (Thumb.decode w) c bus address) :=
  ⟨fun h => Arm.bounds_execute h.reach?_eq, fun h => Thumb.bounds_execute h.reach?_eq⟩

end Sets

/-- `LDRSH r3, [r1], -r2` and `LDMIA r1!, {r0, r2}`. -/
example :
    let c := Cpu.initial.setRegs [1, 2] [0x20, 6]
    Arm.Reaches c 0 0xE01130F2 ⟨[1, 3], [.read 0x20, .read 0x21]⟩ ∧
      Thumb.Reaches c 0 0xC905 ⟨[1, 0, 2], Place.run .read 0x20 8⟩ :=
  ⟨.loadSignedHalf ⟨by decide, by decide, by decide, by decide⟩ (by decide) (by decide), _,
    .loadMultiple (by decide), rfl⟩

end Handheld
