import Handheld.Proofs.Arm.RegList

/-!
# Encoding transfers

The opcodes of the instructions that move data between registers and memory, as sums of their
fields: words and bytes, the halfword, signed and pair forms, push and pop.  Decoding gives back the
instruction that was encoded.
-/

namespace Handheld.Arm

/-! ## 1. Opcodes -/

/-- Words and bytes have an encoding of their own, in which the offset is longer. -/
def Movement.isSingle : Movement → Bool
  | load .word | load .byte | store .word | store .byte => true
  | _ => false

/-- The bits that tell the movements apart: 22 and 20 in the encoding of words and bytes, 20 and 6-5
in the other. -/
@[grind =]
def Movement.code : Movement → Word
  | load .word => 0x4100000
  | load .byte => 0x4500000
  | store .word => 0x4000000
  | store .byte => 0x4400000
  | load .half => 0x1000B0
  | load .signedByte => 0x1000D0
  | load .signedHalf => 0x1000F0
  | store .half => 0xB0
  | loadPair => 0xD0
  | storePair => 0xF0

/-- An offset of words and bytes: twelve bits, or a register shifted by a constant. -/
def Offset.encodeSingle? : Offset → Option Word
  | constant n => if n < 0x1000 then some n else none
  | shifted r kind amount =>
    if amount < 32 then some (0x2000000 + 0x80 * amount + 0x20 * kind.code + r.code) else none

/-- An offset of the other movements: eight bits in two halves, or a register as it is. -/
def Offset.encodeExtra? : Offset → Option Word
  | constant n => if n < 0x100 then some (0x400000 + 0x100 * (n / 16) + n % 16) else none
  | shifted r kind amount => if kind = .lsl ∧ amount = 0 then some r.code else none

def Transfer.encodeOffset? (t : Transfer) : Option Word :=
  if t.move.isSingle then t.offset.encodeSingle? else t.offset.encodeExtra?

/-- The opcode of a transfer that is always executed.  An offset that applies after the access is
always written back. -/
def Transfer.encode? (t : Transfer) : Option Word :=
  if t.pre || t.writeBack then
    t.encodeOffset?.map fun low =>
      0xE0000000 + 0x1000000 * t.pre.toUInt32 + 0x800000 * t.up.toUInt32 +
        0x200000 * (t.pre && t.writeBack).toUInt32 + 0x10000 * t.base.code +
        0x1000 * t.data.code + t.move.code + low
  else none

/-! ## 2. Families -/

theorem decode_eq_single {w : Word} (hclass : w.toNat / 2 ^ 26 % 2 ^ 2 = 1)
    (hform : w.toNat / 2 ^ 25 % 2 = 0 ∨ w.toNat / 2 ^ 4 % 2 = 0) : decode w = decodeSingle w := by
  have hmatch : w &&& 0x0C000000 = 0x04000000 := (Word.and_eq_iff_field rfl rfl w).2 hclass
  -- A register offset with bit 4 set would be ignored.
  have hundefined : ¬ w &&& 0x02000010 = 0x02000010 := by
    intro h
    have h25 := Word.field_eq_of_and_eq h 25 1 rfl
    have h4 := Word.field_eq_of_and_eq h 4 1 rfl
    change _ = 1 at h25 h4
    omega
  unfold decode
  iterate 5 rw [if_neg (Word.and_ne_of_field_ne 26 2 hclass rfl (by decide))]
  rw [if_pos hmatch, if_neg hundefined]

theorem decode_eq_extra {w : Word} (hclass : w.toNat / 2 ^ 25 % 2 ^ 3 = 0)
    (h7 : w.toNat / 2 ^ 7 % 2 ^ 1 = 1) (h4 : w.toNat / 2 ^ 4 % 2 ^ 1 = 1)
    (hkind : w.toNat / 2 ^ 5 % 2 ^ 2 ≠ 0) : decode w = decodeExtra w := by
  have hclass' : w.toNat / 2 ^ 26 % 2 ^ 2 = 0 := by omega
  have hmatch : w &&& 0x0E000090 = 0x00000090 := by
    show w &&& (0x0E000000 ||| (0x80 ||| 0x10)) = 0x90
    rw [Word.and_or_left, Word.and_or_left,
      (Word.and_eq_iff_field (i := 25) (n := 3) (k := 0) (v := 0) rfl rfl w).2 hclass,
      (Word.and_eq_iff_field (i := 7) (n := 1) (k := 1) (v := 0x80) rfl rfl w).2 h7,
      (Word.and_eq_iff_field (i := 4) (n := 1) (k := 1) (v := 0x10) rfl rfl w).2 h4]
    rfl
  have hkind' : w &&& 0x60 ≠ 0 := fun h =>
    hkind ((Word.and_eq_iff_field (i := 5) (n := 2) (k := 0) rfl rfl w).1 h)
  -- The multiplications and the swap have 1001 in bits 7-4.
  have hnine {m v : Word} (hm : m.toNat / 2 ^ 5 % 2 ^ 2 = 3) (hv : v.toNat / 2 ^ 5 % 2 ^ 2 = 0) :
      ¬ w &&& m = v := fun h => hkind ((Word.field_eq_of_and_eq h 5 2 hm).trans hv)
  unfold decode
  rw [if_neg (Word.and_ne_of_field_ne 7 1 h7 rfl (by decide))]
  iterate 5 rw [if_neg (Word.and_ne_of_field_ne 26 2 hclass' rfl (by decide))]
  rw [if_neg (hnine rfl rfl), if_neg (hnine rfl rfl), if_neg (hnine rfl rfl),
    if_pos ⟨hmatch, hkind'⟩]

theorem decode_eq_block {w : Word} (hclass : w.toNat / 2 ^ 25 % 2 ^ 3 = 4) :
    decode w = decodeBlock w := by
  have hmatch : w &&& 0x0E000000 = 0x08000000 := (Word.and_eq_iff_field rfl rfl w).2 hclass
  unfold decode
  rw [if_neg (Word.and_ne_of_field_ne 25 3 hclass rfl (by decide)),
    if_neg (Word.and_ne_of_field_ne 25 3 hclass rfl (by decide)),
    if_neg (Word.and_ne_of_field_ne (k := 2) 26 2 (by omega) rfl (by decide)),
    if_neg (Word.and_ne_of_field_ne (k := 2) 26 2 (by omega) rfl (by decide)), if_pos hmatch]

/-! ## 3. Decoding what was encoded -/

/-- The addressing bits of an opcode, whatever its other bits say about the offset and the movement:
26-25, 22, 20 and the low twelve. -/
theorem decodeTransfer_of_toNat {w : Word} {t : Transfer} {h b l n : Nat}
    (hw : w.toNat = 0xE0000000 + 0x1000000 * t.pre.toNat + 0x800000 * t.up.toNat +
      0x200000 * (t.pre && t.writeBack).toNat + 0x10000 * t.base.val + 0x1000 * t.data.val +
      (0x2000000 * h + 0x400000 * b + 0x100000 * l + n))
    (hpost : (t.pre || t.writeBack) = true) (hb : b < 2) (hl : l < 2) (hn : n < 0x1000) :
    decodeTransfer w t.move t.offset = .transfer t := by
  have hbase := t.base.isLt
  have hdata := t.data.isLt
  have hpre := Bool.toNat_lt t.pre
  have hup := Bool.toNat_lt t.up
  have hback := Bool.toNat_lt (t.pre && t.writeBack)
  have hdata' : w.reg 12 = t.data :=
    Word.reg_eq_of_field (by decide) (show w.toNat / 2 ^ 12 % 16 = t.data.val by omega)
  have hbase' : w.reg 16 = t.base :=
    Word.reg_eq_of_field (by decide) (show w.toNat / 2 ^ 16 % 16 = t.base.val by omega)
  have hup' : w.bit 23 = t.up :=
    Word.bit_eq_of_field (by decide) (show w.toNat / 2 ^ 23 % 2 = t.up.toNat by omega)
  have hpre' : w.bit 24 = t.pre :=
    Word.bit_eq_of_field (by decide) (show w.toNat / 2 ^ 24 % 2 = t.pre.toNat by omega)
  have hback' : w.bit 21 = (t.pre && t.writeBack) :=
    Word.bit_eq_of_field (by decide)
      (show w.toNat / 2 ^ 21 % 2 = (t.pre && t.writeBack).toNat by omega)
  unfold decodeTransfer
  rw [hdata', hbase', hup', hpre', hback']
  -- A transfer that is not indexed before the access is written back.
  have hwriteBack : (!t.pre || (t.pre && t.writeBack)) = t.writeBack := by
    revert hpost
    cases t.pre <;> cases t.writeBack <;> decide
  rw [hwriteBack]

theorem Offset.toNat_of_encodeSingle? {o : Offset} {low : Word}
    (h : o.encodeSingle? = some low) :
    match o with
    | constant n => low = n ∧ low.toNat < 0x1000
    | shifted r kind amount =>
      amount.toNat < 32 ∧
        low.toNat = 0x2000000 + 0x80 * amount.toNat + 0x20 * kind.code.toNat + r.val := by
  cases o with
  | constant n =>
    obtain ⟨hn, rfl⟩ : n < 0x1000 ∧ n = low := by simpa [encodeSingle?] using h
    exact ⟨rfl, UInt32.lt_iff_toNat_lt.1 hn⟩
  | shifted r kind amount =>
    obtain ⟨hn, rfl⟩ : amount < 32 ∧
        0x2000000 + 0x80 * amount + 0x20 * kind.code + r.code = low := by
      simpa [encodeSingle?] using h
    have hn' : amount.toNat < 32 := UInt32.lt_iff_toNat_lt.1 hn
    have hkind := kind.code_lt
    refine ⟨hn', ?_⟩
    simp only [UInt32.toNat_add, UInt32.toNat_mul, Reg.toNat_code, UInt32.reduceToNat]
    omega

theorem Offset.toNat_of_encodeExtra? {o : Offset} {low : Word} (h : o.encodeExtra? = some low) :
    match o with
    | constant n =>
      ∃ high < 16, ∃ nibble < 16, n.toNat = 16 * high + nibble ∧
        low.toNat = 0x400000 + 0x100 * high + nibble
    | shifted r kind amount => kind = .lsl ∧ amount = 0 ∧ low.toNat = r.val := by
  cases o with
  | constant n =>
    obtain ⟨hn, rfl⟩ : n < 0x100 ∧ 0x400000 + 0x100 * (n / 16) + n % 16 = low := by
      simpa [encodeExtra?] using h
    have hn' : n.toNat < 0x100 := UInt32.lt_iff_toNat_lt.1 hn
    refine ⟨n.toNat / 16, by omega, n.toNat % 16, by omega, by omega, ?_⟩
    simp only [UInt32.toNat_add, UInt32.toNat_mul, UInt32.toNat_div, UInt32.toNat_mod,
      UInt32.reduceToNat]
    omega
  | shifted r kind amount =>
    obtain ⟨⟨hkind, hamount⟩, rfl⟩ : (kind = .lsl ∧ amount = 0) ∧ r.code = low := by
      simpa [encodeExtra?] using h
    exact ⟨hkind, hamount, r.toNat_code⟩

/-- The offset of words and bytes, read back from bit 25 and the low twelve bits. -/
theorem decodeSingleOffset_of_encode? {o : Offset} {low w : Word}
    (h : o.encodeSingle? = some low) (h25 : w.toNat / 2 ^ 25 % 2 = low.toNat / 2 ^ 25 % 2)
    (hlow : w.toNat % 2 ^ 12 = low.toNat % 2 ^ 12) :
    (if w.bit 25 then .shifted (w.reg 0) (shiftKind w) (shiftAmount w)
      else .constant (w &&& 0xFFF)) = o := by
  have hnat := Offset.toNat_of_encodeSingle? h
  have hb25 : w.bit 25 = decide (w.toNat / 2 ^ 25 % 2 = 1) := Word.bit_eq_decide (by decide) w
  rw [hb25]
  cases o with
  | constant n =>
    obtain ⟨rfl, hn⟩ := hnat
    have hvalue : w &&& 0xFFF = low := by
      apply UInt32.toNat_inj.1
      rw [Word.toNat_and_mask (i := 0) (n := 12) rfl]
      omega
    rw [if_neg (by simp; omega), hvalue]
  | shifted r kind amount =>
    obtain ⟨hn, hnat⟩ := hnat
    have hk := kind.code_lt
    have hr := r.isLt
    have hreg : w.reg 0 = r :=
      Word.reg_eq_of_field (by decide) (show w.toNat / 2 ^ 0 % 16 = r.val by omega)
    have hkind : shiftKind w = kind := shiftKind_of_field (by omega)
    have hamount : shiftAmount w = amount := shiftAmount_of_field (by omega)
    rw [if_pos (decide_eq_true (by omega)), hreg, hkind, hamount]

/-- The offset of the other movements, read back from bit 22 and the two low nibbles. -/
theorem decodeExtraOffset_of_encode? {o : Offset} {low w : Word} (h : o.encodeExtra? = some low)
    (h22 : w.toNat / 2 ^ 22 % 2 = low.toNat / 2 ^ 22 % 2)
    (hhigh : w.toNat / 2 ^ 8 % 2 ^ 4 = low.toNat / 2 ^ 8 % 2 ^ 4)
    (hlow : w.toNat % 2 ^ 4 = low.toNat % 2 ^ 4) :
    (if w.bit 22 then .constant ((w.field 8 4 <<< 4) ||| w.field 0 4)
      else .shifted (w.reg 0) .lsl 0) = o := by
  have hnat := Offset.toNat_of_encodeExtra? h
  have hb22 : w.bit 22 = decide (w.toNat / 2 ^ 22 % 2 = 1) := Word.bit_eq_decide (by decide) w
  rw [hb22]
  cases o with
  | constant n =>
    obtain ⟨high, hhighlt, nibble, hnibble, hn, hnat⟩ := hnat
    have hhigh' : (w.field 8 4).toNat = high := by
      rw [Word.toNat_field (by decide) (by decide)]
      show w.toNat / 2 ^ 8 % 2 ^ 4 = _
      omega
    have hlow' : (w.field 0 4).toNat = nibble := by
      rw [Word.toNat_field (by decide) (by decide)]
      show w.toNat / 2 ^ 0 % 2 ^ 4 = _
      omega
    have hfit : 2 ^ 4 * high < 2 ^ 32 := by omega
    have hvalue : (w.field 8 4 <<< 4) ||| w.field 0 4 = n := by
      apply UInt32.toNat_inj.1
      rw [UInt32.toNat_or, UInt32.toNat_shiftLeft, hhigh', hlow']
      show high <<< 4 % 2 ^ 32 ||| nibble = n.toNat
      rw [Nat.shiftLeft_eq, Nat.mul_comm, Nat.mod_eq_of_lt hfit,
        ← Nat.two_pow_add_eq_or_of_lt hnibble, hn]
    have hconstant : low.toNat / 2 ^ 22 = 1 := Nat.div_eq_of_lt_le (by omega) (by omega)
    rw [if_pos (decide_eq_true (by rw [h22, hconstant])), hvalue]
  | shifted r kind amount =>
    obtain ⟨rfl, rfl, hnat⟩ := hnat
    have hr := r.isLt
    have hreg : w.reg 0 = r :=
      Word.reg_eq_of_field (by decide) (show w.toNat / 2 ^ 0 % 16 = r.val by omega)
    rw [if_neg (by simp; omega), hreg]

theorem Movement.toNat_code_of_isSingle {m : Movement} (h : m.isSingle = true) :
    ∃ b < 2, ∃ l < 2, m.code.toNat = 0x4000000 + 0x400000 * b + 0x100000 * l := by
  cases m with
  | load kind =>
    cases kind with
    | word => exact ⟨0, by decide, 1, by decide, rfl⟩
    | byte => exact ⟨1, by decide, 1, by decide, rfl⟩
    | half | signedByte | signedHalf => cases h
  | store kind =>
    cases kind with
    | word => exact ⟨0, by decide, 0, by decide, rfl⟩
    | byte => exact ⟨1, by decide, 0, by decide, rfl⟩
    | half => cases h
  | loadPair | storePair => cases h

theorem Movement.toNat_code_of_not_isSingle {m : Movement} (h : m.isSingle = false) :
    ∃ l < 2, ∃ k < 4, k ≠ 0 ∧ m.code.toNat = 0x100000 * l + 0x90 + 0x20 * k := by
  cases m with
  | load kind =>
    cases kind with
    | word | byte => cases h
    | half => exact ⟨1, by decide, 1, by decide, by decide, rfl⟩
    | signedByte => exact ⟨1, by decide, 2, by decide, by decide, rfl⟩
    | signedHalf => exact ⟨1, by decide, 3, by decide, by decide, rfl⟩
  | store kind =>
    cases kind with
    | word | byte => cases h
    | half => exact ⟨0, by decide, 1, by decide, by decide, rfl⟩
  | loadPair => exact ⟨0, by decide, 2, by decide, by decide, rfl⟩
  | storePair => exact ⟨0, by decide, 3, by decide, by decide, rfl⟩

theorem decodeSingle_of_code {w : Word} {m : Movement} (h : m.isSingle = true)
    (h20 : w.toNat / 2 ^ 20 % 2 = m.code.toNat / 2 ^ 20 % 2)
    (h22 : w.toNat / 2 ^ 22 % 2 = m.code.toNat / 2 ^ 22 % 2) :
    decodeSingle w = decodeTransfer w m
      (if w.bit 25 then .shifted (w.reg 0) (shiftKind w) (shiftAmount w)
        else .constant (w &&& 0xFFF)) := by
  have hb20 : w.bit 20 = decide (w.toNat / 2 ^ 20 % 2 = 1) := Word.bit_eq_decide (by decide) w
  have hb22 : w.bit 22 = decide (w.toNat / 2 ^ 22 % 2 = 1) := Word.bit_eq_decide (by decide) w
  unfold decodeSingle
  rw [hb20, hb22, h20, h22]
  cases m with
  | load kind => cases kind <;> first | rfl | cases h
  | store kind => cases kind <;> first | rfl | cases h
  | loadPair | storePair => cases h

theorem extraMovement_of_code {w : Word} {m : Movement} (h : m.isSingle = false)
    (h20 : w.toNat / 2 ^ 20 % 2 = m.code.toNat / 2 ^ 20 % 2)
    (h5 : w.toNat / 2 ^ 5 % 2 ^ 2 = m.code.toNat / 2 ^ 5 % 2 ^ 2) : extraMovement w = m := by
  have hb20 : w.bit 20 = decide (w.toNat / 2 ^ 20 % 2 = 1) := Word.bit_eq_decide (by decide) w
  have hfield : w.field 5 2 = m.code.field 5 2 := by
    apply UInt32.toNat_inj.1
    rw [Word.toNat_field (by decide) (by decide), Word.toNat_field (by decide) (by decide)]
    exact h5
  unfold extraMovement
  rw [hb20, h20, hfield]
  cases m with
  | load kind => cases kind <;> first | rfl | cases h
  | store kind => cases kind <;> first | rfl | cases h
  | loadPair | storePair => rfl

theorem Offset.shape_of_encodeSingle? {o : Offset} {low : Word} (h : o.encodeSingle? = some low) :
    ∃ i < 2, ∃ n < 0x1000, low.toNat = 0x2000000 * i + n ∧ (i = 0 ∨ n / 2 ^ 4 % 2 = 0) := by
  have hnat := Offset.toNat_of_encodeSingle? h
  cases o with
  | constant n => exact ⟨0, by decide, low.toNat, hnat.2, by omega, .inl rfl⟩
  | shifted r kind amount =>
    obtain ⟨hn, hnat⟩ := hnat
    have hk := kind.code_lt
    have hr := r.isLt
    exact ⟨1, by decide, 0x80 * amount.toNat + 0x20 * kind.code.toNat + r.val, by omega, by omega,
      .inr (by omega)⟩

theorem Offset.shape_of_encodeExtra? {o : Offset} {low : Word} (h : o.encodeExtra? = some low) :
    ∃ i < 2, ∃ high < 16, ∃ nibble < 16, low.toNat = 0x400000 * i + 0x100 * high + nibble := by
  have hnat := Offset.toNat_of_encodeExtra? h
  cases o with
  | constant n =>
    obtain ⟨high, hhigh, nibble, hnibble, -, hnat⟩ := hnat
    exact ⟨1, by decide, high, hhigh, nibble, hnibble, by omega⟩
  | shifted r kind amount =>
    obtain ⟨-, -, hnat⟩ := hnat
    exact ⟨0, by decide, 0, by decide, r.val, r.isLt, by omega⟩

section Transfer

variable {t : Transfer} {w low : Word}

theorem Transfer.toNat_of_encode? (h : t.encode? = some w) :
    (t.pre || t.writeBack) = true ∧ ∃ low, t.encodeOffset? = some low ∧
      (t.move.code.toNat + low.toNat < 0x8000000 →
        w.toNat = 0xE0000000 + 0x1000000 * t.pre.toNat + 0x800000 * t.up.toNat +
          0x200000 * (t.pre && t.writeBack).toNat + 0x10000 * t.base.val + 0x1000 * t.data.val +
          (t.move.code.toNat + low.toNat)) := by
  unfold encode? at h
  split at h
  next hpost =>
    obtain ⟨low, hlow, hw⟩ := Option.map_eq_some_iff.1 h
    have hpre := Bool.toNat_lt t.pre
    have hup := Bool.toNat_lt t.up
    have hback := Bool.toNat_lt (t.pre && t.writeBack)
    have hbase := t.base.isLt
    have hdata := t.data.isLt
    refine ⟨hpost, low, hlow, fun hfit => ?_⟩
    rw [← hw]
    simp only [UInt32.toNat_add, UInt32.toNat_mul, Reg.toNat_code, toNat_bool, UInt32.reduceToNat]
    omega
  next => cases h

/-- An encoded transfer is decoded to itself, and always executed. -/
theorem decode_transfer (h : t.encode? = some w) :
    decode w = .transfer t ∧ Condition.ofBits (w >>> 28) = .al := by
  obtain ⟨hpost, low, hlow, hsum⟩ := Transfer.toNat_of_encode? h
  have hpre := Bool.toNat_lt t.pre
  have hup := Bool.toNat_lt t.up
  have hback := Bool.toNat_lt (t.pre && t.writeBack)
  have hbase := t.base.isLt
  have hdata := t.data.isLt
  unfold Transfer.encodeOffset? at hlow
  cases hform : t.move.isSingle with
  | true =>
    rw [hform, if_pos rfl] at hlow
    obtain ⟨b, hb, l, hl, hcode⟩ := Movement.toNat_code_of_isSingle hform
    obtain ⟨i, hi, n, hn, hlow', hfour⟩ := Offset.shape_of_encodeSingle? hlow
    have hnat := hsum (by omega)
    have hdecode : decode w = decodeSingle w := decode_eq_single (by omega) (by omega)
    rw [decodeSingle_of_code hform (by omega) (by omega),
      decodeSingleOffset_of_encode? hlow (by omega) (by omega),
      decodeTransfer_of_toNat (h := 2 + i) (b := b) (l := l) (n := n) (by omega) hpost hb hl
        hn] at hdecode
    exact ⟨hdecode, Condition.ofBits_al (by omega)⟩
  | false =>
    rw [hform, if_neg (by decide)] at hlow
    obtain ⟨l, hl, k, hk, hk0, hcode⟩ := Movement.toNat_code_of_not_isSingle hform
    obtain ⟨i, hi, high, hhigh, nibble, hnibble, hlow'⟩ := Offset.shape_of_encodeExtra? hlow
    have hnat := hsum (by omega)
    have hdecode : decode w = decodeExtra w :=
      decode_eq_extra (by omega) (by omega) (by omega) (by omega)
    unfold decodeExtra at hdecode
    rw [extraMovement_of_code hform (by omega) (by omega),
      decodeExtraOffset_of_encode? hlow (by omega) (by omega) (by omega),
      decodeTransfer_of_toNat (h := 0) (b := i) (l := l)
        (n := 0x90 + 0x20 * k + 0x100 * high + nibble) (by omega) hpost hi hl (by omega)]
      at hdecode
    exact ⟨hdecode, Condition.ofBits_al (by omega)⟩

end Transfer

/-! ## 4. Push and pop -/

theorem decode_push {op : Word} (hop : op &&& 0x0FFF0000 = 0x092D0000) :
    decode op = .push op.regList := by
  rw [decode_eq_block (Word.field_eq_of_and_eq hop 25 3 rfl)]
  unfold decodeBlock
  rw [hop]
  rfl

theorem decode_pop {op : Word} (hop : op &&& 0x0FFF0000 = 0x08BD0000) :
    decode op = .pop op.regList := by
  rw [decode_eq_block (Word.field_eq_of_and_eq hop 25 3 rfl)]
  unfold decodeBlock
  rw [hop]
  rfl

end Handheld.Arm
