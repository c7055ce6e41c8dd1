import Handheld.Proofs.Word.Field
import Handheld.Proofs.Word.Mask
import Handheld.Thumb.Decode

/-!
# The formats of 16-bit opcodes

The tests of the decoder settled by the high bits of an opcode: which opcodes are loads, stores,
push and pop, which calculate or branch, and which belong to no format at all.
-/

namespace Handheld.Thumb

variable {w : Word}

/-! ## 1. Loads and stores -/

theorem decode_eq_loadLiteral (h : w &&& 0xF800 = 0x4800) :
    decode w = .loadLiteral (w.lowReg 8) (wordOffset w) := by
  have h5 : w.toNat / 2 ^ 11 % 2 ^ 5 = 9 := Word.field_eq_of_and_eq h 11 5 rfl
  have h3 : w.toNat / 2 ^ 13 % 2 ^ 3 = 2 := Word.field_eq_of_and_eq h 13 3 rfl
  unfold decode
  iterate 3 rw [if_neg (Word.and_ne_of_field_ne 13 3 h3 rfl (by decide))]
  iterate 2 rw [if_neg (Word.and_ne_of_field_ne 11 5 h5 rfl (by decide))]
  rw [if_pos h]

theorem decode_eq_registerOffset (h : w.toNat / 2 ^ 12 % 2 ^ 4 = 5) :
    decode w = decodeRegisterOffset w := by
  have h3 : w.toNat / 2 ^ 13 % 2 ^ 3 = 2 := by omega
  have hmatch : w &&& 0xF000 = 0x5000 := (Word.and_eq_iff_field rfl rfl w).2 h
  unfold decode
  rw [if_neg (Word.and_ne_of_field_ne 12 4 h rfl (by decide)),
    if_neg (Word.and_ne_of_field_ne 13 3 h3 rfl (by decide)),
    if_neg (Word.and_ne_of_field_ne 13 3 h3 rfl (by decide)),
    if_neg (Word.and_ne_of_field_ne 12 4 h rfl (by decide)),
    if_neg (Word.and_ne_of_field_ne 12 4 h rfl (by decide)),
    if_neg (Word.and_ne_of_field_ne 12 4 h rfl (by decide)), if_pos hmatch]

theorem decode_eq_constantOffset (h : w.toNat / 2 ^ 13 % 2 ^ 3 = 3) :
    decode w = decodeConstantOffset w := by
  have hmatch : w &&& 0xE000 = 0x6000 := (Word.and_eq_iff_field rfl rfl w).2 h
  unfold decode
  iterate 7 rw [if_neg (Word.and_ne_of_field_ne 13 3 h rfl (by decide))]
  rw [if_pos hmatch]

/-- With bit 15 set, a test for a number below four in bits 15-13 fails.  The first eight do so. -/
theorem and_ne_of_high {m v : Word} (h : 4 ≤ w.toNat / 2 ^ 13 % 2 ^ 3)
    (hm : m.toNat / 2 ^ 13 % 2 ^ 3 = 7) (hv : v.toNat / 2 ^ 13 % 2 ^ 3 < 4) : ¬ w &&& m = v :=
  Word.and_ne_of_field_ne 13 3 rfl hm (by omega)

theorem decode_eq_half (h : w.toNat / 2 ^ 12 % 2 ^ 4 = 8) : decode w = decodeHalf w := by
  have hhigh : 4 ≤ w.toNat / 2 ^ 13 % 2 ^ 3 := by omega
  have hmatch : w &&& 0xF000 = 0x8000 := (Word.and_eq_iff_field rfl rfl w).2 h
  unfold decode
  iterate 8 rw [if_neg (and_ne_of_high hhigh rfl (by decide))]
  rw [if_pos hmatch]

theorem decode_eq_stack (h : w.toNat / 2 ^ 12 % 2 ^ 4 = 9) : decode w = decodeStack w := by
  have hhigh : 4 ≤ w.toNat / 2 ^ 13 % 2 ^ 3 := by omega
  have hmatch : w &&& 0xF000 = 0x9000 := (Word.and_eq_iff_field rfl rfl w).2 h
  unfold decode
  iterate 8 rw [if_neg (and_ne_of_high hhigh rfl (by decide))]
  rw [if_neg (Word.and_ne_of_field_ne 12 4 h rfl (by decide)), if_pos hmatch]

theorem decode_eq_pushPop (h : w.toNat / 2 ^ 12 % 2 ^ 4 = 11) (h9 : w.toNat / 2 ^ 9 % 2 ^ 2 = 2) :
    decode w = decodePushPop w := by
  have hhigh : 4 ≤ w.toNat / 2 ^ 13 % 2 ^ 3 := by omega
  have hmatch : w &&& 0xF600 = 0xB400 := by
    show w &&& (0xF000 ||| 0x600) = 0xB400
    rw [Word.and_or_left,
      (Word.and_eq_iff_field (i := 12) (n := 4) (k := 11) (v := 0xB000) rfl rfl w).2 h,
      (Word.and_eq_iff_field (i := 9) (n := 2) (k := 2) (v := 0x400) rfl rfl w).2 h9]
    rfl
  unfold decode
  iterate 8 rw [if_neg (and_ne_of_high hhigh rfl (by decide))]
  rw [if_neg (Word.and_ne_of_field_ne 12 4 h rfl (by decide)),
    if_neg (Word.and_ne_of_field_ne 12 4 h rfl (by decide)),
    if_neg (Word.and_ne_of_field_ne 12 4 h rfl (by decide)),
    if_neg (Word.and_ne_of_field_ne 9 2 h9 rfl (by decide)), if_pos hmatch]

theorem decode_push (h : w &&& 0xFE00 = 0xB400) :
    decode w = .push ((w.field 0 8).regList ++ if w.bit 8 then [.lr] else []) := by
  have hpush : w.bit 11 = false := Word.bit_eq_of_and_eq h (by decide)
  rw [decode_eq_pushPop (Word.field_eq_of_and_eq h 12 4 rfl)
    (Word.field_eq_of_and_eq h 9 2 rfl)]
  unfold decodePushPop
  rw [hpush]
  cases w.bit 8 with
  | false => simp
  | true => rfl

theorem decode_pop (h : w &&& 0xFE00 = 0xBC00) :
    decode w = .pop (w.field 0 8).regList (w.bit 8) := by
  have hpop : w.bit 11 = true := Word.bit_eq_of_and_eq h (by decide)
  rw [decode_eq_pushPop (Word.field_eq_of_and_eq h 12 4 rfl)
    (Word.field_eq_of_and_eq h 9 2 rfl)]
  unfold decodePushPop
  rw [hpop]
  rfl

theorem decode_eq_multiple (h : w.toNat / 2 ^ 12 % 2 ^ 4 = 12) :
    decode w =
      if w.bit 11 then .loadMultiple (w.lowReg 8) (w.field 0 8).regList
      else .storeMultiple (w.lowReg 8) (w.field 0 8).regList := by
  have hhigh : 4 ≤ w.toNat / 2 ^ 13 % 2 ^ 3 := by omega
  have hmatch : w &&& 0xF000 = 0xC000 := (Word.and_eq_iff_field rfl rfl w).2 h
  unfold decode
  iterate 8 rw [if_neg (and_ne_of_high hhigh rfl (by decide))]
  iterate 5 rw [if_neg (Word.and_ne_of_field_ne 12 4 h rfl (by decide))]
  rw [if_pos hmatch]

/-- The opcode `w` is this load, store, push or pop: its mnemonic by the high bits, its operands by
the rest. -/
inductive Moves (w : Word) : Instruction → Prop where
  | loadLiteral (h : w &&& 0xF800 = 0x4800) :
    Moves w (.loadLiteral (w.lowReg 8) (w.field 0 8 <<< 2))
  | storeWordAt (h : w &&& 0xFE00 = 0x5000) :
    Moves w (.store .word (w.lowReg 0) (w.lowReg 3) (.register (w.lowReg 6)))
  | storeHalfAt (h : w &&& 0xFE00 = 0x5200) :
    Moves w (.store .half (w.lowReg 0) (w.lowReg 3) (.register (w.lowReg 6)))
  | storeByteAt (h : w &&& 0xFE00 = 0x5400) :
    Moves w (.store .byte (w.lowReg 0) (w.lowReg 3) (.register (w.lowReg 6)))
  | loadSignedByteAt (h : w &&& 0xFE00 = 0x5600) :
    Moves w (.load .signedByte (w.lowReg 0) (w.lowReg 3) (.register (w.lowReg 6)))
  | loadWordAt (h : w &&& 0xFE00 = 0x5800) :
    Moves w (.load .word (w.lowReg 0) (w.lowReg 3) (.register (w.lowReg 6)))
  | loadHalfAt (h : w &&& 0xFE00 = 0x5A00) :
    Moves w (.load .half (w.lowReg 0) (w.lowReg 3) (.register (w.lowReg 6)))
  | loadByteAt (h : w &&& 0xFE00 = 0x5C00) :
    Moves w (.load .byte (w.lowReg 0) (w.lowReg 3) (.register (w.lowReg 6)))
  | loadSignedHalfAt (h : w &&& 0xFE00 = 0x5E00) :
    Moves w (.load .signedHalf (w.lowReg 0) (w.lowReg 3) (.register (w.lowReg 6)))
  | storeWord (h : w &&& 0xF800 = 0x6000) :
    Moves w (.store .word (w.lowReg 0) (w.lowReg 3) (.constant (w.field 6 5 <<< 2)))
  | loadWord (h : w &&& 0xF800 = 0x6800) :
    Moves w (.load .word (w.lowReg 0) (w.lowReg 3) (.constant (w.field 6 5 <<< 2)))
  | storeByte (h : w &&& 0xF800 = 0x7000) :
    Moves w (.store .byte (w.lowReg 0) (w.lowReg 3) (.constant (w.field 6 5)))
  | loadByte (h : w &&& 0xF800 = 0x7800) :
    Moves w (.load .byte (w.lowReg 0) (w.lowReg 3) (.constant (w.field 6 5)))
  | storeHalf (h : w &&& 0xF800 = 0x8000) :
    Moves w (.store .half (w.lowReg 0) (w.lowReg 3) (.constant (w.field 6 5 <<< 1)))
  | loadHalf (h : w &&& 0xF800 = 0x8800) :
    Moves w (.load .half (w.lowReg 0) (w.lowReg 3) (.constant (w.field 6 5 <<< 1)))
  | storeStack (h : w &&& 0xF800 = 0x9000) :
    Moves w (.store .word (w.lowReg 8) .sp (.constant (w.field 0 8 <<< 2)))
  | loadStack (h : w &&& 0xF800 = 0x9800) :
    Moves w (.load .word (w.lowReg 8) .sp (.constant (w.field 0 8 <<< 2)))
  | push (h : w &&& 0xFE00 = 0xB400) :
    Moves w (.push ((w.field 0 8).regList ++ if w.bit 8 then [.lr] else []))
  | pop (h : w &&& 0xFE00 = 0xBC00) : Moves w (.pop (w.field 0 8).regList (w.bit 8))
  | storeMultiple (h : w &&& 0xF800 = 0xC000) :
    Moves w (.storeMultiple (w.lowReg 8) (w.field 0 8).regList)
  | loadMultiple (h : w &&& 0xF800 = 0xC800) :
    Moves w (.loadMultiple (w.lowReg 8) (w.field 0 8).regList)

theorem Moves.decode_eq {i : Instruction} (h : Moves w i) : decode w = i := by
  -- One case for each test of the decoder, which looks at the bits below for the rest.
  cases h with
  | loadLiteral h => exact decode_eq_loadLiteral h
  | storeWordAt h | storeHalfAt h | storeByteAt h | loadSignedByteAt h | loadWordAt h
  | loadHalfAt h | loadByteAt h | loadSignedHalfAt h =>
    rw [decode_eq_registerOffset (Word.field_eq_of_and_eq h 12 4 rfl), decodeRegisterOffset,
      show w.field 9 3 = _ from Word.shiftRight_and_eq_of_and_eq h 9 7 rfl]
    rfl
  | storeWord h | loadWord h | storeByte h | loadByte h =>
    rw [decode_eq_constantOffset (Word.field_eq_of_and_eq h 13 3 rfl), decodeConstantOffset,
      show w.field 11 2 = _ from Word.shiftRight_and_eq_of_and_eq h 11 3 rfl]
    rfl
  | storeHalf h | loadHalf h =>
    rw [decode_eq_half (Word.field_eq_of_and_eq h 12 4 rfl), decodeHalf,
      Word.bit_eq_of_and_eq h (by decide)]
    rfl
  | storeStack h | loadStack h =>
    rw [decode_eq_stack (Word.field_eq_of_and_eq h 12 4 rfl), decodeStack,
      Word.bit_eq_of_and_eq h (by decide)]
    rfl
  | push h => exact decode_push h
  | pop h => exact decode_pop h
  | storeMultiple h | loadMultiple h =>
    rw [decode_eq_multiple (Word.field_eq_of_and_eq h 12 4 rfl),
      Word.bit_eq_of_and_eq h (by decide)]
    rfl
/-- The opcode moves data between registers and memory. -/
def IsMove (w : Word) : Prop :=
  w &&& 0xF800 = 0x4800 ∨ w &&& 0xF000 = 0x5000 ∨ w &&& 0xE000 = 0x6000 ∨ w &&& 0xF000 = 0x8000 ∨
    w &&& 0xF000 = 0x9000 ∨ w &&& 0xF600 = 0xB400 ∨ w &&& 0xF000 = 0xC000

/-- Each family of them splits into its formats by the bits that its test leaves open. -/
theorem exists_moves (h : IsMove w) : ∃ i, Moves w i := by
  rcases h with h | h | h | h | h | h | h
  · exact ⟨_, .loadLiteral h⟩
  · rcases Word.and_insert_bit (b := 0x800) (k := 11) h rfl with h | h
    · rcases Word.and_insert_bit (b := 0x400) (k := 10) h rfl with h | h
      · rcases Word.and_insert_bit (b := 0x200) (k := 9) h rfl with h | h
        · exact ⟨_, .storeWordAt h⟩
        · exact ⟨_, .storeHalfAt h⟩
      · rcases Word.and_insert_bit (b := 0x200) (k := 9) h rfl with h | h
        · exact ⟨_, .storeByteAt h⟩
        · exact ⟨_, .loadSignedByteAt h⟩
    · rcases Word.and_insert_bit (b := 0x400) (k := 10) h rfl with h | h
      · rcases Word.and_insert_bit (b := 0x200) (k := 9) h rfl with h | h
        · exact ⟨_, .loadWordAt h⟩
        · exact ⟨_, .loadHalfAt h⟩
      · rcases Word.and_insert_bit (b := 0x200) (k := 9) h rfl with h | h
        · exact ⟨_, .loadByteAt h⟩
        · exact ⟨_, .loadSignedHalfAt h⟩
  · rcases Word.and_insert_bit (b := 0x1000) (k := 12) h rfl with h | h
    · rcases Word.and_insert_bit (b := 0x800) (k := 11) h rfl with h | h
      · exact ⟨_, .storeWord h⟩
      · exact ⟨_, .loadWord h⟩
    · rcases Word.and_insert_bit (b := 0x800) (k := 11) h rfl with h | h
      · exact ⟨_, .storeByte h⟩
      · exact ⟨_, .loadByte h⟩
  · rcases Word.and_insert_bit (b := 0x800) (k := 11) h rfl with h | h
    · exact ⟨_, .storeHalf h⟩
    · exact ⟨_, .loadHalf h⟩
  · rcases Word.and_insert_bit (b := 0x800) (k := 11) h rfl with h | h
    · exact ⟨_, .storeStack h⟩
    · exact ⟨_, .loadStack h⟩
  · rcases Word.and_insert_bit (b := 0x800) (k := 11) h rfl with h | h
    · exact ⟨_, .push h⟩
    · exact ⟨_, .pop h⟩
  · rcases Word.and_insert_bit (b := 0x800) (k := 11) h rfl with h | h
    · exact ⟨_, .storeMultiple h⟩
    · exact ⟨_, .loadMultiple h⟩

/-! ## 2. Calculations -/

theorem decode_shift {v : Word} (h : w &&& 0xF800 = v) (hv : v.toNat / 2 ^ 13 % 2 ^ 3 = 0)
    (hsum : v ≠ 0x1800) :
    decode w = .shift (ShiftKind.ofBits (v >>> 11)) (w.field 6 5) (w.lowReg 0) (w.lowReg 3) := by
  have hmatch : w &&& 0xE000 = 0x0000 :=
    (Word.and_eq_iff_field rfl rfl w).2 ((Word.field_eq_of_and_eq h 13 3 rfl).trans hv)
  have hkind : ShiftKind.ofBits (w >>> 11) = ShiftKind.ofBits (v >>> 11) := by
    unfold ShiftKind.ofBits
    rw [Word.shiftRight_and_eq_of_and_eq h 11 3 rfl]
  unfold decode
  rw [h, if_neg hsum, if_pos hmatch, hkind]

theorem decode_addSubtract {v : Word} (h : w &&& 0xFE00 = v)
    (hv : v.toNat / 2 ^ 11 % 2 ^ 5 = 3) :
    decode w =
      (let right : Operand := if v.bit 10 then .constant (w.field 6 3) else .register (w.lowReg 6)
      if v.bit 9 then .subtract (w.lowReg 0) (w.lowReg 3) right
      else .add (w.lowReg 0) (w.lowReg 3) right) := by
  have hmatch : w &&& 0xF800 = 0x1800 :=
    (Word.and_eq_iff_field rfl rfl w).2 ((Word.field_eq_of_and_eq h 11 5 rfl).trans hv)
  unfold decode decodeAddSubtract
  rw [if_pos hmatch, Word.bit_eq_of_and_eq h (by decide), Word.bit_eq_of_and_eq h (by decide)]

theorem decode_withConstant {v : Word} (h : w &&& 0xF800 = v)
    (hv : v.toNat / 2 ^ 13 % 2 ^ 3 = 1) :
    decode w = .withConstant (ConstantOp.ofBits (v >>> 11)) (w.lowReg 8) (w.field 0 8) := by
  have h3 : w.toNat / 2 ^ 13 % 2 ^ 3 = 1 := (Word.field_eq_of_and_eq h 13 3 rfl).trans hv
  have hmatch : w &&& 0xE000 = 0x2000 := (Word.and_eq_iff_field rfl rfl w).2 h3
  have hop : ConstantOp.ofBits (w >>> 11) = ConstantOp.ofBits (v >>> 11) := by
    unfold ConstantOp.ofBits
    rw [Word.shiftRight_and_eq_of_and_eq h 11 3 rfl]
  unfold decode
  iterate 2 rw [if_neg (Word.and_ne_of_field_ne 13 3 h3 rfl (by decide))]
  rw [if_pos hmatch, hop]

theorem decode_alu {v : Word} (h : w &&& 0xFFC0 = v) (hv : v.toNat / 2 ^ 10 % 2 ^ 6 = 16) :
    decode w = .alu (AluOp.ofBits (v >>> 6)) (w.lowReg 0) (w.lowReg 3) := by
  have h6 : w.toNat / 2 ^ 10 % 2 ^ 6 = 16 := (Word.field_eq_of_and_eq h 10 6 rfl).trans hv
  have h3 : w.toNat / 2 ^ 13 % 2 ^ 3 = 2 := by omega
  have hmatch : w &&& 0xFC00 = 0x4000 := (Word.and_eq_iff_field rfl rfl w).2 h6
  have hop : AluOp.ofBits (w >>> 6) = AluOp.ofBits (v >>> 6) := by
    unfold AluOp.ofBits
    rw [Word.shiftRight_and_eq_of_and_eq h 6 0xF rfl]
  unfold decode
  iterate 3 rw [if_neg (Word.and_ne_of_field_ne 13 3 h3 rfl (by decide))]
  rw [if_pos hmatch, hop]

theorem decode_eq_any {v : Word} (h : w &&& 0xFF00 = v) (hv : v.toNat / 2 ^ 10 % 2 ^ 6 = 17) :
    decode w = decodeAny w := by
  have h6 : w.toNat / 2 ^ 10 % 2 ^ 6 = 17 := (Word.field_eq_of_and_eq h 10 6 rfl).trans hv
  have h3 : w.toNat / 2 ^ 13 % 2 ^ 3 = 2 := by omega
  have hmatch : w &&& 0xFC00 = 0x4400 := (Word.and_eq_iff_field rfl rfl w).2 h6
  unfold decode
  iterate 3 rw [if_neg (Word.and_ne_of_field_ne 13 3 h3 rfl (by decide))]
  rw [if_neg (Word.and_ne_of_field_ne 10 6 h6 rfl (by decide)), if_pos hmatch]

theorem decode_compareAny (h : w &&& 0xFF00 = 0x4500) :
    decode w = .compareAny ((w.field 0 3 ||| (w.field 7 1 <<< 3)).reg 0) (w.reg 3) := by
  have hop : w.field 8 2 = 1 := Word.shiftRight_and_eq_of_and_eq h 8 3 rfl
  rw [decode_eq_any h rfl, decodeAny, hop]
  rfl

/-! ## 3. Branches -/

theorem decode_eq_branchExchange (h : w &&& 0xFF00 = 0x4700) :
    decode w = .branchExchange (w.reg 3) := by
  have hop : w.field 8 2 = 3 := Word.shiftRight_and_eq_of_and_eq h 8 3 rfl
  rw [decode_eq_any h rfl, decodeAny, hop]
  rfl

/-- The last two conditions do not branch: one is a hole, the other the software interrupt. -/
theorem decode_eq_branchIf (h : w.toNat / 2 ^ 12 % 2 ^ 4 = 13)
    (hcond : w.toNat / 2 ^ 8 % 2 ^ 4 < 14) :
    decode w =
      .branchIf (Condition.ofBits (w >>> 8)) (Word.signExtend 8 (w.field 0 8) <<< 1) := by
  have hhigh : 4 ≤ w.toNat / 2 ^ 13 % 2 ^ 3 := by omega
  have hmatch : w &&& 0xF000 = 0xD000 := (Word.and_eq_iff_field rfl rfl w).2 h
  have halways : ¬ w &&& 0x0F00 = 0x0E00 := fun heq =>
    absurd ((Word.and_eq_iff_field (i := 8) (n := 4) (k := 14) rfl rfl w).1 heq)
      (Nat.ne_of_lt hcond)
  have hcall : ¬ w &&& 0xFF00 = 0xDF00 := fun heq => by
    have hfield : w.toNat / 2 ^ 8 % 2 ^ 4 = 15 := Word.field_eq_of_and_eq heq 8 4 rfl
    omega
  unfold decode
  iterate 8 rw [if_neg (and_ne_of_high hhigh rfl (by decide))]
  iterate 6 rw [if_neg (Word.and_ne_of_field_ne 12 4 h rfl (by decide))]
  rw [if_neg hcall, if_pos ⟨hmatch, halways⟩]

/-- The last three formats have bits 15-13 set, which no test before theirs asks for. -/
theorem decode_eq_last (h : 14 ≤ w.toNat / 2 ^ 12 % 2 ^ 4) :
    decode w =
      if w &&& 0xF800 = 0xE000 then .branch (Word.signExtend 11 (w.field 0 11) <<< 1)
      else if w &&& 0xF800 = 0xF000 then .callHigh (Word.signExtend 11 (w.field 0 11) <<< 12)
      else if w &&& 0xF800 = 0xF800 then .callLow (w.field 0 11 <<< 1)
      else .ignored := by
  have hhigh : 4 ≤ w.toNat / 2 ^ 13 % 2 ^ 3 := by omega
  have hne {m v : Word} (hm : m.toNat / 2 ^ 12 % 2 ^ 4 = 2 ^ 4 - 1)
      (hv : v.toNat / 2 ^ 12 % 2 ^ 4 < 14) : ¬ w &&& m = v :=
    Word.and_ne_of_field_ne 12 4 rfl hm (by omega)
  unfold decode
  iterate 8 rw [if_neg (and_ne_of_high hhigh rfl (by decide))]
  iterate 7 rw [if_neg (hne rfl (by decide))]
  rw [if_neg fun hboth => hne rfl (by decide) hboth.1]

theorem decode_eq_branch (h : w &&& 0xF800 = 0xE000) :
    decode w = .branch (Word.signExtend 11 (w.field 0 11) <<< 1) := by
  have hfield : w.toNat / 2 ^ 12 % 2 ^ 4 = 14 := Word.field_eq_of_and_eq h 12 4 rfl
  rw [decode_eq_last (by omega), if_pos h]

theorem decode_eq_callHigh (h : w &&& 0xF800 = 0xF000) :
    decode w = .callHigh (Word.signExtend 11 (w.field 0 11) <<< 12) := by
  have hfield : w.toNat / 2 ^ 12 % 2 ^ 4 = 15 := Word.field_eq_of_and_eq h 12 4 rfl
  rw [decode_eq_last (by omega), if_neg (by rw [h]; decide), if_pos h]

theorem decode_eq_callLow (h : w &&& 0xF800 = 0xF800) :
    decode w = .callLow (w.field 0 11 <<< 1) := by
  have hfield : w.toNat / 2 ^ 12 % 2 ^ 4 = 15 := Word.field_eq_of_and_eq h 12 4 rfl
  rw [decode_eq_last (by omega), if_neg (by rw [h]; decide), if_neg (by rw [h]; decide), if_pos h]

/-! ## 4. Opcodes of no format -/

/-- The high bytes that no format has. -/
def unassigned : List Nat :=
  [0xB1, 0xB2, 0xB3, 0xB6, 0xB7, 0xB8, 0xB9, 0xBA, 0xBB, 0xBE, 0xBF, 0xDE,
    0xE8, 0xE9, 0xEA, 0xEB, 0xEC, 0xED, 0xEE, 0xEF]

def IsUnassigned (w : Word) : Prop := w.toNat / 2 ^ 8 ∈ unassigned

instance : DecidablePred IsUnassigned := fun w =>
  inferInstanceAs (Decidable (w.toNat / 2 ^ 8 ∈ unassigned))

/-- A test fails for every unassigned opcode if it does for their high bytes. -/
theorem and_ne_of_unassigned {m v : Word} (h : IsUnassigned w)
    (hbytes : ∀ b ∈ unassigned, b &&& m.toNat / 2 ^ 8 ≠ v.toNat / 2 ^ 8) : ¬ w &&& m = v := by
  intro hmatch
  apply hbytes _ h
  rw [← Nat.and_div_two_pow, ← UInt32.toNat_and, hmatch]

theorem decode_eq_ignored (h : IsUnassigned w) : decode w = .ignored := by
  -- The one branch condition among them is the one that the branches leave out.
  have hbranch : ¬ (w &&& 0xF000 = 0xD000 ∧ w &&& 0x0F00 ≠ 0x0E00) := by
    rintro ⟨hbranch, hcond⟩
    have hhigh : w.toNat / 2 ^ 12 % 2 ^ 4 = 13 := (Word.and_eq_iff_field rfl rfl w).1 hbranch
    have hlow : w.toNat / 2 ^ 8 % 2 ^ 4 ≠ 14 := fun hlow =>
      hcond ((Word.and_eq_iff_field rfl rfl w).2 hlow)
    have hgap : ∀ b ∈ unassigned, b / 2 ^ 4 % 2 ^ 4 = 13 → b % 2 ^ 4 = 14 := by decide
    apply hlow
    apply hgap _ h
    rw [Nat.div_div_eq_div_mul]
    exact hhigh
  unfold decode
  iterate 15 rw [if_neg (and_ne_of_unassigned h (by decide))]
  rw [if_neg hbranch]
  iterate 3 rw [if_neg (and_ne_of_unassigned h (by decide))]

end Handheld.Thumb
