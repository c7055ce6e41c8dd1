import Handheld.Bus.FlatRam
import Handheld.Proofs.Arm.TransferEncoding
import Handheld.Proofs.Steps

/-!
# Indexed transfers

A transfer that writes its base back does two things at once: it moves data at an address, and moves
the base by the offset.  This file takes it apart.  The plain transfer is that at the same address
without the write-back, which has an opcode of its own; what the indexed one does is the plain one
and then the move of the base, except that a loaded value wins over the moved base.
-/

namespace Handheld

/-! ## 1. Opcodes that differ in some bits -/

namespace Word

variable {m i : Word}

theorem bit_overlay_self (hm : m.bit i = true) (w v : Word) : (w.overlay m v).bit i = v.bit i :=
  (bit_eq_of_and_eq (overlay_and_self w m v) hm).trans (bit_eq_of_and_eq rfl hm).symm

theorem and_not_disjoint (m : Word) : m &&& ~~~m = 0 := by
  apply UInt32.toBitVec_inj.1
  ext i hi
  simp

theorem bit_overlay (hm : (~~~m).bit i = true) (w v : Word) : (w.overlay m v).bit i = w.bit i :=
  (bit_eq_of_and_eq (overlay_and_of_disjoint (and_not_disjoint m) w v) hm).trans
    (bit_eq_of_and_eq rfl hm).symm

theorem shiftRight_overlay_and {n : Word} (hm : (~~~m >>> i) &&& n = n) (w v : Word) :
    (w.overlay m v >>> i) &&& n = (w >>> i) &&& n :=
  (shiftRight_and_eq_of_and_eq (overlay_and_of_disjoint (and_not_disjoint m) w v) i n hm).trans
    (shiftRight_and_eq_of_and_eq rfl i n hm).symm

theorem field_overlay {n : Word} (hm : (~~~m).field i n = (1 <<< n) - 1) (w v : Word) :
    (w.overlay m v).field i n = w.field i n :=
  shiftRight_overlay_and hm w v

theorem field_overlay_self {n : Word} (hm : m.field i n = (1 <<< n) - 1) (w v : Word) :
    (w.overlay m v).field i n = v.field i n :=
  (shiftRight_and_eq_of_and_eq (overlay_and_self w m v) i _ hm).trans
    (shiftRight_and_eq_of_and_eq rfl i _ hm).symm

theorem reg_overlay (hm : (~~~m).field i 4 = 0xF) (w v : Word) :
    (w.overlay m v).reg i = w.reg i :=
  reg_eq_of_field_eq (field_overlay hm w v)

end Word

namespace Arm

/-! ## 2. Transfers and their plain forms -/

/-- The opcode is a load or store of a word or a byte. -/
def IsSingle (w : Word) : Prop := w.field 26 2 = 1 ∧ (w.bit 25 = false ∨ w.bit 4 = false)

/-- The opcode is a halfword, signed or pair transfer. -/
def IsExtra (w : Word) : Prop :=
  w.field 25 3 = 0 ∧ w.bit 7 = true ∧ w.bit 4 = true ∧ w.field 5 2 ≠ 0

/-- The opcode without write-back: bit 24 set and bit 21 clear.  If the offset applied after the
access it is now a constant zero, in the form of the encoding. -/
def unindexed (w : Word) : Word :=
  if w.bit 24 then w.overlay 0x00200000 0
  else if w.bit 26 then w.overlay 0x03200FFF 0x01000000
  else w.overlay 0x01600F0F 0x01400000

namespace Transfer

/-- The same movement at the same address, with the base left alone. -/
def unindexed (t : Transfer) : Transfer :=
  { t with
    pre := true
    writeBack := false
    offset := if t.pre then t.offset else .constant 0 }

end Transfer

variable {w : Word}

theorem toNat_class_of_isSingle (h : IsSingle w) : w.toNat / 2 ^ 26 % 2 ^ 2 = 1 := by
  have hnat := congrArg UInt32.toNat h.1
  rwa [Word.toNat_field (by decide) (by decide)] at hnat

theorem toNat_class_of_isExtra (h : IsExtra w) : w.toNat / 2 ^ 25 % 2 ^ 3 = 0 := by
  have hnat := congrArg UInt32.toNat h.1
  rwa [Word.toNat_field (by decide) (by decide)] at hnat

theorem decode_of_isSingle (h : IsSingle w) : decode w = decodeSingle w := by
  have hclass := toNat_class_of_isSingle h
  obtain ⟨-, hform⟩ := h
  apply decode_eq_single hclass
  · rw [Word.bit_eq_decide (by decide), Word.bit_eq_decide (by decide), decide_eq_false_iff_not,
      decide_eq_false_iff_not] at hform
    change ¬ w.toNat / 2 ^ 25 % 2 = 1 ∨ ¬ w.toNat / 2 ^ 4 % 2 = 1 at hform
    omega

theorem decode_of_isExtra (h : IsExtra w) : decode w = decodeExtra w := by
  have hclass := toNat_class_of_isExtra h
  obtain ⟨-, h7, h4, hkind⟩ := h
  rw [Word.bit_eq_decide (by decide), decide_eq_true_iff] at h7 h4
  refine decode_eq_extra hclass h7 h4 fun hzero => hkind ?_
  apply UInt32.toNat_inj.1
  rw [Word.toNat_field (by decide) (by decide)]
  exact hzero

theorem bit26_of_isSingle (h : IsSingle w) : w.bit 26 = true := by
  have hclass := toNat_class_of_isSingle h
  exact Word.bit_eq_of_field (by decide) (show w.toNat / 2 ^ 26 % 2 = 1 by omega)

theorem bit26_of_isExtra (h : IsExtra w) : w.bit 26 = false := by
  have hclass := toNat_class_of_isExtra h
  exact Word.bit_eq_of_field (by decide) (show w.toNat / 2 ^ 26 % 2 = 0 by omega)

theorem unindexed_of_pre (h24 : w.bit 24 = true) : unindexed w = w.overlay 0x00200000 0 := by
  unfold unindexed
  rw [h24, if_pos rfl]

theorem unindexed_of_post (h24 : w.bit 24 = false) :
    unindexed w =
      if w.bit 26 then w.overlay 0x03200FFF 0x01000000 else w.overlay 0x01600F0F 0x01400000 := by
  unfold unindexed
  rw [h24, if_neg (by decide)]

/-- The addressing bits of an opcode without write-back. -/
theorem unindexed_addressing (w : Word) :
    (unindexed w).reg 16 = w.reg 16 ∧ (unindexed w).reg 12 = w.reg 12 ∧
      (unindexed w).bit 23 = w.bit 23 ∧ (unindexed w).bit 24 = true ∧
      (unindexed w).bit 21 = false := by
  cases h24 : w.bit 24 with
  | true =>
    rw [unindexed_of_pre h24, Word.bit_overlay (by decide) w (i := 24), h24]
    exact ⟨Word.reg_overlay (by decide) _ _, Word.reg_overlay (by decide) _ _,
      Word.bit_overlay (by decide) _ _, rfl, Word.bit_overlay_self (by decide) _ _⟩
  | false =>
    rw [unindexed_of_post h24]
    split
    · exact ⟨Word.reg_overlay (by decide) _ _, Word.reg_overlay (by decide) _ _,
        Word.bit_overlay (by decide) _ _, Word.bit_overlay_self (by decide) _ _,
        Word.bit_overlay_self (by decide) _ _⟩
    · exact ⟨Word.reg_overlay (by decide) _ _, Word.reg_overlay (by decide) _ _,
        Word.bit_overlay (by decide) _ _, Word.bit_overlay_self (by decide) _ _,
        Word.bit_overlay_self (by decide) _ _⟩

/-! ## 3. The encoding of words and bytes -/

theorem isSingle_unindexed (h : IsSingle w) : IsSingle (unindexed w) := by
  cases h24 : w.bit 24 with
  | true =>
    rw [unindexed_of_pre h24]
    refine ⟨(Word.field_overlay (by decide) _ _).trans h.1, ?_⟩
    rw [Word.bit_overlay (by decide), Word.bit_overlay (by decide)]
    exact h.2
  | false =>
    rw [unindexed_of_post h24, bit26_of_isSingle h, if_pos rfl]
    exact ⟨(Word.field_overlay (by decide) _ _).trans h.1,
      .inl (Word.bit_overlay_self (by decide) _ _)⟩

/-- The movement is the same, and the offset is if it applies before the access. -/
theorem decodeSingle_unindexed (h : IsSingle w) :
    ∃ move offset, decodeSingle w = decodeTransfer w move offset ∧
      decodeSingle (unindexed w) =
        decodeTransfer (unindexed w) move (if w.bit 24 then offset else .constant 0) := by
  refine ⟨_, _, rfl, ?_⟩
  cases h24 : w.bit 24 with
  | true =>
    have hlow : w.overlay 0x00200000 0 &&& 0xFFF = w &&& 0xFFF :=
      Word.overlay_and_of_disjoint (by decide) _ _
    have hkind : shiftKind (w.overlay 0x00200000 0) = shiftKind w := by
      unfold shiftKind ShiftKind.ofBits
      rw [Word.shiftRight_overlay_and (by decide)]
    have hamount : shiftAmount (w.overlay 0x00200000 0) = shiftAmount w :=
      Word.field_overlay (by decide) _ _
    rw [unindexed_of_pre h24, if_pos rfl]
    unfold decodeSingle
    rw [Word.bit_overlay (by decide), Word.bit_overlay (by decide), Word.bit_overlay (by decide),
      Word.reg_overlay (by decide), hlow, hkind, hamount]
  | false =>
    have hlow : w.overlay 0x03200FFF 0x01000000 &&& 0xFFF = 0 :=
      Word.field_overlay_self (i := 0) (n := 12) (by decide) _ _
    rw [unindexed_of_post h24, bit26_of_isSingle h, if_pos rfl, if_neg (by decide)]
    unfold decodeSingle
    rw [Word.bit_overlay (i := 20) (by decide), Word.bit_overlay (i := 22) (by decide),
      Word.bit_overlay_self (i := 25) (by decide), if_neg (by decide), hlow]

/-! ## 4. The other encoding -/

theorem isExtra_unindexed (h : IsExtra w) : IsExtra (unindexed w) := by
  cases h24 : w.bit 24 with
  | true =>
    rw [unindexed_of_pre h24]
    unfold IsExtra at h ⊢
    rw [Word.field_overlay (by decide), Word.field_overlay (by decide),
      Word.bit_overlay (by decide), Word.bit_overlay (by decide)]
    exact h
  | false =>
    rw [unindexed_of_post h24, bit26_of_isExtra h, if_neg (by decide)]
    unfold IsExtra at h ⊢
    rw [Word.field_overlay (by decide), Word.field_overlay (by decide),
      Word.bit_overlay (by decide), Word.bit_overlay (by decide)]
    exact h

theorem decodeExtra_unindexed (h : IsExtra w) :
    ∃ move offset, decodeExtra w = decodeTransfer w move offset ∧
      decodeExtra (unindexed w) =
        decodeTransfer (unindexed w) move (if w.bit 24 then offset else .constant 0) := by
  refine ⟨_, _, rfl, ?_⟩
  have hmove {m : Word} (v : Word) (h20 : (~~~m).bit 20 = true) (h5 : (~~~m).field 5 2 = 3) :
      extraMovement (w.overlay m v) = extraMovement w := by
    unfold extraMovement
    rw [Word.bit_overlay h20, Word.field_overlay h5]
  cases h24 : w.bit 24 with
  | true =>
    rw [unindexed_of_pre h24, if_pos rfl]
    unfold decodeExtra
    rw [hmove _ (by decide) (by decide), Word.bit_overlay (by decide),
      Word.reg_overlay (by decide), Word.field_overlay (by decide), Word.field_overlay (by decide)]
  | false =>
    rw [unindexed_of_post h24, bit26_of_isExtra h, if_neg (by decide), if_neg (by decide)]
    unfold decodeExtra
    rw [hmove _ (by decide) (by decide), Word.bit_overlay_self (by decide), if_pos (by decide),
      Word.field_overlay_self (by decide), Word.field_overlay_self (by decide)]
    rfl

/-! ## 5. Decoding -/

/-- The opcode is that of a transfer, in either encoding. -/
def IsTransfer (w : Word) : Prop := IsSingle w ∨ IsExtra w

/-- The opcode without write-back is that of the plain transfer. -/
theorem decode_unindexed (h : IsTransfer w) :
    ∃ t : Transfer, (decode w = .transfer t ∧ decode (unindexed w) = .transfer t.unindexed) ∧
      t.base = w.reg 16 ∧ t.data = w.reg 12 ∧ t.up = w.bit 23 ∧ t.pre = w.bit 24 ∧
      t.writeBack = (!w.bit 24 || w.bit 21) := by
  obtain ⟨move, offset, hw, hplain⟩ : ∃ move offset, decode w = decodeTransfer w move offset ∧
      decode (unindexed w) =
        decodeTransfer (unindexed w) move (if w.bit 24 then offset else .constant 0) := by
    rcases h with h | h
    · rw [decode_of_isSingle h, decode_of_isSingle (isSingle_unindexed h)]
      exact decodeSingle_unindexed h
    · rw [decode_of_isExtra h, decode_of_isExtra (isExtra_unindexed h)]
      exact decodeExtra_unindexed h
  obtain ⟨hbase, hdata, hup, hpre, hback⟩ := unindexed_addressing w
  refine ⟨_, ⟨hw, hplain.trans ?_⟩, rfl, rfl, rfl, rfl, rfl⟩
  unfold decodeTransfer Transfer.unindexed
  rw [hbase, hdata, hup, hpre, hback]
  rfl

/-! ## 6. Execution -/

theorem Offset.value_congr {o : Offset}
    (h : ∀ r kind amount, o = .shifted r kind amount → r ≠ .pc) (c : Cpu) (pc pc' : Word) :
    o.value c pc = o.value c pc' := by
  cases o with
  | constant n => rfl
  | shifted r kind amount =>
    have hr := h r kind amount rfl
    unfold value
    dsimp only
    rw [Cpu.operand_of_ne hr, Cpu.operand_of_ne hr]

namespace Transfer

/-- The registers that a transfer moves to or from memory. -/
def registers (t : Transfer) : List Reg :=
  match t.move with
  | .load _ | .store _ => [t.data]
  | .loadPair | .storePair => [t.data.even, t.data.odd]

/-- The registers that a transfer loads. -/
def loaded (t : Transfer) : List Reg :=
  match t.move with
  | .load _ => [t.data]
  | .loadPair => [t.data.even, t.data.odd]
  | .store _ | .storePair => []

/-- The program counter is none of the registers of the transfer. -/
structure AvoidsPc (t : Transfer) : Prop where
  base : t.base ≠ .pc
  data : .pc ∉ t.registers
  offset (r : Reg) (kind : ShiftKind) (amount : Word) : t.offset = .shifted r kind amount → r ≠ .pc

/-- The base moved by the offset, as a transfer that avoids the program counter sees them. -/
def movedBase (t : Transfer) (c : Cpu) : Word :=
  let n := t.offset.value c 0
  if t.up then c.reg t.base + n else c.reg t.base - n

variable {t : Transfer}

theorem moved_eq (h : t.AvoidsPc) (c : Cpu) (address : Word) :
    t.moved c address = t.movedBase c := by
  unfold moved movedBase
  rw [Cpu.operand_of_ne h.base, Offset.value_congr h.offset c (address + 8) 0]

theorem target_eq (h : t.AvoidsPc) (c : Cpu) (address : Word) :
    t.target c address = if t.pre then t.movedBase c else c.reg t.base := by
  unfold target
  rw [moved_eq h, Cpu.operand_of_ne h.base]

/-- The plain transfer goes to the same address. -/
theorem target_unindexed (h : t.AvoidsPc) (c : Cpu) (address : Word) :
    t.unindexed.target c address = if t.pre then t.movedBase c else c.reg t.base := by
  show t.unindexed.moved c address = _
  cases hpre : t.pre with
  | true =>
    have hoffset : t.unindexed.moved c address = t.moved c address := by
      unfold moved unindexed
      rw [hpre]
      rfl
    rw [hoffset, moved_eq h, if_pos rfl]
  | false =>
    unfold moved unindexed
    rw [hpre, Cpu.operand_of_ne h.base]
    show (if t.up then c.reg t.base + 0 else c.reg t.base - 0) = c.reg t.base
    rw [UInt32.add_zero, UInt32.sub_zero, ite_self]

variable {β : Type} [Bus β]

/-- Memory's part in a transfer: the values that are loaded, and memory after it. -/
def exchange (t : Transfer) (stored : Reg → Word) (bus : β) (target : Word) : List Word × β :=
  match t.move with
  | .load kind =>
    let (v, bus) := kind.read bus target
    ([v], bus)
  | .store kind => ([], kind.write bus target (stored t.data))
  | .loadPair =>
    let (lo, bus) := Bus.read32 bus target
    let (hi, bus) := Bus.read32 bus (target + 4)
    ([lo, hi], bus)
  | .storePair =>
    ([], Bus.write32 (Bus.write32 bus target (stored t.data.even)) (target + 4)
      (stored t.data.odd))

theorem length_exchange (t : Transfer) (stored : Reg → Word) (bus : β) (target : Word) :
    t.loaded.length = (t.exchange stored bus target).1.length := by
  unfold loaded exchange
  cases t.move <;> rfl

theorem exchange_congr {f g : Reg → Word} (h : ∀ r ∈ t.registers, f r = g r) (bus : β)
    (target : Word) : t.exchange f bus target = t.exchange g bus target := by
  unfold registers at h
  unfold exchange
  cases hmove : t.move with
  | load | loadPair => rfl
  | store kind =>
    rw [hmove] at h
    dsimp only
    rw [h t.data List.mem_cons_self]
  | storePair =>
    rw [hmove] at h
    dsimp only
    rw [h t.data.even List.mem_cons_self, h t.data.odd (List.mem_cons_of_mem _ List.mem_cons_self)]

/-- The processor's part: the base is written first, and then the values that are loaded. -/
theorem execute_eq_exchange (t : Transfer) (c : Cpu) (bus : β) (address : Word) :
    t.execute c bus address =
      let x := t.exchange (fun r => c.operand r (address + 12)) bus (t.target c address)
      ((if t.writeBack then c.setReg t.base (t.moved c address) else c).setRegs t.loaded x.1,
        x.2) := by
  unfold execute exchange loaded
  cases t.move <;> rfl

/-- Away from the program counter what is stored is what the registers hold. -/
theorem exchange_operand (h : t.AvoidsPc) (c : Cpu) (bus : β) (address target : Word) :
    t.exchange (fun r => c.operand r address) bus target = t.exchange c.reg bus target :=
  exchange_congr (fun _ hr => Cpu.operand_of_ne (fun heq => h.data (heq ▸ hr)) c address) bus target

end Transfer

end Arm

/-- A register that is not among those of a list may as well be written after them, and one that is
need not be written at all. -/
theorem Cpu.setRegs_setReg (c : Cpu) (r : Reg) (v : Word) {rs : List Reg} {vs : List Word}
    (h : rs.length = vs.length) :
    (c.setReg r v).setRegs rs vs =
      if r ∈ rs then c.setRegs rs vs else (c.setRegs rs vs).setReg r v := by
  induction rs generalizing c vs with
  | nil => rfl
  | cons s rs ih =>
    cases vs with
    | nil => cases h
    | cons w vs =>
      have hlength : rs.length = vs.length := Nat.succ.inj h
      show ((c.setReg r v).setReg s w).setRegs rs vs =
        if r ∈ s :: rs then (c.setReg s w).setRegs rs vs
        else ((c.setReg s w).setRegs rs vs).setReg r v
      by_cases heq : r = s
      · subst heq
        rw [setReg_setReg_self, if_pos List.mem_cons_self]
      · rw [setReg_comm heq, ih _ hlength]
        by_cases hmem : r ∈ rs
        · rw [if_pos hmem, if_pos (List.mem_cons_of_mem s hmem)]
        · rw [if_neg hmem, if_neg (mt List.mem_cons.1 (not_or.2 ⟨heq, hmem⟩))]

namespace Arm

variable {w : Word} {β : Type} [Bus β]

namespace Transfer

variable {t : Transfer}

theorem execute_unindexed (h : t.AvoidsPc) (c : Cpu) (bus : β) (address : Word) :
    t.unindexed.execute c bus address =
      let x := t.exchange c.reg bus (if t.pre then t.movedBase c else c.reg t.base)
      (c.setRegs t.loaded x.1, x.2) := by
  have hexchange (f : Reg → Word) (target : Word) :
      t.unindexed.exchange f bus target = t.exchange f bus target := rfl
  have hloaded : t.unindexed.loaded = t.loaded := rfl
  have hback : t.unindexed.writeBack = false := rfl
  rw [execute_eq_exchange, target_unindexed h, hexchange, hloaded, hback, exchange_operand h]
  rfl

/-- A transfer that is written back is the plain one and the move of the base, which loses against a
loaded value. -/
theorem execute_eq_unindexed (h : t.AvoidsPc) (hback : t.writeBack = true) (c : Cpu) (bus : β)
    (address address' : Word) :
    let plain := t.unindexed.execute c bus address'
    t.execute c bus address =
      (if t.base ∈ t.loaded then plain.1 else plain.1.setReg t.base (t.movedBase c), plain.2) := by
  intro plain
  have hplain : plain = _ := execute_unindexed h c bus address'
  rw [hplain, execute_eq_exchange, hback, if_pos rfl, target_eq h, moved_eq h, exchange_operand h]
  dsimp only
  rw [Cpu.setRegs_setReg _ _ _ (length_exchange _ _ _ _)]

end Transfer

/-! ## 7. Indexed transfers -/

/-- An opcode without write-back is executed under the same condition. -/
theorem condition_unindexed (w : Word) : unindexed w >>> 28 = w >>> 28 := by
  have hfield (x : Word) : x.field 28 4 = x >>> 28 := by
    apply UInt32.toNat_inj.1
    have hlt := x.toNat_lt
    rw [Word.toNat_field (by decide) (by decide), Word.toNat_shiftRight (by decide)]
    exact Nat.mod_eq_of_lt (by
      show x.toNat / 2 ^ 28 < 2 ^ 4
      omega)
  rw [← hfield, ← hfield]
  cases h24 : w.bit 24 with
  | true =>
    rw [unindexed_of_pre h24, Word.field_overlay (by decide)]
  | false =>
    rw [unindexed_of_post h24]
    split
    · exact Word.field_overlay (by decide) _ _
    · exact Word.field_overlay (by decide) _ _

/-- A transfer with P clear or W set is, for every register and bus state, the transfer at the same
address that its opcode encodes with P set and W clear, and then the base moved by the offset, both
read before; a base that is loaded keeps the loaded value.  Values are stored as they were before,
that of the base too.  Both opcodes are executed under the same condition and take as long. -/
theorem execute_indexed (h : IsTransfer w) (hindexed : w.bit 24 = false ∨ w.bit 21 = true) :
    ∃ t : Transfer, (decode w = .transfer t ∧ decode (unindexed w) = .transfer t.unindexed) ∧
      (unindexed w >>> 28 = w >>> 28 ∧ (decode (unindexed w)).cost = (decode w).cost) ∧
      (t.base = w.reg 16 ∧ t.data = w.reg 12 ∧ t.up = w.bit 23 ∧ t.pre = w.bit 24) ∧
      (t.AvoidsPc → ∀ (c : Cpu) (bus : β) (address address' : Word),
        let n := t.offset.value c (address + 8)
        let moved := if t.up then c.reg t.base + n else c.reg t.base - n
        let target := if t.pre then moved else c.reg t.base
        let after := execute (decode w) c bus address
        let plain := execute (decode (unindexed w)) c bus address'
        t.unindexed.target c address' = target ∧
        after = (if t.base ∈ t.loaded then plain.1 else plain.1.setReg t.base moved, plain.2) ∧
        (∀ kind, t.move = .store kind → after.2 = kind.write bus target (c.reg t.data)) ∧
        (t.move = .storePair → after.2 =
          Bus.write32 (Bus.write32 bus target (c.reg t.data.even)) (target + 4)
            (c.reg t.data.odd))) := by
  obtain ⟨t, ⟨hw, hplain⟩, hbase, hdata, hup, hpre, hback⟩ := decode_unindexed h
  have hcost : (decode (unindexed w)).cost = (decode w).cost := by
    rw [hw, hplain]
    rfl
  refine ⟨t, ⟨hw, hplain⟩, ⟨condition_unindexed w, hcost⟩, ⟨hbase, hdata, hup, hpre⟩, ?_⟩
  intro havoids c bus address address' n moved target after plain
  have hwriteBack : t.writeBack = true := by
    rw [hback]
    rcases hindexed with h24 | h21
    · rw [h24]
      rfl
    · rw [h21]
      exact Bool.or_true _
  have hmoved : moved = t.movedBase c := by
    show (if t.up then c.reg t.base + t.offset.value c (address + 8)
      else c.reg t.base - t.offset.value c (address + 8)) = _
    rw [Offset.value_congr havoids.offset c (address + 8) 0]
    rfl
  have htarget : target = if t.pre then t.movedBase c else c.reg t.base := by
    rw [← hmoved]
  have hplain' : plain = t.unindexed.execute c bus address' :=
    congrArg (execute · c bus address') hplain
  have hafter : after =
      (if t.base ∈ t.loaded then plain.1 else plain.1.setReg t.base moved, plain.2) := by
    rw [hplain', hmoved]
    exact (congrArg (execute · c bus address) hw).trans
      (Transfer.execute_eq_unindexed havoids hwriteBack c bus address address')
  have hmemory : after.2 = (t.exchange c.reg bus target).2 := by
    rw [hafter, hplain', Transfer.execute_unindexed havoids, htarget]
  refine ⟨(Transfer.target_unindexed havoids c address').trans htarget.symm, hafter,
    fun kind hmove => ?_, fun hmove => ?_⟩
  · rw [hmemory, Transfer.exchange, hmove]
  · rw [hmemory, Transfer.exchange, hmove]

/-- `STR r1, [r1, #4]!` stores the old base, and `LDR r0, [r0], r2, RRX` keeps what it loads. -/
theorem execute_indexed_base :
    let ram := FlatRam.zeros 64
    let c := Cpu.initial.setRegs [0, 1, 2] [0x20, 0x10, 3]
    (IsTransfer 0xE5A11004 ∧ IsTransfer 0xE6900062) ∧
    execute (decode 0xE5A11004) c ram 0 = (c.setReg 1 0x14, Bus.write32 ram 0x14 0x10) ∧
    execute (decode 0xE6900062) c ram 0 = execute (decode 0xE5900000) c ram 0 := by
  intro ram c
  have hstore : IsTransfer 0xE5A11004 := .inl ⟨by decide, .inl (by decide)⟩
  have hload : IsTransfer 0xE6900062 := .inl ⟨by decide, .inr (by decide)⟩
  refine ⟨⟨hstore, hload⟩, ?_, ?_⟩
  · obtain ⟨t, ⟨hw, hplain⟩, -, -, hexecute⟩ :=
      execute_indexed (β := FlatRam) hstore (.inr (by decide))
    obtain rfl : Transfer.mk (.store .word) 1 1 (.constant 4) true true true = t :=
      Instruction.transfer.inj ((by decide : _ = decode 0xE5A11004).trans hw)
    have havoids : Transfer.AvoidsPc ⟨.store .word, 1, 1, .constant 4, true, true, true⟩ :=
      ⟨by decide, by decide, fun _ _ _ => nofun⟩
    obtain ⟨-, hafter, hmemory, -⟩ := hexecute havoids c ram 0 0
    have hcpu : (execute (decode (unindexed 0xE5A11004)) c ram 0).1 = c :=
      congrArg (fun i => (execute i c ram 0).1) hplain
    refine Prod.ext ?_ (hmemory .word rfl)
    rw [hafter, hcpu]
    rfl
  · obtain ⟨t, ⟨hw, hplain⟩, -, -, hexecute⟩ :=
      execute_indexed (β := FlatRam) hload (.inl (by decide))
    obtain rfl : Transfer.mk (.load .word) 0 0 (.shifted 2 .ror 0) true false true = t :=
      Instruction.transfer.inj ((by decide : _ = decode 0xE6900062).trans hw)
    have havoids : Transfer.AvoidsPc ⟨.load .word, 0, 0, .shifted 2 .ror 0, true, false, true⟩ :=
      ⟨by decide, by decide, fun _ _ _ h => by
        cases h
        decide⟩
    exact (hexecute havoids c ram 0 0).2.1

end Arm

end Handheld
