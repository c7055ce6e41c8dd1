import Handheld.Bus.Recorded
import Handheld.Proofs.Arm.TransferEncoding
import Handheld.Proofs.Thumb.Counterpart
import Handheld.Proofs.Thumb.Formats

/-!
# 16-bit loads and stores in 32-bit instructions

The 16-bit instructions that move `r0`-`r7` to and from memory at a base and an offset, and those
that push and pop, have counterparts among the 32-bit ones.  A counterpart reads and writes the same
bytes in the same order and loads the same registers, so the two cannot be told apart on any bus.
-/

namespace Handheld

namespace Thumb

open Cpu

/-! ## 1. Counterparts -/

def Operand.counterpartOffset : Operand → Arm.Offset
  | register r => .shifted r .lsl 0
  | constant n => .constant n

/-- A transfer at a base plus an offset that leaves the base as it is. -/
def plainTransfer (move : Arm.Movement) (data base : Reg) (offset : Operand) : Arm.Transfer where
  move
  data
  base
  offset := offset.counterpartOffset
  up := true
  pre := true
  writeBack := false

/-- The 32-bit instruction that moves what a 16-bit one does.  A pop of the program counter has
none, since it stays with 16-bit instructions. -/
def Instruction.memoryCounterpart? : Instruction → Option Arm.Instruction
  | load kind dest base offset => some (.transfer (plainTransfer (.load kind) dest base offset))
  | store kind data base offset => some (.transfer (plainTransfer (.store kind) data base offset))
  | push regs => some (.push regs)
  | pop regs false => some (.pop regs)
  | _ => none

def Operand.AvoidsPc : Operand → Prop
  | register r => r ≠ .pc
  | constant _ => True

/-- The instruction moves `r0`-`r14` at a base among them, or pops some of `r0`-`r7`. -/
def Instruction.AvoidsPc : Instruction → Prop
  | load _ dest base offset => dest ≠ .pc ∧ base ≠ .pc ∧ offset.AvoidsPc
  | store _ data base offset => data ≠ .pc ∧ base ≠ .pc ∧ offset.AvoidsPc
  | push regs => ∀ r ∈ regs, r ≠ .pc
  | pop regs withPc => (∀ r ∈ regs, r.val < 8) ∧ withPc = false
  | _ => False

end Thumb

/-! ## 2. Registers written in place of a counterpart -/

namespace Cpu

theorem armAt_setReg {r : Reg} (h : r ≠ .pc) (c : Cpu) (v next : Word) :
    (c.setReg r v).armAt next = (c.armAt next).setReg r v :=
  setReg_comm h (c.setThumb false) v next

theorem armAt_setRegs {rs : List Reg} (h : ∀ r ∈ rs, r ≠ .pc) (c : Cpu) (vs : List Word)
    (next : Word) : (c.setRegs rs vs).armAt next = (c.armAt next).setRegs rs vs :=
  setRegs_comm (f := fun c => c.armAt next) (fun r hr c v => armAt_setReg (h r hr) c v next) c vs

end Cpu

namespace Thumb

open Cpu

/-! ## 3. Executing a counterpart -/

theorem value_counterpartOffset {o : Operand} (h : o.AvoidsPc) (c : Cpu) (next pc : Word) :
    o.counterpartOffset.value (c.armAt next) pc = o.value c := by
  cases o with
  | register r => exact operand_armAt h c next pc
  | constant n => rfl

theorem target_plainTransfer {base : Reg} {offset : Operand} (hbase : base ≠ .pc)
    (hoffset : offset.AvoidsPc) (move : Arm.Movement) (data : Reg) (c : Cpu) (next address : Word) :
    (plainTransfer move data base offset).target (c.armAt next) address =
      c.reg base + offset.value c := by
  show (c.armAt next).operand base (address + 8) +
    offset.counterpartOffset.value (c.armAt next) (address + 8) = _
  rw [operand_armAt hbase, value_counterpartOffset hoffset]

section Memory

variable {β : Type} [Bus β]

theorem execute_load {kind : Load} {dest base : Reg} {offset : Operand} (hdest : dest ≠ .pc)
    (hbase : base ≠ .pc) (hoffset : offset.AvoidsPc) (c : Cpu) (bus : β)
    (next address : Word) :
    (plainTransfer (.load kind) dest base offset).execute (c.armAt next) bus address =
      ((load c bus kind dest (c.reg base + offset.value c)).1.armAt next,
        (load c bus kind dest (c.reg base + offset.value c)).2) := by
  unfold Arm.Transfer.execute
  rw [target_plainTransfer hbase hoffset]
  show ((c.armAt next).setReg dest _, _) = _
  rw [← armAt_setReg hdest]
  rfl

theorem execute_store {kind : Store} {data base : Reg} {offset : Operand} (hdata : data ≠ .pc)
    (hbase : base ≠ .pc) (hoffset : offset.AvoidsPc) (c : Cpu) (bus : β)
    (next address : Word) :
    (plainTransfer (.store kind) data base offset).execute (c.armAt next) bus address =
      (c.armAt next, kind.write bus (c.reg base + offset.value c) (c.reg data)) := by
  unfold Arm.Transfer.execute
  rw [target_plainTransfer hbase hoffset]
  show (c.armAt next, kind.write bus _ ((c.armAt next).operand data (address + 12))) = _
  rw [operand_armAt hdata]

theorem execute_push {regs : List Reg} (h : ∀ r ∈ regs, r ≠ .pc) (c : Cpu) (bus : β)
    (next address : Word) :
    Arm.push (c.armAt next) bus regs address =
      ((push c bus regs).1.armAt next, (push c bus regs).2) := by
  have hvalues : (regs.map fun r => (c.armAt next).operand r (address + 12)) = regs.map c.reg :=
    List.map_congr_left fun r hr => operand_armAt (h r hr) c next (address + 12)
  unfold Arm.push push
  dsimp only
  rw [hvalues, reg_armAt (by decide), ← armAt_setReg (by decide)]

/-- The two pops move the stack pointer on different sides of the loads, and no load reaches it. -/
theorem execute_pop {regs : List Reg} (h : ∀ r ∈ regs, r.val < 8) (c : Cpu) (bus : β)
    (next : Word) :
    Arm.pop (c.armAt next) bus regs =
      ((pop c bus regs false).1.armAt next, (pop c bus regs false).2) := by
  have hpc : ∀ r ∈ regs, r ≠ .pc := fun r hr => ne_pc_of_lt (h r hr)
  have hsp : ∀ r ∈ regs, r ≠ .sp := fun r hr =>
    (Reg.ne_of_val_lt (Nat.lt_of_lt_of_le (h r hr) (by decide))).1
  unfold Arm.pop pop
  dsimp only
  rw [reg_armAt (by decide), ← armAt_setReg (by decide), ← armAt_setRegs hpc,
    ← setRegs_comm (f := fun c => c.setReg .sp _) fun r hr c v => setReg_comm (hsp r hr) c v _]
  rfl

/-- A counterpart moves what the 16-bit instruction moves. -/
theorem execute_memoryCounterpart {i : Instruction} {a : Arm.Instruction} (h : i.AvoidsPc)
    (ha : i.memoryCounterpart? = some a) (c : Cpu) (bus : β) (next address address' : Word) :
    Arm.execute a (c.armAt next) bus address' =
      ((execute i c bus address).1.armAt next, (execute i c bus address).2) := by
  cases i with
  | load kind dest base offset =>
    obtain ⟨hdest, hbase, hoffset⟩ := h
    obtain rfl := Option.some.inj ha
    exact execute_load hdest hbase hoffset c bus next address'
  | store kind data base offset =>
    obtain ⟨hdata, hbase, hoffset⟩ := h
    obtain rfl := Option.some.inj ha
    exact execute_store hdata hbase hoffset c bus next address'
  | push regs =>
    obtain rfl := Option.some.inj ha
    exact execute_push h c bus next address'
  | pop regs withPc =>
    obtain ⟨hregs, rfl⟩ := h
    obtain rfl := Option.some.inj ha
    exact execute_pop hregs c bus next
  | _ => exact h.elim

/-- Nothing but `r0`-`r14` and the bus is reached. -/
theorem pc_cpsr_execute_moving {i : Instruction} (h : i.AvoidsPc) (c : Cpu) (bus : β)
    (address : Word) :
    (execute i c bus address).1.pc = c.pc ∧ (execute i c bus address).1.cpsr = c.cpsr := by
  cases i with
  | load kind dest base offset => exact ⟨reg_setReg_ne c _ h.1, rfl⟩
  | store kind data base offset => exact ⟨rfl, rfl⟩
  | push regs => exact ⟨reg_setReg_ne c _ (by decide), rfl⟩
  | pop regs withPc =>
    obtain ⟨hregs, rfl⟩ := h
    have hpc : .pc ∉ regs := fun hmem => ne_pc_of_lt (hregs _ hmem) rfl
    exact ⟨(reg_setReg_ne _ _ (by decide)).trans (reg_setRegs_of_not_mem hpc c _),
      cpsr_setRegs c regs _⟩
  | _ => exact h.elim

end Memory

/-! ## 4. Opcodes -/

/-- The load and store formats at a register or constant offset (`5`-`8` in the highest digit), the
stack-relative format (`9`), push (`B4`, `B5`), and pop without the program counter (`BC`). -/
def MovesData (op : Half) : Prop :=
  (0x5000 ≤ op ∧ op < 0xA000) ∨ (0xB400 ≤ op ∧ op < 0xB600) ∨ (0xBC00 ≤ op ∧ op < 0xBD00)

instance (op : Half) : Decidable (MovesData op) := inferInstanceAs (Decidable (_ ∨ _ ∨ _))

section Translates

variable {w : Word} {t : Translation}

/-- A counterpart is there for instructions that keep away from the program counter only. -/
theorem Moves.avoidsPc {i : Instruction} {a : Arm.Instruction} (h : Moves w i)
    (ha : i.memoryCounterpart? = some a) : i.AvoidsPc := by
  have hlow (i : Word) : w.lowReg i ≠ .pc := ne_pc_of_lt (Word.val_lowReg_lt w i)
  have hregs : ∀ r ∈ (w.field 0 8).regList, r.val < 8 := fun r hr =>
    Word.val_lt_of_mem_regList_field hr
  cases h with
  | storeWordAt | storeHalfAt | storeByteAt | loadSignedByteAt | loadWordAt | loadHalfAt
  | loadByteAt | loadSignedHalfAt => exact ⟨hlow 0, hlow 3, hlow 6⟩
  | storeWord | loadWord | storeByte | loadByte | storeHalf | loadHalf =>
    exact ⟨hlow 0, hlow 3, trivial⟩
  | storeStack | loadStack => exact ⟨hlow 8, by decide, trivial⟩
  | push =>
    intro r hr
    rcases List.mem_append.1 hr with hr | hr
    · exact ne_pc_of_lt (hregs r hr)
    · rw [List.mem_ite_nil_right] at hr
      rw [List.mem_singleton.1 hr.2]
      decide
  | pop =>
    refine ⟨hregs, ?_⟩
    cases hpc : w.bit 8 with
    | true =>
      rw [hpc] at ha
      cases ha
    | false => rfl
  | loadLiteral | storeMultiple | loadMultiple => cases ha

/-- The 32-bit opcode `word` is that of the counterpart of what the 16-bit opcode `w` moves. -/
def TranslatesMove (w word : Word) : Prop :=
  ∃ i a, Moves w i ∧ i.memoryCounterpart? = some a ∧ Arm.decode word = a ∧
    Condition.ofBits (word >>> 28) = .al

theorem encode?_plainTransfer {move : Arm.Movement} {data base : Reg} {offset : Operand}
    {low : Word} (h : (plainTransfer move data base offset).encodeOffset? = some low) :
    (plainTransfer move data base offset).encode? =
      some (0xE1800000 + 0x10000 * base.code + 0x1000 * data.code + move.code + low) := by
  have hfixed : (0xE0000000 : Word) + 0x1000000 * true.toUInt32 + 0x800000 * true.toUInt32 +
      0x200000 * (true && false).toUInt32 = 0xE1800000 := by decide
  unfold Arm.Transfer.encode?
  rw [h, ← hfixed]
  rfl

theorem TranslatesMove.of_transfer {i : Instruction} {move : Arm.Movement} {data base : Reg}
    {offset : Operand} {low word : Word} (h : Moves w i)
    (hi : i.memoryCounterpart? = some (.transfer (plainTransfer move data base offset)))
    (hlow : (plainTransfer move data base offset).encodeOffset? = some low)
    (hword : 0xE1800000 + 0x10000 * base.code + 0x1000 * data.code + move.code + low = word) :
    TranslatesMove w word := by
  subst hword
  exact ⟨i, _, h, hi, Arm.decode_transfer (encode?_plainTransfer hlow)⟩

theorem translatesMove_registerOffsets (ht : t ∈ registerOffsets) (h : t.Applies w) :
    TranslatesMove w (t.word w) := by
  simp only [registerOffsets, List.mem_cons, List.not_mem_nil, or_false] at ht
  rcases ht with rfl | rfl | rfl | rfl | rfl | rfl | rfl | rfl
  · exact .of_transfer (.storeWordAt h) rfl rfl (by grind)
  · exact .of_transfer (.storeHalfAt h) rfl rfl (by grind)
  · exact .of_transfer (.storeByteAt h) rfl rfl (by grind)
  · exact .of_transfer (.loadSignedByteAt h) rfl rfl (by grind)
  · exact .of_transfer (.loadWordAt h) rfl rfl (by grind)
  · exact .of_transfer (.loadHalfAt h) rfl rfl (by grind)
  · exact .of_transfer (.loadByteAt h) rfl rfl (by grind)
  · exact .of_transfer (.loadSignedHalfAt h) rfl rfl (by grind)

/-- Words are counted in fours. -/
theorem encodeSingle?_shiftLeft {n : Word} (h : n < 0x100) :
    (Arm.Offset.constant (n <<< 2)).encodeSingle? = some (4 * n) := by
  have hlt : n.toNat < 0x100 := UInt32.lt_iff_toNat_lt.1 h
  have hfour : n <<< 2 = 4 * n := by
    apply UInt32.toNat_inj.1
    rw [UInt32.toNat_shiftLeft, UInt32.toNat_mul, Nat.shiftLeft_eq, Nat.mul_comm]
    rfl
  have hfit : 4 * n < 0x1000 := by
    rw [UInt32.lt_iff_toNat_lt, UInt32.toNat_mul]
    show 4 * n.toNat % 2 ^ 32 < 0x1000
    omega
  rw [hfour]
  exact if_pos hfit

/-- Halfwords are counted in twos, and their offset is split between its nibbles. -/
theorem encodeExtra?_shiftLeft (w : Word) :
    (Arm.Offset.constant (w.field 6 5 <<< 1)).encodeExtra? =
      some (0x400000 + 0x100 * w.field 9 2 + 2 * w.field 6 3) := by
  have hwhole : (w.field 6 5).toNat = w.toNat / 2 ^ 6 % 2 ^ 5 :=
    Word.toNat_field (by decide) (by decide) w
  have hhigh : (w.field 9 2).toNat = w.toNat / 2 ^ 9 % 2 ^ 2 :=
    Word.toNat_field (by decide) (by decide) w
  have hlow : (w.field 6 3).toNat = w.toNat / 2 ^ 6 % 2 ^ 3 :=
    Word.toNat_field (by decide) (by decide) w
  have htwice : (w.field 6 5 <<< 1).toNat = w.toNat / 2 ^ 6 % 2 ^ 5 * 2 := by
    rw [UInt32.toNat_shiftLeft, hwhole, Nat.shiftLeft_eq]
    show _ * 2 % 2 ^ 32 = _
    omega
  have hfit : w.field 6 5 <<< 1 < 0x100 := by
    rw [UInt32.lt_iff_toNat_lt, htwice]
    show _ < 0x100
    omega
  have hdiv : w.field 6 5 <<< 1 / 16 = w.field 9 2 := by
    apply UInt32.toNat_inj.1
    rw [UInt32.toNat_div, htwice, hhigh]
    show _ / 16 = _
    omega
  have hmod : w.field 6 5 <<< 1 % 16 = 2 * w.field 6 3 := by
    apply UInt32.toNat_inj.1
    rw [UInt32.toNat_mod, UInt32.toNat_mul, htwice, hlow]
    show _ % 16 = 2 * _ % 2 ^ 32
    omega
  refine (if_pos hfit).trans ?_
  rw [hdiv, hmod]

theorem translatesMove_constantOffsets (ht : t ∈ constantOffsets) (h : t.Applies w) :
    TranslatesMove w (t.word w) := by
  have hsmall : w.field 6 5 < 0x20 := Word.field_lt (by decide) (by decide) rfl w
  have hwords := encodeSingle?_shiftLeft (UInt32.lt_trans hsmall (by decide))
  have hbytes : (Arm.Offset.constant (w.field 6 5)).encodeSingle? = some (w.field 6 5) :=
    if_pos (UInt32.lt_trans hsmall (by decide))
  have hhalves := encodeExtra?_shiftLeft w
  simp only [constantOffsets, List.mem_cons, List.not_mem_nil, or_false] at ht
  rcases ht with rfl | rfl | rfl | rfl | rfl | rfl
  · exact .of_transfer (.storeWord h) rfl hwords (by grind)
  · exact .of_transfer (.loadWord h) rfl hwords (by grind)
  · exact .of_transfer (.storeByte h) rfl hbytes (by grind)
  · exact .of_transfer (.loadByte h) rfl hbytes (by grind)
  · exact .of_transfer (.storeHalf h) rfl hhalves (by grind)
  · exact .of_transfer (.loadHalf h) rfl hhalves (by grind)

/-- A block move takes the low registers from the field of a 16-bit opcode, and the others from the
fixed bits. -/
theorem block_of_field {u : Word} (hu : u &&& 0xF00000FF = 0xE0000000) (w : Word) :
    (u + w.field 0 8).regList = (w.field 0 8).regList ++ u.regList ∧
      (u + w.field 0 8) &&& 0x0FFF0000 = u &&& 0x0FFF0000 ∧
      Condition.ofBits ((u + w.field 0 8) >>> 28) = .al := by
  have hlow : u &&& 0xFF = 0 := Word.and_eq_of_and_eq hu rfl
  have htop : (u + w.field 0 8) &&& 0xF0000000 = 0xE0000000 :=
    (Word.add_field_and hlow rfl w).trans (Word.and_eq_of_and_eq hu rfl)
  have hfield : (u + w.field 0 8).toNat / 2 ^ 28 % 2 ^ 4 = 14 :=
    (Word.and_eq_iff_field rfl rfl _).1 htop
  have hlt := (u + w.field 0 8).toNat_lt
  exact ⟨Word.regList_add_field hlow w, Word.add_field_and hlow rfl w,
    Condition.ofBits_al (by omega)⟩

theorem translatesMove_stackMoves (ht : t ∈ stackMoves) (h : t.Applies w) :
    TranslatesMove w (t.word w) := by
  have hwords : (Arm.Offset.constant (w.field 0 8 <<< 2)).encodeSingle? =
      some (4 * w.field 0 8) :=
    encodeSingle?_shiftLeft (Word.field_lt (by decide) (by decide) rfl w)
  have hsp : Reg.sp.code = 13 := rfl
  simp only [stackMoves, List.mem_cons, List.not_mem_nil, or_false] at ht
  rcases ht with rfl | rfl | rfl | rfl
  · exact .of_transfer (.storeStack h) rfl hwords (by grind)
  · exact .of_transfer (.loadStack h) rfl hwords (by grind)
  · -- The link register is bit 14, and the other bits are fixed.
    have hlink : ∀ link : Bool, let u : Word := 0xE92D0000 + 0x4000 * link.toUInt32
        u &&& 0xF00000FF = 0xE0000000 ∧ u &&& 0x0FFF0000 = 0x092D0000 ∧
          u.regList = if link then [.lr] else [] := by decide
    obtain ⟨hfixed, hpush, hregs⟩ := hlink (w.bit 8)
    rw [← Word.field_one] at hfixed hpush hregs
    obtain ⟨hlist, hkind, hcond⟩ := block_of_field hfixed w
    have hword : Translation.word ⟨0xFE00, 0xB400, 0xE92D0000, [⟨0, 8, 1⟩, ⟨8, 1, 0x4000⟩]⟩ w =
        0xE92D0000 + 0x4000 * w.field 8 1 + w.field 0 8 := by grind
    rw [hword]
    refine ⟨_, _, .push h, rfl, ?_, hcond⟩
    rw [Arm.decode_push (hkind.trans hpush), hlist, hregs]
  · obtain ⟨hlist, hkind, hcond⟩ := block_of_field (u := 0xE8BD0000) rfl w
    have hword : Translation.word ⟨0xFF00, 0xBC00, 0xE8BD0000, [⟨0, 8, 1⟩]⟩ w =
        0xE8BD0000 + w.field 0 8 := by grind
    have hpc : w.bit 8 = false := Word.bit_eq_of_and_eq h (by decide)
    have hpop : w &&& 0xFE00 = 0xBC00 := Word.and_eq_of_and_eq h rfl
    rw [hword]
    refine ⟨_, _, .pop hpop, congrArg (Instruction.memoryCounterpart? <| .pop _ ·) hpc, ?_, hcond⟩
    rw [Arm.decode_pop hkind, hlist]
    exact congrArg Arm.Instruction.pop (List.append_nil _)

/-- The table says of each format what the counterpart of its opcodes is. -/
theorem translatesMove_movements (ht : t ∈ movements) (h : t.Applies w) :
    TranslatesMove w (t.word w) := by
  simp only [movements, List.mem_append] at ht
  rcases ht with (ht | ht) | ht
  · exact translatesMove_registerOffsets ht h
  · exact translatesMove_constantOffsets ht h
  · exact translatesMove_stackMoves ht h

end Translates

section Memory

variable {β : Type} [Bus β]

/-- Every 16-bit opcode that moves data is of a format that the table of movements translates.  The
32-bit opcode that the table gives is always executed.  In the same state with the T flag clear and
the program counter anywhere, it ends in the state in which the 16-bit instruction ends, with the T
flag clear and the program counter where it was: the same `r0`-`r14`, banks and status word.  The two
make the same reads and writes of bytes in the same order and leave the bus in the same state.  The
16-bit instruction itself keeps the program counter and the status word. -/
theorem execute_eq_memoryCounterpart {op : Half} (hop : MovesData op) (c : Cpu)
    (bus : Recorded β) (next address address' : Word) :
    (∃ t ∈ movements, t.Applies op.toUInt32) ∧
      ∀ t ∈ movements, t.Applies op.toUInt32 →
        let word := t.word op.toUInt32
        let after := execute (decode op.toUInt32) c bus address
        let after' := Arm.execute (Arm.decode word) (c.armAt next) bus address'
        Condition.ofBits (word >>> 28) = .al ∧
          after'.1 = after.1.armAt next ∧ after'.2.accesses = after.2.accesses ∧
          after'.2.bus = after.2.bus ∧ after.1.pc = c.pc ∧ after.1.cpsr = c.cpsr := by
  have hw : op.toUInt32.toNat = op.toNat := UInt16.toNat_toUInt32 op
  simp only [MovesData, UInt16.le_iff_toNat_le, UInt16.lt_iff_toNat_lt, ← hw,
    UInt16.reduceToNat] at hop
  refine ⟨exists_movement rfl (by omega), fun t ht happlies => ?_⟩
  obtain ⟨i, a, hi, ha, hdecode, hcond⟩ := translatesMove_movements ht happlies
  have havoids := hi.avoidsPc ha
  obtain ⟨hpc, hcpsr⟩ := pc_cpsr_execute_moving havoids c bus address
  have hexecute := execute_memoryCounterpart havoids ha c bus next address address'
  dsimp only
  rw [hdecode, hi.decode_eq, hexecute]
  exact ⟨hcond, rfl, rfl, rfl, hpc, hcpsr⟩

end Memory

/-- `PUSH {r0, LR}` and `STMDB SP!, {r0, LR}`. -/
theorem execute_eq_memoryCounterpart_push :
    let c := (((Cpu.initial.setReg .sp 16).setReg .lr 0x103).setReg 0 0x11223344).setThumb true
    let ram := Recorded.start (FlatRam.zeros 16)
    let after := Arm.execute (Arm.decode 0xE92D4001) (c.armAt 0x104) ram 0x200
    MovesData 0xB501 ∧ after.1.reg .sp = 8 ∧
      after.2.writes = [(8, 0x44), (9, 0x33), (10, 0x22), (11, 0x11), (12, 0x03), (13, 0x01),
        (14, 0), (15, 0)] := by
  intro c ram after
  have hop : MovesData 0xB501 := by decide
  obtain ⟨-, hall⟩ := execute_eq_memoryCounterpart hop c ram 0x104 0x100 0x200
  let push : Translation := ⟨0xFE00, 0xB400, 0xE92D0000, [⟨0, 8, 1⟩, ⟨8, 1, 0x4000⟩]⟩
  obtain ⟨-, hexecute, haccesses, -⟩ := hall push (by decide) (by decide)
  have hword : push.word (0xB501 : Half).toUInt32 = 0xE92D4001 := by decide
  rw [hword] at hexecute haccesses
  refine ⟨hop, ?_, ?_⟩
  · show after.1.reg .sp = 8
    rw [show after.1 = _ from hexecute]
    decide
  · unfold Recorded.writes
    rw [show after.2.accesses = _ from haccesses]
    decide

end Thumb

end Handheld
