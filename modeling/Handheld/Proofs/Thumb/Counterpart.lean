import Handheld.Bus.FlatRam
import Handheld.Proofs.Effect
import Handheld.Proofs.Thumb.Formats
import Handheld.Proofs.Thumb.Translation

/-!
# 16-bit data processing in 32-bit instructions

Each 16-bit instruction that computes on `r0`-`r7` has a counterpart among the 32-bit ones, which
computes the same registers and flags.  This file defines the counterparts and proves that.
-/

namespace Handheld

namespace Thumb

/-! ## 1. Counterparts -/

/-- The second operand of an addition or subtraction. -/
def Operand.counterpart : Operand → Arm.Operand
  | register r => .shifted r .lsl 0
  | constant n => .constant n

/-- An operation with a constant, which is not rotated. -/
def ConstantOp.counterpart (op : ConstantOp) (r : Reg) (n : Word) : Arm.Instruction :=
  match op with
  | mov => .dataProcessing .mov true r .zero (.constant n)
  | cmp => .dataProcessing .cmp true .zero r (.constant n)
  | add => .dataProcessing .add true r r (.constant n)
  | sub => .dataProcessing .sub true r r (.constant n)

/-- An operation on two registers.  Shifts become moves of a shifted register, negation the reverse
subtraction from zero. -/
def AluOp.counterpart (op : AluOp) (dest source : Reg) : Arm.Instruction :=
  let source' : Arm.Operand := .shifted source .lsl 0
  match op with
  | and => .dataProcessing .and true dest dest source'
  | eor => .dataProcessing .eor true dest dest source'
  | lsl => .dataProcessing .mov true dest .zero (.shiftedBy dest .lsl source)
  | lsr => .dataProcessing .mov true dest .zero (.shiftedBy dest .lsr source)
  | asr => .dataProcessing .mov true dest .zero (.shiftedBy dest .asr source)
  | adc => .dataProcessing .adc true dest dest source'
  | sbc => .dataProcessing .sbc true dest dest source'
  | ror => .dataProcessing .mov true dest .zero (.shiftedBy dest .ror source)
  | tst => .dataProcessing .tst true .zero dest source'
  | neg => .dataProcessing .rsb true dest source (.constant 0)
  | cmp => .dataProcessing .cmp true .zero dest source'
  | cmn => .dataProcessing .cmn true .zero dest source'
  | orr => .dataProcessing .orr true dest dest source'
  | mul => .multiply false true dest dest source .zero
  | bic => .dataProcessing .bic true dest dest source'
  | mvn => .dataProcessing .mvn true dest .zero source'

/-- The 32-bit instruction that computes what a 16-bit one does. -/
def Instruction.counterpart? : Instruction → Option Arm.Instruction
  | shift kind amount dest source =>
    some (.dataProcessing .mov true dest .zero (.shifted source kind amount))
  | add dest left right => some (.dataProcessing .add true dest left right.counterpart)
  | subtract dest left right => some (.dataProcessing .sub true dest left right.counterpart)
  | withConstant op r n => some (op.counterpart r n)
  | alu op dest source => some (op.counterpart dest source)
  | _ => none

/-- The operand is one of `r0`-`r7` or a constant of one byte. -/
def Operand.IsLow : Operand → Prop
  | register r => r.val < 8
  | constant n => n < 0x100

/-- The instruction computes on `r0`-`r7` and on small constants, and does nothing else. -/
def Instruction.IsLow : Instruction → Prop
  | shift _ amount dest source => amount < 32 ∧ dest.val < 8 ∧ source.val < 8
  | add dest left right => dest.val < 8 ∧ left.val < 8 ∧ right.IsLow
  | subtract dest left right => dest.val < 8 ∧ left.val < 8 ∧ right.IsLow
  | withConstant _ r n => r.val < 8 ∧ n < 0x100
  | alu _ dest source => dest.val < 8 ∧ source.val < 8
  | _ => False

end Thumb

/-! ## 2. The state in which a counterpart executes -/

namespace Cpu

/-- The same state with 32-bit instructions selected and the program counter at `next`. -/
def armAt (c : Cpu) (next : Word) : Cpu := (c.setThumb false).setReg .pc next

theorem reg_armAt {r : Reg} (h : r ≠ .pc) (c : Cpu) (next : Word) :
    (c.armAt next).reg r = c.reg r :=
  reg_setReg_ne (c.setThumb false) next h.symm

theorem operand_armAt {r : Reg} (h : r ≠ .pc) (c : Cpu) (next pc : Word) :
    (c.armAt next).operand r pc = c.reg r :=
  (operand_of_ne h (c.armAt next) pc).trans (reg_armAt h c next)

theorem test_armAt {m : Word} (h : Psr.thumbState &&& m = 0) (c : Cpu) (next : Word) :
    (c.armAt next).cpsr.test m = c.cpsr.test m :=
  Psr.test_assign_of_disjoint h c.cpsr false

theorem flag_armAt {m : Word} (h : Psr.thumbState &&& m = 0) (c : Cpu) (next : Word) :
    (c.armAt next).flag m = c.flag m :=
  test_armAt h c next

end Cpu

namespace Thumb

open Cpu

theorem armAt_setFlags (c : Cpu) (r : AluResult) (next : Word) :
    (setFlags c r).armAt next =
      { c.armAt next with cpsr := (c.armAt next).cpsr.withResult r } := by
  show _ = { c.armAt next with cpsr := (c.cpsr.assign Psr.thumbState false).withResult r }
  rw [Psr.withResult_assign_thumbState]
  rfl

theorem armAt_writeResult {dest : Reg} (h : dest ≠ .pc) (c : Cpu) (r : AluResult) (next : Word) :
    (writeResult c dest r).armAt next =
      { (c.armAt next).setReg dest r.value with cpsr := (c.armAt next).cpsr.withResult r } := by
  -- The destination is not the program counter, so the two registers are set in either order.
  have hwrite : (c.setReg dest r.value).armAt next = (c.armAt next).setReg dest r.value :=
    setReg_comm h (c.setThumb false) r.value next
  unfold writeResult
  rw [armAt_setFlags, hwrite]
  rfl

theorem writeShifted_eq (c : Cpu) (dest : Reg) (s : Shifted) :
    writeShifted c dest s = writeResult c dest ⟨s.value, s.carry, c.flag Psr.overflow⟩ := by
  show { c.setReg dest s.value with cpsr := (c.cpsr.withSign s.value).assign Psr.carry s.carry } = _
  rw [← Psr.withResult_keep_overflow]
  rfl

theorem writeLogical_eq (c : Cpu) (dest : Reg) (v : Word) :
    writeLogical c dest v = writeResult c dest ⟨v, c.flag Psr.carry, c.flag Psr.overflow⟩ := by
  show { c.setReg dest v with cpsr := c.cpsr.withSign v } = _
  rw [← Psr.withResult_keep]
  rfl

theorem setSign_eq (c : Cpu) (v : Word) :
    setSign c v = setFlags c ⟨v, c.flag Psr.carry, c.flag Psr.overflow⟩ := by
  show { c with cpsr := c.cpsr.withSign v } = _
  rw [← Psr.withResult_keep]
  rfl

/-! ## 3. Executing a counterpart -/

theorem result_armAt (op : Arm.AluOp) (a : Word) (b : Shifted) (c : Cpu) (next : Word) :
    op.result a b (c.armAt next).cpsr = op.result a b c.cpsr := by
  unfold Arm.AluOp.result
  rw [test_armAt (m := Psr.carry) (by decide), test_armAt (m := Psr.overflow) (by decide)]

section DataProcessing

variable {β : Type} [Bus β] (op : Arm.AluOp) {dest left : Reg} {right : Arm.Operand} {b : Shifted}
  {c : Cpu} {next : Word}

/-- An operation that writes its destination, executed in place of a 16-bit one. -/
theorem execute_writing (hop : op.writes = true) (hdest : dest ≠ .pc) (hleft : left ≠ .pc)
    (hright : ∀ pc, right.value (c.armAt next) pc = b) (bus : β) (address : Word) :
    Arm.execute (.dataProcessing op true dest left right) (c.armAt next) bus address =
      ((writeResult c dest (op.result (c.reg left) b c.cpsr)).armAt next, bus) := by
  show (Arm.dataProcessing (c.armAt next) op true dest left right address, bus) = _
  unfold Arm.dataProcessing
  dsimp only
  rw [hright, operand_armAt hleft, result_armAt, hop, if_neg (by decide), if_neg (by simp [hdest]),
    if_pos rfl, armAt_writeResult hdest]

/-- A comparison, executed in place of a 16-bit one. -/
theorem execute_comparing (hop : op.writes = false) (hleft : left ≠ .pc)
    (hright : ∀ pc, right.value (c.armAt next) pc = b) (bus : β) (address : Word) :
    Arm.execute (.dataProcessing op true dest left right) (c.armAt next) bus address =
      ((setFlags c (op.result (c.reg left) b c.cpsr)).armAt next, bus) := by
  show (Arm.dataProcessing (c.armAt next) op true dest left right address, bus) = _
  unfold Arm.dataProcessing
  dsimp only
  rw [hright, operand_armAt hleft, result_armAt, hop, Bool.false_and, if_neg (by decide),
    if_neg (by decide), if_neg (by decide), armAt_setFlags]

end DataProcessing

theorem value_shifted_armAt {r : Reg} (h : r ≠ .pc) (kind : ShiftKind) (amount : Word) (c : Cpu)
    (next pc : Word) :
    (Arm.Operand.shifted r kind amount).value (c.armAt next) pc =
      Shifter.byImmediate kind (c.reg r) amount (c.flag Psr.carry) := by
  unfold Arm.Operand.value
  dsimp only
  rw [operand_armAt h, flag_armAt (by decide)]

theorem value_shiftedBy_armAt {r amount : Reg} (h : r ≠ .pc) (ha : amount ≠ .pc)
    (kind : ShiftKind) (c : Cpu) (next pc : Word) :
    (Arm.Operand.shiftedBy r kind amount).value (c.armAt next) pc =
      Shifter.byRegister kind (c.reg r) (c.reg amount) (c.flag Psr.carry) := by
  unfold Arm.Operand.value
  dsimp only
  rw [operand_armAt h, operand_armAt ha, flag_armAt (by decide)]

/-- A constant of one byte is not rotated. -/
theorem rotatedImmediate_of_lt {n : Word} (h : n < 0x100) (carry : Bool) :
    Shifter.rotatedImmediate n carry = ⟨n, carry⟩ := by
  have hlt : n.toNat < 0x100 := UInt32.lt_iff_toNat_lt.1 h
  have hbyte : n &&& 0xFF = n := by
    apply UInt32.toNat_inj.1
    rw [Word.toNat_and_mask (i := 0) (n := 8) rfl]
    omega
  have hrotation : n.field 8 4 = 0 := by
    apply UInt32.toNat_inj.1
    rw [Word.toNat_field (by decide) (by decide)]
    show n.toNat / 2 ^ 8 % 2 ^ 4 = 0
    omega
  unfold Shifter.rotatedImmediate
  rw [hbyte, hrotation]
  rfl

theorem value_constant_armAt {n : Word} (h : n < 0x100) (c : Cpu) (next pc : Word) :
    (Arm.Operand.constant n).value (c.armAt next) pc = ⟨n, c.flag Psr.carry⟩ := by
  unfold Arm.Operand.value
  dsimp only
  rw [rotatedImmediate_of_lt h, flag_armAt (by decide)]

theorem ne_pc_of_lt {r : Reg} (h : r.val < 8) : r ≠ .pc :=
  (Reg.ne_of_val_lt (Nat.lt_of_lt_of_le h (by decide))).2.2

theorem value_counterpart {o : Operand} (h : o.IsLow) (c : Cpu) (next pc : Word) :
    o.counterpart.value (c.armAt next) pc = ⟨o.value c, c.flag Psr.carry⟩ := by
  cases o with
  | register r => exact value_shifted_armAt (ne_pc_of_lt h) .lsl 0 c next pc
  | constant n => exact value_constant_armAt h c next pc

section Memory

variable {β : Type} [Bus β]

/-- A logical operation, which takes its carry from an operand that was not shifted. -/
theorem execute_logical (op : Arm.AluOp) {dest left : Reg} {right : Arm.Operand} {w v : Word}
    {c : Cpu} {next : Word} (hop : op.writes = true) (hdest : dest ≠ .pc) (hleft : left ≠ .pc)
    (hright : ∀ pc, right.value (c.armAt next) pc = ⟨w, c.flag Psr.carry⟩)
    (hresult : op.result (c.reg left) ⟨w, c.flag Psr.carry⟩ c.cpsr =
      ⟨v, c.flag Psr.carry, c.flag Psr.overflow⟩) (bus : β) (address : Word) :
    Arm.execute (.dataProcessing op true dest left right) (c.armAt next) bus address =
      ((writeLogical c dest v).armAt next, bus) := by
  rw [execute_writing op hop hdest hleft hright, hresult, writeLogical_eq]

/-- A move of a shifted operand. -/
theorem execute_shifted {dest : Reg} {right : Arm.Operand} {b : Shifted} {c : Cpu} {next : Word}
    (hdest : dest ≠ .pc) (hright : ∀ pc, right.value (c.armAt next) pc = b) (bus : β)
    (address : Word) :
    Arm.execute (.dataProcessing .mov true dest .zero right) (c.armAt next) bus address =
      ((writeShifted c dest b).armAt next, bus) := by
  rw [execute_writing .mov rfl hdest (by decide) hright, writeShifted_eq]
  rfl

theorem execute_multiply {dest left right : Reg} (hdest : dest ≠ .pc) (hleft : left ≠ .pc)
    (hright : right ≠ .pc) (c : Cpu) (bus : β) (next address : Word) :
    Arm.execute (.multiply false true dest left right .zero) (c.armAt next) bus address =
      ((writeLogical c dest (c.reg left * c.reg right)).armAt next, bus) := by
  show (Arm.multiply (c.armAt next) false true dest left right .zero, bus) = _
  unfold Arm.multiply
  dsimp only
  rw [reg_armAt hleft, reg_armAt hright, writeLogical_eq, armAt_writeResult hdest]
  simp only [Bool.false_eq_true, if_false, if_true]
  -- N and Z alone are set, as a result that keeps C and V.
  rw [← Psr.withResult_keep (c.armAt next).cpsr, test_armAt (m := Psr.carry) (by decide),
    test_armAt (m := Psr.overflow) (by decide)]
  rfl

theorem execute_counterpart_withConstant {r : Reg} {n : Word} (hr : r ≠ .pc) (hn : n < 0x100)
    (op : ConstantOp) (c : Cpu) (bus : β) (next address : Word) :
    Arm.execute (op.counterpart r n) (c.armAt next) bus address =
      ((withConstant c op r n).armAt next, bus) := by
  have hvalue := value_constant_armAt hn c next
  cases op with
  | mov => exact execute_logical .mov rfl hr (by decide) hvalue rfl bus address
  | cmp => exact execute_comparing .cmp rfl hr hvalue bus address
  | add => exact execute_writing .add rfl hr hr hvalue bus address
  | sub => exact execute_writing .sub rfl hr hr hvalue bus address

theorem execute_counterpart_alu {dest source : Reg} (hd : dest ≠ .pc) (hs : source ≠ .pc)
    (op : AluOp) (c : Cpu) (bus : β) (next address : Word) :
    Arm.execute (op.counterpart dest source) (c.armAt next) bus address =
      ((alu c op dest source).armAt next, bus) := by
  have hvalue := value_shifted_armAt hs .lsl 0 c next
  have hshifted (kind : ShiftKind) := value_shiftedBy_armAt hd hs kind c next
  have hzero := value_constant_armAt (n := 0) (by decide) c next
  cases op with
  | and => exact execute_logical .and rfl hd hd hvalue rfl bus address
  | eor => exact execute_logical .eor rfl hd hd hvalue rfl bus address
  | lsl => exact execute_shifted hd (hshifted .lsl) bus address
  | lsr => exact execute_shifted hd (hshifted .lsr) bus address
  | asr => exact execute_shifted hd (hshifted .asr) bus address
  | adc => exact execute_writing .adc rfl hd hd hvalue bus address
  | sbc => exact execute_writing .sbc rfl hd hd hvalue bus address
  | ror => exact execute_shifted hd (hshifted .ror) bus address
  | tst =>
    refine (execute_comparing .tst rfl hd hvalue bus address).trans ?_
    show _ = ((setSign c (c.reg dest &&& c.reg source)).armAt next, bus)
    rw [setSign_eq]
    rfl
  | neg => exact execute_writing .rsb rfl hd hs hzero bus address
  | cmp => exact execute_comparing .cmp rfl hd hvalue bus address
  | cmn => exact execute_comparing .cmn rfl hd hvalue bus address
  | orr => exact execute_logical .orr rfl hd hd hvalue rfl bus address
  | mul => exact execute_multiply hd hd hs c bus next address
  | bic => exact execute_logical .bic rfl hd hd hvalue rfl bus address
  | mvn => exact execute_logical .mvn rfl hd (by decide) hvalue rfl bus address

/-- A counterpart computes what the 16-bit instruction computes. -/
theorem execute_counterpart {i : Instruction} {a : Arm.Instruction} (h : i.IsLow)
    (ha : i.counterpart? = some a) (c : Cpu) (bus : β) (next address address' : Word) :
    Arm.execute a (c.armAt next) bus address' =
      ((execute i c bus address).1.armAt next, (execute i c bus address).2) := by
  cases i with
  | shift kind amount dest source =>
    obtain ⟨-, hdest, hsource⟩ := h
    obtain rfl := Option.some.inj ha
    exact execute_shifted (ne_pc_of_lt hdest)
      (value_shifted_armAt (ne_pc_of_lt hsource) kind amount c next) bus address'
  | add dest left right =>
    obtain ⟨hdest, hleft, hright⟩ := h
    obtain rfl := Option.some.inj ha
    exact execute_writing .add rfl (ne_pc_of_lt hdest) (ne_pc_of_lt hleft)
      (value_counterpart hright c next) bus address'
  | subtract dest left right =>
    obtain ⟨hdest, hleft, hright⟩ := h
    obtain rfl := Option.some.inj ha
    exact execute_writing .sub rfl (ne_pc_of_lt hdest) (ne_pc_of_lt hleft)
      (value_counterpart hright c next) bus address'
  | withConstant op r n =>
    obtain ⟨hr, hn⟩ := h
    obtain rfl := Option.some.inj ha
    exact execute_counterpart_withConstant (ne_pc_of_lt hr) hn op c bus next address'
  | alu op dest source =>
    obtain ⟨hdest, hsource⟩ := h
    obtain rfl := Option.some.inj ha
    exact execute_counterpart_alu (ne_pc_of_lt hdest) (ne_pc_of_lt hsource) op c bus next address'
  | _ => exact h.elim

end Memory

/-! ## 4. Opcodes -/

theorem isLow_decode {w : Word} (h : w.toNat < 0x4400) : (decode w).IsLow := by
  unfold decode
  by_cases hadd : w &&& 0xF800 = 0x1800
  · rw [if_pos hadd]
    have hlow : (if w.bit 10 then Operand.constant (w.field 6 3)
        else .register (w.lowReg 6)).IsLow := by
      split
      · have hsmall : w.field 6 3 < 8 := Word.field_lt (by decide) (by decide) rfl w
        exact UInt32.lt_trans hsmall (by decide)
      · exact Word.val_lowReg_lt w 6
    unfold decodeAddSubtract
    dsimp only
    split
    · exact ⟨Word.val_lowReg_lt w 0, Word.val_lowReg_lt w 3, hlow⟩
    · exact ⟨Word.val_lowReg_lt w 0, Word.val_lowReg_lt w 3, hlow⟩
  · rw [if_neg hadd]
    by_cases hshift : w &&& 0xE000 = 0x0000
    · rw [if_pos hshift]
      exact ⟨Word.field_lt (by decide) (by decide) rfl w, Word.val_lowReg_lt w 0,
        Word.val_lowReg_lt w 3⟩
    · rw [if_neg hshift]
      by_cases hconstant : w &&& 0xE000 = 0x2000
      · rw [if_pos hconstant]
        exact ⟨Word.val_lowReg_lt w 8, Word.field_lt (by decide) (by decide) rfl w⟩
      · rw [if_neg hconstant]
        -- The top bits are neither 000 nor 001, and the bound leaves 010000.
        have halu : w &&& 0xFC00 = 0x4000 := by
          rw [← UInt32.toNat_inj, Word.toNat_and_mask (i := 13) (n := 3) rfl] at hshift hconstant
          rw [← UInt32.toNat_inj, Word.toNat_and_mask (i := 10) (n := 6) rfl]
          change _ ≠ 0 at hshift
          change _ ≠ 0x2000 at hconstant
          show _ = 0x4000
          omega
        rw [if_pos halu]
        exact ⟨Word.val_lowReg_lt w 0, Word.val_lowReg_lt w 3⟩

theorem encode?_dataProcessing {right : Arm.Operand} {low : Word} (h : right.encode? = some low)
    (op : Arm.AluOp) (dest left : Reg) :
    (Arm.Instruction.dataProcessing op true dest left right).encode? =
      some (0xE0100000 + 0x200000 * op.code + 0x10000 * left.code + 0x1000 * dest.code + low) := by
  have hset : 0xE0000000 + 0x200000 * op.code + 0x100000 * true.toUInt32 =
      0xE0100000 + 0x200000 * op.code := by
    cases op <;> rfl
  simp only [Arm.Instruction.encode?, h, Bool.true_or, if_true, Option.map_some, hset]

theorem encode?_multiply (dest left right addend : Reg) :
    (Arm.Instruction.multiply false true dest left right addend).encode? =
      some (0xE0100090 + 0x10000 * dest.code + 0x1000 * addend.code + 0x100 * right.code +
        left.code) := rfl

theorem encode?_constant {n : Word} (h : n < 0x1000) :
    (Arm.Operand.constant n).encode? = some (0x2000000 + n) :=
  if_pos h

theorem encode?_register (r : Reg) : (Arm.Operand.shifted r .lsl 0).encode? = some r.code := by
  simp [Arm.Operand.encode?, ShiftKind.code]

/-- The 32-bit opcode `word` is that of the counterpart of the 16-bit opcode `w`. -/
def Translates (w word : Word) : Prop :=
  ∃ a, (decode w).counterpart? = some a ∧ a.encode? = some word

section Translates

variable {w : Word} {t : Translation}

theorem Translates.of_dataProcessing {op : Arm.AluOp} {dest left : Reg} {right : Arm.Operand}
    {low word : Word}
    (h : (decode w).counterpart? = some (.dataProcessing op true dest left right))
    (hlow : right.encode? = some low)
    (hword : 0xE0100000 + 0x200000 * op.code + 0x10000 * left.code + 0x1000 * dest.code + low =
      word) : Translates w word :=
  ⟨_, h, (encode?_dataProcessing hlow op dest left).trans (congrArg some hword)⟩

/- One case for each format.  The decoder is settled by the format, the second operand by its
encoding, and the sum of the fields is that of the table. -/

theorem translates_shifts (ht : t ∈ shifts) (h : t.Applies w) : Translates w (t.word w) := by
  have hamount : w.field 6 5 < 32 := Word.field_lt (by decide) (by decide) rfl w
  have hshifted (kind : ShiftKind) :
      (Arm.Operand.shifted (w.lowReg 3) kind (w.field 6 5)).encode? =
        some (0x80 * w.field 6 5 + 0x20 * kind.code + (w.lowReg 3).code) :=
    if_pos hamount
  simp only [shifts, List.mem_cons, List.not_mem_nil, or_false] at ht
  rcases ht with rfl | rfl | rfl
  · exact .of_dataProcessing (congrArg _ (decode_shift h rfl (by decide))) (hshifted .lsl)
      (by grind)
  · exact .of_dataProcessing (congrArg _ (decode_shift h rfl (by decide))) (hshifted .lsr)
      (by grind)
  · exact .of_dataProcessing (congrArg _ (decode_shift h rfl (by decide))) (hshifted .asr)
      (by grind)

theorem translates_sums (ht : t ∈ sums) (h : t.Applies w) : Translates w (t.word w) := by
  have hsmall : w.field 6 3 < 8 := Word.field_lt (by decide) (by decide) rfl w
  have hconstant := encode?_constant (UInt32.lt_trans hsmall (by decide))
  have hregister := encode?_register (w.lowReg 6)
  simp only [sums, List.mem_cons, List.not_mem_nil, or_false] at ht
  rcases ht with rfl | rfl | rfl | rfl
  · exact .of_dataProcessing (congrArg _ (decode_addSubtract h rfl)) hregister (by grind)
  · exact .of_dataProcessing (congrArg _ (decode_addSubtract h rfl)) hregister (by grind)
  · exact .of_dataProcessing (congrArg _ (decode_addSubtract h rfl)) hconstant (by grind)
  · exact .of_dataProcessing (congrArg _ (decode_addSubtract h rfl)) hconstant (by grind)

theorem translates_constants (ht : t ∈ constants) (h : t.Applies w) :
    Translates w (t.word w) := by
  have hbyte : w.field 0 8 < 0x100 := Word.field_lt (by decide) (by decide) rfl w
  have hconstant := encode?_constant (UInt32.lt_trans hbyte (by decide))
  simp only [constants, List.mem_cons, List.not_mem_nil, or_false] at ht
  rcases ht with rfl | rfl | rfl | rfl
  all_goals
    exact .of_dataProcessing (congrArg _ (decode_withConstant h rfl)) hconstant (by grind)

theorem translates_operations (ht : t ∈ operations) (h : t.Applies w) :
    Translates w (t.word w) := by
  have hregister := encode?_register (w.lowReg 3)
  have hshifted (kind : ShiftKind) :
      (Arm.Operand.shiftedBy (w.lowReg 0) kind (w.lowReg 3)).encode? =
        some (0x100 * (w.lowReg 3).code + 0x20 * kind.code + 0x10 + (w.lowReg 0).code) := rfl
  have hzero := encode?_constant (n := 0) (by decide)
  simp only [operations, List.mem_cons, List.not_mem_nil, or_false] at ht
  rcases ht with
    rfl | rfl | rfl | rfl | rfl | rfl | rfl | rfl | rfl | rfl | rfl | rfl | rfl | rfl | rfl | rfl
  · exact .of_dataProcessing (congrArg _ (decode_alu h rfl)) hregister (by grind)
  · exact .of_dataProcessing (congrArg _ (decode_alu h rfl)) hregister (by grind)
  · exact .of_dataProcessing (congrArg _ (decode_alu h rfl)) (hshifted .lsl) (by grind)
  · exact .of_dataProcessing (congrArg _ (decode_alu h rfl)) (hshifted .lsr) (by grind)
  · exact .of_dataProcessing (congrArg _ (decode_alu h rfl)) (hshifted .asr) (by grind)
  · exact .of_dataProcessing (congrArg _ (decode_alu h rfl)) hregister (by grind)
  · exact .of_dataProcessing (congrArg _ (decode_alu h rfl)) hregister (by grind)
  · exact .of_dataProcessing (congrArg _ (decode_alu h rfl)) (hshifted .ror) (by grind)
  · exact .of_dataProcessing (congrArg _ (decode_alu h rfl)) hregister (by grind)
  · exact .of_dataProcessing (congrArg _ (decode_alu h rfl)) hzero (by grind)
  · exact .of_dataProcessing (congrArg _ (decode_alu h rfl)) hregister (by grind)
  · exact .of_dataProcessing (congrArg _ (decode_alu h rfl)) hregister (by grind)
  · exact .of_dataProcessing (congrArg _ (decode_alu h rfl)) hregister (by grind)
  · have hmultiply := encode?_multiply (w.lowReg 0) (w.lowReg 0) (w.lowReg 3) .zero
    exact ⟨_, congrArg _ (decode_alu h rfl), hmultiply.trans (congrArg some (by grind))⟩
  · exact .of_dataProcessing (congrArg _ (decode_alu h rfl)) hregister (by grind)
  · exact .of_dataProcessing (congrArg _ (decode_alu h rfl)) hregister (by grind)

/-- The table says of each format what the counterpart of its opcodes is. -/
theorem translates_calculations (ht : t ∈ calculations) (h : t.Applies w) :
    Translates w (t.word w) := by
  simp only [calculations, List.mem_append] at ht
  rcases ht with ((ht | ht) | ht) | ht
  · exact translates_shifts ht h
  · exact translates_sums ht h
  · exact translates_constants ht h
  · exact translates_operations ht h

end Translates

section Memory

variable {β : Type} [Bus β]

theorem pc_execute_low {i : Instruction} (h : i.IsLow) (c : Cpu) (bus : β) (address : Word) :
    (execute i c bus address).1.pc = c.pc := by
  have hwrite {dest : Reg} (hdest : dest.val < 8) (v : Word) : (c.setReg dest v).pc = c.pc :=
    reg_setReg_ne c v (ne_pc_of_lt hdest)
  cases i with
  | shift kind amount dest source => exact hwrite h.2.1 _
  | add dest left right => exact hwrite h.1 _
  | subtract dest left right => exact hwrite h.1 _
  | withConstant op r n =>
    cases op with
    | cmp => rfl
    | _ => exact hwrite h.1 _
  | alu op dest source =>
    cases op with
    | tst | cmp | cmn => rfl
    | _ => exact hwrite h.1 _
  | _ => exact h.elim

theorem thumb_execute_low {i : Instruction} (h : i.IsLow) (c : Cpu) (bus : β) (address : Word) :
    (execute i c bus address).1.cpsr.thumb = c.cpsr.thumb := by
  have hkeeps : c.KeepsControl (execute i c bus address).1 := by
    cases i with
    | shift kind amount dest source => exact keepsControl_writeShifted c dest _
    | add dest left right => exact keepsControl_writeResult c dest _
    | subtract dest left right => exact keepsControl_writeResult c dest _
    | withConstant op r n => exact keepsControl_withConstant c op r n
    | alu op dest source => exact keepsControl_alu c op dest source
    | _ => exact h.elim
  have hmask := Psr.and_eq_of_control_eq hkeeps.control (m := Psr.thumbState) (by decide)
  unfold Psr.thumb Psr.test
  rw [hmask]

theorem bus_execute_low {i : Instruction} (h : i.IsLow) (c : Cpu) (bus : β) (address : Word) :
    (execute i c bus address).2 = bus := by
  cases i with
  | shift | add | subtract | withConstant | alu => rfl
  | _ => exact h.elim

/-- Every 16-bit opcode below `0x4400` is of a format that the table of calculations translates.  The
32-bit opcode that the table gives is always executed.  In the same state with the T flag clear and
the program counter anywhere, it ends in the state in which the 16-bit instruction ends, with the T
flag clear and the program counter where it was.  Neither reaches the bus, and the 16-bit instruction
keeps the T flag and the program counter. -/
theorem execute_eq_counterpart {op : Half} (hop : op < 0x4400) (c : Cpu) (bus : β)
    (next address address' : Word) :
    (∃ t ∈ calculations, t.Applies op.toUInt32) ∧
      ∀ t ∈ calculations, t.Applies op.toUInt32 →
        let word := t.word op.toUInt32
        let after := execute (decode op.toUInt32) c bus address
        Condition.ofBits (word >>> 28) = .al ∧
          after.2 = bus ∧ after.1.pc = c.pc ∧ after.1.cpsr.thumb = c.cpsr.thumb ∧
          Arm.execute (Arm.decode word) (c.armAt next) bus address' =
            (after.1.armAt next, bus) := by
  have hlt : op.toUInt32.toNat < 0x4400 := UInt16.lt_iff_toNat_lt.1 hop
  have hlow : (decode op.toUInt32).IsLow := isLow_decode hlt
  have hbus := bus_execute_low hlow c bus address
  refine ⟨exists_calculation (by omega), fun t ht happlies => ?_⟩
  obtain ⟨a, ha, hword⟩ := translates_calculations ht happlies
  obtain ⟨hdecode, hcond⟩ := Arm.decode_of_encode? hword
  refine ⟨hcond, hbus, pc_execute_low hlow c bus address, thumb_execute_low hlow c bus address, ?_⟩
  rw [hdecode, execute_counterpart hlow ha c bus next address address', hbus]

end Memory

/-- `NEG r0, r1` and `RSBS r0, r1, #0`. -/
theorem execute_eq_counterpart_neg :
    let c := (Cpu.initial.setReg 1 5).setThumb true
    let ram := FlatRam.zeros 1
    let after := (execute (decode (0x4248 : Half).toUInt32) c ram 0x100).1
    after.reg 0 = 0xFFFFFFFB ∧
      (Arm.execute (Arm.decode 0xE2710000) (c.armAt 0x104) ram 0x200).1 = after.armAt 0x104 := by
  intro c ram after
  have hop : (0x4248 : Half) < 0x4400 := by decide
  obtain ⟨-, hall⟩ := execute_eq_counterpart hop c ram 0x104 0x100 0x200
  let neg : Translation := ⟨0xFFC0, 0x4240, 0xE2700000, [⟨3, 3, 0x10000⟩, ⟨0, 3, 0x1000⟩]⟩
  obtain ⟨-, -, -, -, hexecute⟩ := hall neg (by decide) (by decide)
  have hword : neg.word (0x4248 : Half).toUInt32 = 0xE2710000 := by decide
  rw [hword] at hexecute
  exact ⟨by decide, congrArg Prod.fst hexecute⟩

end Thumb

end Handheld
