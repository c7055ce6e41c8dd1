import Handheld.Bus.FlatRam
import Handheld.Proofs.Adder
import Handheld.Proofs.Arm.Encoding
import Handheld.Proofs.Psr
import Handheld.Proofs.Thumb.Formats
import Handheld.Thumb.Execute

/-!
# Arithmetic instructions on exact integers

An addition or subtraction that sets the flags is a calculation: a kind of arithmetic, two operands
and perhaps a destination.  This file says which opcodes of both instruction sets are which
calculations, and what a calculation leaves in its destination and in the four flags, in terms of
the exact result on integers.
-/

namespace Handheld

/-! ## 1. Kinds of arithmetic -/

/-- The ways to add and subtract; the reverse ones take the first operand from the second. -/
inductive Arithmetic where
  | add
  | addCarry
  | subtract
  | subtractCarry
  | reverse
  | reverseCarry
deriving DecidableEq, Repr

namespace Arithmetic

/-- The exact result.  A subtraction with carry borrows one if the carry is clear. -/
def exact (kind : Arithmetic) (x y : Int) (carry : Bool) : Int :=
  match kind with
  | add => x + y
  | addCarry => x + y + carry.toNat
  | subtract => x - y
  | subtractCarry => x - y - (1 - carry.toNat)
  | reverse => y - x
  | reverseCarry => y - x - (1 - carry.toNat)

/-- The least unsigned result that sets the carry: the first that no word holds, or the first that
does not borrow. -/
def carryBound : Arithmetic → Int
  | add | addCarry => 2 ^ 32
  | subtract | subtractCarry | reverse | reverseCarry => 0

/-- How the adder is used. -/
def run (kind : Arithmetic) (a b : Word) (carry : Bool) : AluResult :=
  match kind with
  | add => Alu.add a b false
  | addCarry => Alu.add a b carry
  | subtract => Alu.sub a b true
  | subtractCarry => Alu.sub a b carry
  | reverse => Alu.sub b a true
  | reverseCarry => Alu.sub b a carry

theorem isExact_run (kind : Arithmetic) (a b : Word) (carry : Bool) :
    (kind.run a b carry).IsExact (kind.exact a.toNat b.toNat carry)
      (kind.exact a.signed b.signed carry) kind.carryBound := by
  cases kind with
  | add => exact Alu.isExact_add_false a b
  | addCarry => exact Alu.isExact_add a b carry
  | subtract => exact Alu.isExact_sub_true a b
  | subtractCarry => exact Alu.isExact_sub a b carry
  | reverse => exact Alu.isExact_sub_true b a
  | reverseCarry => exact Alu.isExact_sub b a carry

end Arithmetic

/-! ## 2. Calculations -/

structure Calculation where
  kind : Arithmetic
  /-- The register that receives the result; a comparison has none. -/
  dest? : Option Reg
  left : Word
  right : Word
deriving DecidableEq, Repr

namespace Calculation

/-- The exact result on unsigned operands, with the carry of `c`. -/
def result (k : Calculation) (c : Cpu) : Int :=
  k.kind.exact k.left.toNat k.right.toNat (c.flag Psr.carry)

/-- The exact result on signed operands, with the carry of `c`. -/
def signedResult (k : Calculation) (c : Cpu) : Int :=
  k.kind.exact k.left.signed k.right.signed (c.flag Psr.carry)

def store (k : Calculation) (c : Cpu) (v : Word) : Cpu :=
  match k.dest? with
  | some r => c.setReg r v
  | none => c

/-- The calculation takes `c` to `c'`: the result goes to the destination modulo `2 ^ 32`, the four
flags describe it, and nothing else changes. -/
structure Executed (k : Calculation) (c c' : Cpu) : Prop where
  frame : c' = { k.store c (UInt32.ofInt (k.result c)) with cpsr := c'.cpsr }
  control : c'.cpsr.control = c.cpsr.control
  negative : c'.flag Psr.negative = decide (2 ^ 31 ≤ k.result c % 2 ^ 32)
  zero : c'.flag Psr.zero = decide (k.result c % 2 ^ 32 = 0)
  carry : c'.flag Psr.carry = decide (k.kind.carryBound ≤ k.result c)
  overflow : c'.flag Psr.overflow =
    decide (k.signedResult c < -2 ^ 31 ∨ 2 ^ 31 ≤ k.signedResult c)

/-- What the adder makes of the calculation. -/
def outcome (k : Calculation) (c : Cpu) : Cpu :=
  let r := k.kind.run k.left k.right (c.flag Psr.carry)
  { k.store c r.value with cpsr := c.cpsr.withResult r }

theorem executed_outcome (k : Calculation) (c : Cpu) : k.Executed c (k.outcome c) := by
  have hexact := k.kind.isExact_run k.left k.right (c.flag Psr.carry)
  have hvalue : (k.kind.run k.left k.right (c.flag Psr.carry)).value = UInt32.ofInt (k.result c) :=
    hexact.value_eq
  refine ⟨?_, ?_, ?_, ?_, ?_, ?_⟩
  · rw [← hvalue]
    rfl
  · exact Psr.control_withResult c.cpsr _
  · exact (Psr.test_withResult_negative c.cpsr _).trans hexact.negative
  · exact (Psr.test_withResult_zero c.cpsr _).trans hexact.zero
  · exact (Psr.test_withResult_carry c.cpsr _).trans hexact.carry
  · exact (Psr.test_withResult_overflow c.cpsr _).trans hexact.overflow

end Calculation

/-! ## 3. 32-bit instructions -/

section Instructions

variable {β : Type} [Bus β] {c : Cpu} {bus : β} {address w : Word} {k : Calculation}

namespace Arm

/-- The arithmetic of an operation that is no logical one, and whether the result is kept. -/
def AluOp.arithmetic? : AluOp → Option (Arithmetic × Bool)
  | sub => some (.subtract, true)
  | rsb => some (.reverse, true)
  | add => some (.add, true)
  | adc => some (.addCarry, true)
  | sbc => some (.subtractCarry, true)
  | rsc => some (.reverseCarry, true)
  | cmp => some (.subtract, false)
  | cmn => some (.add, false)
  | _ => none

theorem AluOp.result_eq_run {op : AluOp} {kind : Arithmetic} {keeps : Bool}
    (h : op.arithmetic? = some (kind, keeps)) (a : Word) (b : Shifted) (p : Psr) :
    op.result a b p = kind.run a b.value (p.test Psr.carry) ∧ op.writes = keeps := by
  cases op <;> cases h <;> exact ⟨rfl, rfl⟩

/-- The opcode `w` with operation `op`, fetched from `address`, is the calculation `k` in the state
`c`. -/
structure Calculates (c : Cpu) (address w : Word) (op : AluOp) (k : Calculation) : Prop where
  family : w.field 26 2 = 0
  /-- A constant, or a register shifted by a constant or by a register. -/
  form : w.bit 25 = true ∨ w.bit 7 = false ∨ w.bit 4 = false
  operation : w.field 21 4 = op.code
  setsFlags : w.bit 20 = true
  kind : op.arithmetic? = some (k.kind, k.dest?.isSome)
  dest : ∀ r, k.dest? = some r → r = w.reg 12 ∧ r ≠ .pc
  left : k.left = c.operand (w.reg 16) ((decodeOperand w).pcAt address)
  right : k.right = ((decodeOperand w).value c ((decodeOperand w).pcAt address)).value

theorem Calculates.decode_eq {op : AluOp} (h : Calculates c address w op k) :
    decode w = .dataProcessing op true (w.reg 12) (w.reg 16) (decodeOperand w) := by
  have hfamily : w.toNat / 2 ^ 26 % 2 ^ 2 = 0 :=
    (Word.toNat_field (i := 26) (n := 2) (by decide) (by decide) w).symm.trans
      (congrArg UInt32.toNat h.family)
  have hform : w.toNat / 2 ^ 25 % 2 = 1 ∨ w.toNat / 2 ^ 7 % 2 = 0 ∨ w.toNat / 2 ^ 4 % 2 = 0 := by
    have hbits := h.form
    rw [Word.bit_eq_decide (by decide), Word.bit_eq_decide (by decide),
      Word.bit_eq_decide (by decide)] at hbits
    simpa using hbits
  have hflags : w.toNat / 2 ^ 20 % 2 = 1 := by
    have hbit := h.setsFlags
    rw [Word.bit_eq_decide (by decide)] at hbit
    simpa using hbit
  have hop : AluOp.ofBits (w >>> 21) = op := AluOp.ofBits_of_and_eq h.operation
  rw [decode_eq_dataProcessing hfamily hform (.inl hflags), hop, h.setsFlags]

theorem Calculates.execute_eq {op : AluOp} (h : Calculates c address w op k) :
    execute (decode w) c bus address = (k.outcome c, bus) := by
  -- Only the value of the shifted operand enters the result, not its carry.
  obtain ⟨hrun, hwrites⟩ := AluOp.result_eq_run h.kind k.left
    ((decodeOperand w).value c ((decodeOperand w).pcAt address)) c.cpsr
  rw [h.decode_eq]
  show (dataProcessing c op true (w.reg 12) (w.reg 16) (decodeOperand w) address, bus) = _
  unfold dataProcessing Calculation.outcome Calculation.store
  dsimp only
  rw [← h.left, hrun, hwrites, ← h.right]
  cases hdest : k.dest? with
  | none => rfl
  -- A program counter as destination would restore a saved status word.
  | some r =>
    obtain ⟨rfl, hpc⟩ := h.dest r hdest
    rw [beq_eq_false_iff_ne.2 hpc]
    rfl

end Arm

/-! ## 4. 16-bit instructions -/

namespace Thumb

/-- The opcode `w`, fetched from `address`, is a calculation in the state `c`. -/
inductive Calculates (c : Cpu) (address w : Word) : Calculation → Prop where
  | addRegister (h : w &&& 0xFE00 = 0x1800) :
    Calculates c address w ⟨.add, some (w.lowReg 0), c.reg (w.lowReg 3), c.reg (w.lowReg 6)⟩
  | subtractRegister (h : w &&& 0xFE00 = 0x1A00) :
    Calculates c address w ⟨.subtract, some (w.lowReg 0), c.reg (w.lowReg 3), c.reg (w.lowReg 6)⟩
  | addSmall (h : w &&& 0xFE00 = 0x1C00) :
    Calculates c address w ⟨.add, some (w.lowReg 0), c.reg (w.lowReg 3), w.field 6 3⟩
  | subtractSmall (h : w &&& 0xFE00 = 0x1E00) :
    Calculates c address w ⟨.subtract, some (w.lowReg 0), c.reg (w.lowReg 3), w.field 6 3⟩
  | compareByte (h : w &&& 0xF800 = 0x2800) :
    Calculates c address w ⟨.subtract, none, c.reg (w.lowReg 8), w.field 0 8⟩
  | addByte (h : w &&& 0xF800 = 0x3000) :
    Calculates c address w ⟨.add, some (w.lowReg 8), c.reg (w.lowReg 8), w.field 0 8⟩
  | subtractByte (h : w &&& 0xF800 = 0x3800) :
    Calculates c address w ⟨.subtract, some (w.lowReg 8), c.reg (w.lowReg 8), w.field 0 8⟩
  | addCarry (h : w &&& 0xFFC0 = 0x4140) :
    Calculates c address w ⟨.addCarry, some (w.lowReg 0), c.reg (w.lowReg 0), c.reg (w.lowReg 3)⟩
  | subtractCarry (h : w &&& 0xFFC0 = 0x4180) :
    Calculates c address w
      ⟨.subtractCarry, some (w.lowReg 0), c.reg (w.lowReg 0), c.reg (w.lowReg 3)⟩
  | negate (h : w &&& 0xFFC0 = 0x4240) :
    Calculates c address w ⟨.subtract, some (w.lowReg 0), 0, c.reg (w.lowReg 3)⟩
  | compare (h : w &&& 0xFFC0 = 0x4280) :
    Calculates c address w ⟨.subtract, none, c.reg (w.lowReg 0), c.reg (w.lowReg 3)⟩
  | compareNegated (h : w &&& 0xFFC0 = 0x42C0) :
    Calculates c address w ⟨.add, none, c.reg (w.lowReg 0), c.reg (w.lowReg 3)⟩
  /-- The one format that reaches the high registers. -/
  | compareAny (h : w &&& 0xFF00 = 0x4500) :
    Calculates c address w
      ⟨.subtract, none, c.operand ((w.field 0 3 ||| (w.field 7 1 <<< 3)).reg 0) (address + 4),
        c.operand (w.reg 3) (address + 4)⟩

theorem Calculates.execute_eq (h : Calculates c address w k) :
    execute (decode w) c bus address = (k.outcome c, bus) := by
  -- One case for each family of formats; decoded, an instruction is its calculation by definition.
  cases h with
  | addRegister h | subtractRegister h | addSmall h | subtractSmall h =>
    rw [decode_addSubtract h rfl]
    rfl
  | compareByte h | addByte h | subtractByte h =>
    rw [decode_withConstant h rfl]
    rfl
  | addCarry h | subtractCarry h | negate h | compare h | compareNegated h =>
    rw [decode_alu h rfl]
    rfl
  | compareAny h =>
    rw [decode_compareAny h]
    rfl

end Thumb

/-! ## 5. Both instruction sets -/

/-- Whatever the operands and the old carry, an addition or subtraction that sets the flags is
exact: the result modulo `2 ^ 32` in the destination, N and Z of that, C from the result on unsigned
and V from that on signed operands.  The carry of the shifter is dropped. -/
theorem execute_exact :
    (∀ op, Arm.Calculates c address w op k →
      k.Executed c (Arm.execute (Arm.decode w) c bus address).1 ∧
        (Arm.execute (Arm.decode w) c bus address).2 = bus) ∧
    (Thumb.Calculates c address w k →
      k.Executed c (Thumb.execute (Thumb.decode w) c bus address).1 ∧
        (Thumb.execute (Thumb.decode w) c bus address).2 = bus) := by
  constructor
  · intro op h
    rw [h.execute_eq]
    exact ⟨k.executed_outcome c, rfl⟩
  · intro h
    rw [h.execute_eq]
    exact ⟨k.executed_outcome c, rfl⟩

end Instructions

/-- `rscs r0, r1, r2, lsr r3` borrows from zero, and `cmn r0, r1` on two words of `0x80000000` sets
Z, C and V at once. -/
theorem execute_exact_extremes :
    let ram : FlatRam := ⟨⟨#[0]⟩, false, by decide⟩
    let arm := ((Cpu.initial.setReg 1 1).setReg 2 3).setReg 3 1
    let thumb := (Cpu.initial.setReg 0 0x80000000).setReg 1 0x80000000
    let reversed : Calculation := ⟨.reverseCarry, some 0, 1, 1⟩
    let negated : Calculation := ⟨.add, none, 0x80000000, 0x80000000⟩
    Arm.Calculates arm 0 0xE0F10332 .rsc reversed ∧ Thumb.Calculates thumb 0 0x42C8 negated ∧
      reversed.Executed arm (Arm.execute (Arm.decode 0xE0F10332) arm ram 0).1 ∧
      negated.Executed thumb (Thumb.execute (Thumb.decode 0x42C8) thumb ram 0).1 ∧
      reversed.result arm = -1 ∧ negated.result thumb = 2 ^ 32 ∧
      negated.signedResult thumb = -2 ^ 32 := by
  intro ram arm thumb reversed negated
  have harm : Arm.Calculates arm 0 0xE0F10332 .rsc reversed :=
    ⟨by decide, by decide, by decide, by decide, rfl, by decide, by decide, by decide⟩
  have hthumb : Thumb.Calculates thumb 0 0x42C8 negated := .compareNegated (by decide)
  exact ⟨harm, hthumb, (execute_exact.1 .rsc harm).1, (execute_exact.2 hthumb).1, by decide,
    by decide, by decide⟩

end Handheld
