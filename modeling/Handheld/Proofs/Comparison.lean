import Handheld.Proofs.Calculation
import Handheld.Proofs.Unassigned

/-!
# Comparing and deciding

After a comparison each condition decides a relation between the numbers compared.  This file proves
that of the flags, and then of whole steps: what a conditional instruction does at any time after a
comparison, as long as the flags are those it left.
-/

namespace Handheld

namespace Condition

/-! ## 1. Conditions as relations -/

/-- The four bits that stand for a condition. -/
def code : Condition → Word
  | eq => 0x0
  | ne => 0x1
  | cs => 0x2
  | cc => 0x3
  | mi => 0x4
  | pl => 0x5
  | vs => 0x6
  | vc => 0x7
  | hi => 0x8
  | ls => 0x9
  | ge => 0xA
  | lt => 0xB
  | gt => 0xC
  | le => 0xD
  | al => 0xE
  | nv => 0xF

theorem ofBits_of_and_eq {bits : Word} {cond : Condition} (h : bits &&& 0xF = cond.code) :
    ofBits bits = cond := by
  unfold ofBits
  rw [h]
  cases cond <;> rfl

/-- What a condition says about `a` and `b` once they have been compared.  Words are ordered as
unsigned numbers. -/
def Relates (cond : Condition) (a b : Word) : Prop :=
  match cond with
  | eq => a = b
  | ne => a ≠ b
  | cs => b ≤ a
  | cc => a < b
  | mi => (a - b).bit 31 = true
  | pl => (a - b).bit 31 = false
  | vs => a.signed - b.signed < -2 ^ 31 ∨ 2 ^ 31 ≤ a.signed - b.signed
  | vc => -2 ^ 31 ≤ a.signed - b.signed ∧ a.signed - b.signed < 2 ^ 31
  | hi => b < a
  | ls => a ≤ b
  | ge => b.signed ≤ a.signed
  | lt => a.signed < b.signed
  | gt => b.signed < a.signed
  | le => a.signed ≤ b.signed
  | al => True
  | nv => False

instance (cond : Condition) (a b : Word) : Decidable (cond.Relates a b) :=
  match cond with
  | eq => inferInstanceAs (Decidable (a = b))
  | ne => inferInstanceAs (Decidable (a ≠ b))
  | cs => inferInstanceAs (Decidable (b ≤ a))
  | cc => inferInstanceAs (Decidable (a < b))
  | mi => inferInstanceAs (Decidable ((a - b).bit 31 = true))
  | pl => inferInstanceAs (Decidable ((a - b).bit 31 = false))
  | vs => inferInstanceAs (Decidable (a.signed - b.signed < -2 ^ 31 ∨ 2 ^ 31 ≤ a.signed - b.signed))
  | vc => inferInstanceAs (Decidable (-2 ^ 31 ≤ a.signed - b.signed ∧ a.signed - b.signed < 2 ^ 31))
  | hi => inferInstanceAs (Decidable (b < a))
  | ls => inferInstanceAs (Decidable (a ≤ b))
  | ge => inferInstanceAs (Decidable (b.signed ≤ a.signed))
  | lt => inferInstanceAs (Decidable (a.signed < b.signed))
  | gt => inferInstanceAs (Decidable (b.signed < a.signed))
  | le => inferInstanceAs (Decidable (a.signed ≤ b.signed))
  | al => inferInstanceAs (Decidable True)
  | nv => inferInstanceAs (Decidable False)

end Condition

/-! ## 2. The flags of a comparison -/

theorem Word.signed_inj {a b : Word} : a.signed = b.signed ↔ a = b := by
  have ha := a.toNat_lt
  have hb := b.toNat_lt
  rw [Word.signed_eq, Word.signed_eq, ← UInt32.toNat_inj]
  split <;> split <;> omega

namespace Psr

variable (p : Psr) (a b : Word)

/-- The status word after `a` has been compared with `b`. -/
def compared : Psr := p.withResult (Alu.sub a b true)

theorem test_compared_negative : (p.compared a b).test negative = (a - b).bit 31 := by
  rw [← Alu.value_sub]
  exact test_withResult_negative p (Alu.sub a b true)

theorem test_compared_zero : (p.compared a b).test zero = decide (a = b) := by
  have ha := a.toNat_lt
  have hb := b.toNat_lt
  rw [compared, test_withResult_zero, (Alu.isExact_sub_true a b).zero]
  apply decide_eq_decide.2
  rw [← UInt32.toNat_inj]
  omega

theorem test_compared_carry : (p.compared a b).test carry = decide (b ≤ a) := by
  rw [compared, test_withResult_carry, (Alu.isExact_sub_true a b).carry]
  apply decide_eq_decide.2
  rw [UInt32.le_iff_toNat_le]
  omega

theorem test_compared_overflow :
    (p.compared a b).test overflow =
      decide (a.signed - b.signed < -2 ^ 31 ∨ 2 ^ 31 ≤ a.signed - b.signed) := by
  rw [compared, test_withResult_overflow, (Alu.isExact_sub_true a b).overflow]

theorem test_compared_less :
    ((p.compared a b).test negative != (p.compared a b).test overflow) =
      decide (a.signed < b.signed) := by
  have ha := a.toNat_lt
  have hb := b.toNat_lt
  rw [test_compared_overflow, compared, test_withResult_negative,
    (Alu.isExact_sub_true a b).negative, Bool.eq_iff_iff, Word.signed_eq, Word.signed_eq]
  -- The sign of the result is the wrong one just when it overflows.
  simp only [bne_iff_ne, ne_eq, decide_eq_decide, decide_eq_true_iff]
  split <;> split <;> omega

theorem test_compared_not_less :
    ((p.compared a b).test negative == (p.compared a b).test overflow) =
      decide (b.signed ≤ a.signed) := by
  have hless := test_compared_less p a b
  rw [bne, Bool.not_eq_eq_eq_not] at hless
  rw [hless, ← decide_not, decide_eq_decide]
  exact not_lt

end Psr

namespace Condition

theorem holds_compared (cond : Condition) (p : Psr) (a b : Word) :
    cond.holds (p.compared a b) = true ↔ cond.Relates a b := by
  have hn := p.test_compared_negative a b
  have hz := p.test_compared_zero a b
  have hc := p.test_compared_carry a b
  have hv := p.test_compared_overflow a b
  have hlt := p.test_compared_less a b
  have hge := p.test_compared_not_less a b
  cases cond with
  | eq => simp [holds, Relates, hz]
  | ne => simp [holds, Relates, hz]
  | cs => simp [holds, Relates, hc]
  | cc => simp [holds, Relates, hc]
  | mi => simp [holds, Relates, hn]
  | pl => simp [holds, Relates, hn]
  | vs => simp [holds, Relates, hv]
  | vc => simp [holds, Relates, hv]
  | ge => simp [holds, Relates, hge]
  | lt => simp [holds, Relates, hlt]
  | al => simp [holds, Relates]
  | nv => simp [holds, Relates]
  -- Two flags decide the four that are left, one of them equality.
  | hi =>
    have horder : b < a ↔ b ≤ a ∧ a ≠ b := by
      rw [UInt32.lt_iff_toNat_lt, UInt32.le_iff_toNat_le, ne_eq, ← UInt32.toNat_inj]
      omega
    simp [holds, Relates, hc, hz, horder]
  | ls =>
    have horder : a ≤ b ↔ a < b ∨ a = b := by
      rw [UInt32.lt_iff_toNat_lt, UInt32.le_iff_toNat_le, ← UInt32.toNat_inj]
      omega
    simp [holds, Relates, hc, hz, horder]
  | gt =>
    have horder : b.signed < a.signed ↔ a ≠ b ∧ b.signed ≤ a.signed := by
      rw [ne_eq, ← Word.signed_inj]
      omega
    simp [holds, Relates, hge, hz, horder]
  | le =>
    have horder : a.signed ≤ b.signed ↔ a = b ∨ a.signed < b.signed := by
      rw [← Word.signed_inj]
      omega
    simp [holds, Relates, hlt, hz, horder]

theorem holds_eq_of_flags {p q : Psr}
    (h : p.bits &&& Psr.conditionFlags = q.bits &&& Psr.conditionFlags) (cond : Condition) :
    cond.holds p = cond.holds q := by
  unfold holds
  rw [Psr.test_eq_of_and_eq (m := Psr.negative) h rfl, Psr.test_eq_of_and_eq (m := Psr.zero) h rfl,
    Psr.test_eq_of_and_eq (m := Psr.carry) h rfl, Psr.test_eq_of_and_eq (m := Psr.overflow) h rfl]

end Condition

/-! ## 3. Steps -/

/-- Where a conditional branch at `address` leads: twice its signed low byte from the instruction
plus four. -/
def Thumb.branchTarget (address op : Word) : Word :=
  let distance : Word := Word.signExtend 8 (op.field 0 8) <<< 1
  address + 4 + distance

namespace Cpu

variable {β : Type} [Bus β] {c : Cpu} {bus : β} {a b : Word}

/-- The next step compares `a` with `b`: by a 32-bit comparison with any second operand, or by a
16-bit one of registers or with a constant. -/
inductive Compares (c : Cpu) (bus : β) (a b : Word) : Prop where
  | arm {op : Word} (h : ExecutesArm c bus op)
    (hcompare : Arm.Calculates (c.setReg .pc ((c.pc &&& ~~~3) + 4)) (c.pc &&& ~~~3) op .cmp
      ⟨.subtract, none, a, b⟩)
  | thumb {op : Word} (h : ExecutesThumb c bus op)
    (hcompare : Thumb.Calculates (c.setReg .pc ((c.pc &&& ~~~1) + 2)) (c.pc &&& ~~~1) op
      ⟨.subtract, none, a, b⟩)

theorem cpsr_step_of_compares (h : Compares c bus a b) :
    (step c bus).2.1.cpsr = c.cpsr.compared a b := by
  cases h with
  | arm h hcompare =>
    show (perform c bus).2.1.cpsr = _
    rw [h.perform_eq, hcompare.execute_eq]
    rfl
  | thumb h hcompare =>
    show (perform c bus).2.1.cpsr = _
    rw [h.perform_eq, hcompare.execute_eq]
    rfl

theorem step_branchIf {op : Word} {cond : Condition} (h : ExecutesThumb c bus op)
    (hbranch : op &&& 0xF000 = 0xD000) (hcond : op.field 8 4 = cond.code) (hal : cond ≠ .al)
    (hnv : cond ≠ .nv) :
    step c bus =
      (1, c.skip (if cond.holds c.cpsr then Thumb.branchTarget (c.pc &&& ~~~1) op
          else (c.pc &&& ~~~1) + 2),
        (Bus.read16 bus (c.pc &&& ~~~1)).2) := by
  have hcode : op.toNat / 2 ^ 8 % 2 ^ 4 = cond.code.toNat :=
    (Word.toNat_field (i := 8) (n := 4) (by decide) (by decide) op).symm.trans
      (congrArg UInt32.toNat hcond)
  -- The other fourteen conditions all have a branch.
  have hlt : cond.code.toNat < 14 := by
    cases cond with
    | al => exact absurd rfl hal
    | nv => exact absurd rfl hnv
    | _ => decide
  have hdecode := Thumb.decode_eq_branchIf (w := op)
    ((Word.and_eq_iff_field (i := 12) (n := 4) (k := 13) rfl rfl op).1 hbranch) (hcode ▸ hlt)
  rw [Condition.ofBits_of_and_eq hcond] at hdecode
  unfold step
  rw [h.perform_eq, hdecode]
  unfold Thumb.execute
  dsimp only
  rw [cpsr_setReg]
  cases hholds : cond.holds c.cpsr with
  | true =>
    rw [if_pos rfl, if_pos rfl, setReg_setReg_self]
    rfl
  | false => rfl

/-- What a conditional instruction does at any time after a comparison whose flags are still there.
It is decided by the numbers that were compared, and one that is not executed only moves on. -/
theorem step_after_compare (h : Compares c bus a b) {d : Cpu} {bus' : β}
    (hflags : d.cpsr.bits &&& Psr.conditionFlags =
      (step c bus).2.1.cpsr.bits &&& Psr.conditionFlags)
    (hirq : takesIrq d bus' = false) (cond : Condition) (op : Word) :
    (d.cpsr.thumb = false → (Bus.read32 bus' (d.pc &&& ~~~3)).1 = op →
      op.field 28 4 = cond.code →
      (cond.Relates a b →
        perform d bus' =
          ((Arm.decode op).cost,
            Arm.execute (Arm.decode op) (d.setReg .pc ((d.pc &&& ~~~3) + 4))
              (Bus.read32 bus' (d.pc &&& ~~~3)).2 (d.pc &&& ~~~3))) ∧
      (¬ cond.Relates a b →
        step d bus' =
          (1, d.skip ((d.pc &&& ~~~3) + 4), (Bus.read32 bus' (d.pc &&& ~~~3)).2))) ∧
    (d.cpsr.thumb = true → (Bus.read16 bus' (d.pc &&& ~~~1)).1.toUInt32 = op →
      op &&& 0xF000 = 0xD000 → op.field 8 4 = cond.code → cond ≠ .al → cond ≠ .nv →
      (cond.Relates a b →
        step d bus' =
          (1, d.skip (Thumb.branchTarget (d.pc &&& ~~~1) op),
            (Bus.read16 bus' (d.pc &&& ~~~1)).2)) ∧
      (¬ cond.Relates a b →
        step d bus' =
          (1, d.skip ((d.pc &&& ~~~1) + 2), (Bus.read16 bus' (d.pc &&& ~~~1)).2))) := by
  -- Since the comparison the four flags have not changed, and no condition reads anything else.
  have hdecides : cond.holds d.cpsr = true ↔ cond.Relates a b := by
    rw [Condition.holds_eq_of_flags hflags, cpsr_step_of_compares h]
    exact cond.holds_compared c.cpsr a b
  constructor
  · intro harm hop hcode
    have hcond : Condition.ofBits (op >>> 28) = cond := Condition.ofBits_of_and_eq hcode
    constructor
    · intro hrel
      exact perform_arm hirq harm hop (by rw [hcond, hdecides]; exact hrel)
    · intro hrel
      have hfails : (Condition.ofBits (op >>> 28)).holds d.cpsr = false := by
        rw [hcond, ← Bool.not_eq_true, hdecides]
        exact hrel
      unfold step
      rw [perform_arm_of_not hirq harm hop hfails]
      rfl
  · intro hthumb hop hbranch hcode hal hnv
    have hstep := step_branchIf ⟨hirq, hthumb, hop⟩ hbranch hcode hal hnv
    constructor
    · intro hrel
      rw [hstep, if_pos (hdecides.2 hrel)]
    · intro hrel
      rw [hstep, if_neg (mt hdecides.1 hrel)]

/-- The least signed number is less than one, although as an unsigned number it is far greater and
the difference overflows: after `cmp r0, r1`, `addge` is skipped and `blt` branches to itself. -/
theorem step_after_compare_overflow :
    let c := (initial.setReg 0 0x80000000).setReg 1 1
    let program : FlatRam := ⟨⟨#[0x01, 0, 0x50, 0xE1, 0x01, 0, 0x80, 0xA2]⟩, false, by decide⟩
    let loop : FlatRam := ⟨⟨#[0, 0, 0, 0, 0xFE, 0xDB, 0, 0]⟩, false, by decide⟩
    let arm := (step c program).2.1
    let thumb := arm.setThumb true
    Compares c program 0x80000000 1 ∧ Condition.lt.Relates 0x80000000 1 ∧
      Condition.hi.Relates 0x80000000 1 ∧ (step arm program).2.1 = arm.skip 8 ∧
      (step thumb loop).2.1 = thumb.skip 4 := by
  intro c program loop arm thumb
  have hexecutes : ExecutesArm c program 0xE1500001 :=
    ⟨by decide, by decide, by decide, by decide⟩
  have hcompare : Compares c program 0x80000000 1 :=
    .arm hexecutes
      ⟨by decide, by decide, by decide, by decide, rfl, by decide, by decide, by decide⟩
  have hlt : Condition.lt.Relates 0x80000000 1 := by decide
  have hge : ¬ Condition.ge.Relates 0x80000000 1 := by decide
  have hfree : takesIrq arm program = false := by decide
  have hfree' : takesIrq thumb loop = false := by decide
  have hskip := ((step_after_compare hcompare rfl hfree .ge 0xA2800001).1 (by decide) (by decide)
    (by decide)).2 hge
  have hbranch := ((step_after_compare hcompare (by decide) hfree' .lt 0xDBFE).2 (by decide)
    (by decide) (by decide) (by decide) (by decide) (by decide)).1 hlt
  refine ⟨hcompare, hlt, by decide, ?_, ?_⟩
  · rw [hskip]
    decide
  · rw [hbranch]
    decide

end Cpu

end Handheld
