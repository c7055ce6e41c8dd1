import Handheld.Bus.FlatRam
import Handheld.Proofs.Arm.Unassigned
import Handheld.Proofs.Cost
import Handheld.Proofs.Thumb.Formats

/-!
# Steps over unassigned opcodes

An opcode that is ignored costs its cycle and is stepped over.  A stray one is not: it is carried
out as a status transfer or as data processing, on the registers its fields name.  Neither reaches
memory beyond the fetch.
-/

namespace Handheld

variable {β : Type} [Bus β]

/-- A stray opcode does not touch the bus. -/
theorem Arm.execute_strayInstruction_snd (op : Word) (c : Cpu) (bus : β) (address : Word) :
    (execute (strayInstruction op) c bus address).2 = bus := by
  unfold strayInstruction decodeStatus
  by_cases hstatus : op &&& 0x01900000 = 0x01000000
  · rw [if_pos hstatus]
    cases op.bit 21 <;> rfl
  · rw [if_neg hstatus]
    rfl

namespace Cpu

/-- The state after a step that only moves on to the next instruction. -/
def skip (c : Cpu) (next : Word) : Cpu := { c.setReg .pc next with cycles := c.cycles + 1 }

variable {c : Cpu} {bus : β}

theorem step_ignored_thumb (hirq : takesIrq c bus = false) (hthumb : c.cpsr.thumb = true)
    (h : Thumb.IsUnassigned (Bus.read16 bus (c.pc &&& ~~~1)).1.toUInt32) :
    step c bus = (1, c.skip ((c.pc &&& ~~~1) + 2), (Bus.read16 bus (c.pc &&& ~~~1)).2) := by
  unfold step
  rw [perform_thumb hirq hthumb, Thumb.decode_eq_ignored h]
  rfl

theorem step_ignored_arm (hirq : takesIrq c bus = false) (harm : c.cpsr.thumb = false)
    (h : Arm.IsIgnored (Bus.read32 bus (c.pc &&& ~~~3)).1) :
    step c bus = (1, c.skip ((c.pc &&& ~~~3) + 4), (Bus.read32 bus (c.pc &&& ~~~3)).2) := by
  unfold step
  -- Whether the condition holds makes no difference.
  cases hcond : (Condition.ofBits ((Bus.read32 bus (c.pc &&& ~~~3)).1 >>> 28)).holds c.cpsr with
  | false =>
    rw [perform_arm_of_not hirq harm rfl hcond]
    rfl
  | true =>
    rw [perform_arm hirq harm rfl hcond, Arm.decode_eq_ignored h]
    rfl

theorem step_stray {op : Word} (hirq : takesIrq c bus = false) (harm : c.cpsr.thumb = false)
    (hop : (Bus.read32 bus (c.pc &&& ~~~3)).1 = op)
    (hcond : (Condition.ofBits (op >>> 28)).holds c.cpsr = true) (h : Arm.IsStray op) :
    step c bus =
      (Arm.strayCost op,
        { (Arm.execute (Arm.strayInstruction op) (c.setReg .pc ((c.pc &&& ~~~3) + 4))
            (Bus.read32 bus (c.pc &&& ~~~3)).2 (c.pc &&& ~~~3)).1 with
          cycles := c.cycles + Arm.strayCost op },
        (Bus.read32 bus (c.pc &&& ~~~3)).2) := by
  have hcycles := cycles_perform c bus
  unfold step
  rw [perform_arm hirq harm hop hcond, Arm.decode_stray h] at hcycles ⊢
  dsimp only at hcycles ⊢
  rw [hcycles, Arm.execute_strayInstruction_snd, Arm.cost_strayInstruction]

/-- The holes in both instruction sets.  Outside class `00x` of the 32-bit opcodes they are stepped
over; inside it they are carried out as what the last two tests of the decoder make of them. -/
theorem step_unassigned (hirq : takesIrq c bus = false) :
    (c.cpsr.thumb = true →
      Thumb.IsUnassigned (Bus.read16 bus (c.pc &&& ~~~1)).1.toUInt32 →
      step c bus = (1, c.skip ((c.pc &&& ~~~1) + 2), (Bus.read16 bus (c.pc &&& ~~~1)).2)) ∧
    (c.cpsr.thumb = false → Arm.IsIgnored (Bus.read32 bus (c.pc &&& ~~~3)).1 →
      step c bus = (1, c.skip ((c.pc &&& ~~~3) + 4), (Bus.read32 bus (c.pc &&& ~~~3)).2)) ∧
    (c.cpsr.thumb = false → ∀ op, (Bus.read32 bus (c.pc &&& ~~~3)).1 = op → Arm.IsStray op →
      (Condition.ofBits (op >>> 28)).holds c.cpsr = true →
      step c bus =
        (Arm.strayCost op,
          { (Arm.execute (Arm.strayInstruction op) (c.setReg .pc ((c.pc &&& ~~~3) + 4))
              (Bus.read32 bus (c.pc &&& ~~~3)).2 (c.pc &&& ~~~3)).1 with
            cycles := c.cycles + Arm.strayCost op },
          (Bus.read32 bus (c.pc &&& ~~~3)).2)) :=
  ⟨step_ignored_thumb hirq, step_ignored_arm hirq, fun harm _ hop hstray hcond =>
    step_stray hirq harm hop hcond hstray⟩

/-- `0xDE00`, a coprocessor opcode, and an opcode that only resembles a status transfer and reads
the status word all the same. -/
theorem step_unassigned_holes :
    let thumb := initial.setThumb true
    let undefined : FlatRam := ⟨⟨#[0x00, 0xDE]⟩, false, by decide⟩
    let coprocessor : FlatRam := ⟨⟨#[0, 0, 0, 0xEE]⟩, false, by decide⟩
    let stray : FlatRam := ⟨⟨#[0, 0, 0, 0xE3]⟩, false, by decide⟩
    Thumb.IsUnassigned 0xDE00 ∧ Arm.IsIgnored 0xEE000000 ∧ Arm.IsStray 0xE3000000 ∧
      (step thumb undefined).2.1 = thumb.skip 2 ∧
      (step initial coprocessor).2.1 = initial.skip 4 ∧
      (step initial stray).2.1 = (initial.setReg 0 0x1F).skip 4 := by
  intro thumb undefined coprocessor stray
  have hundefined : takesIrq thumb undefined = false := by decide
  have hcoprocessor : takesIrq initial coprocessor = false := by decide
  have hstray : takesIrq initial stray = false := by decide
  rw [(step_unassigned hundefined).1 (by decide) (by decide),
    (step_unassigned hcoprocessor).2.1 (by decide) (by decide),
    (step_unassigned hstray).2.2 (by decide) 0xE3000000 (by decide) (by decide) (by decide)]
  exact ⟨by decide, by decide, by decide, by decide, by decide, by decide⟩

/-- So not every hole is stepped over. -/
theorem step_stray_not_skip :
    ¬ ∀ (c : Cpu) (ram : FlatRam), takesIrq c ram = false → c.cpsr.thumb = false →
      Arm.IsStray (Bus.read32 ram (c.pc &&& ~~~3)).1 →
      (Condition.ofBits ((Bus.read32 ram (c.pc &&& ~~~3)).1 >>> 28)).holds c.cpsr = true →
      step c ram = (1, c.skip ((c.pc &&& ~~~3) + 4), (Bus.read32 ram (c.pc &&& ~~~3)).2) := by
  intro h
  have hskip := h initial ⟨⟨#[0, 0, 0, 0xE3]⟩, false, by decide⟩ (by decide) (by decide)
    (by decide) (by decide)
  have hreg := congrArg (fun after => after.2.1.reg 0) hskip
  exact absurd hreg (by decide)

end Cpu

end Handheld
