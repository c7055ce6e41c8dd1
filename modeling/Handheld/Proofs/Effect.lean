import Handheld.Arm.Execute
import Handheld.Proofs.Banks
import Handheld.Thumb.Execute

/-!
# What one instruction can do

The state of the processor beyond its live registers and condition flags changes in a few ways only:
an instruction exchanges the instruction set, enters an exception, writes a status word or returns
from an exception.  Everything else keeps it.  The two executors are classified here once, so that
an invariant of the control state needs one argument for each way and none for each instruction.
-/

namespace Handheld

namespace Cpu

/-- `c'` agrees with `c` on all but live registers and condition flags. -/
structure KeepsControl (c c' : Cpu) : Prop where
  saved : c'.saved = c.saved
  banked : c'.banked = c.banked
  cycles : c'.cycles = c.cycles
  control : c'.cpsr.control = c.cpsr.control

/-- The ways in which an instruction other than the software interrupt takes the processor from `c`
to another state. -/
inductive Quiet (c : Cpu) : Cpu → Prop where
  | ordinary {c' : Cpu} (h : c.KeepsControl c') : Quiet c c'
  | exchange (thumb : Bool) (target : Word) : Quiet c ((c.setThumb thumb).setReg .pc target)
  | writeStatus (saved : Bool) (mask v : Word) : Quiet c (Arm.writeStatus c saved mask v)
  | restore (target : Word) : Quiet c (c.setReg .pc target).restoreCpsr

/-- The ways in which an instruction takes the processor from `c` to another state. -/
inductive Effect (c : Cpu) : Cpu → Prop where
  | quiet {c' : Cpu} (h : c.Quiet c') : Effect c c'
  | enter (e : Exception) : Effect c (c.enter e)

/-! ## 1. Ordinary updates -/

/-- What passes every write of a list of registers passes the writing of the list. -/
theorem setRegs_comm {f : Cpu → Cpu} {rs : List Reg}
    (h : ∀ r ∈ rs, ∀ c v, f (c.setReg r v) = (f c).setReg r v) (c : Cpu) (vs : List Word) :
    f (c.setRegs rs vs) = (f c).setRegs rs vs := by
  induction rs generalizing c vs with
  | nil => rfl
  | cons r rs ih =>
    cases vs with
    | nil => rfl
    | cons v vs =>
      show f ((c.setReg r v).setRegs rs vs) = ((f c).setReg r v).setRegs rs vs
      rw [ih fun s hs => h s (List.mem_cons_of_mem r hs), h r List.mem_cons_self]

/-- What no write of a list of registers changes is the same after the list. -/
theorem setRegs_keeps {α : Type} {f : Cpu → α} {rs : List Reg}
    (h : ∀ r ∈ rs, ∀ c v, f (c.setReg r v) = f c) (c : Cpu) (vs : List Word) :
    f (c.setRegs rs vs) = f c := by
  induction rs generalizing c vs with
  | nil => rfl
  | cons r rs ih =>
    cases vs with
    | nil => rfl
    | cons v vs =>
      show f ((c.setReg r v).setRegs rs vs) = f c
      rw [ih fun s hs => h s (List.mem_cons_of_mem r hs), h r List.mem_cons_self]

theorem cpsr_setRegs (c : Cpu) (rs : List Reg) (vs : List Word) :
    (c.setRegs rs vs).cpsr = c.cpsr :=
  setRegs_keeps (fun r _ c v => cpsr_setReg c r v) c vs

theorem saved_setRegs (c : Cpu) (rs : List Reg) (vs : List Word) :
    (c.setRegs rs vs).saved = c.saved :=
  setRegs_keeps (fun r _ c v => saved_setReg c r v) c vs

theorem banked_setRegs (c : Cpu) (rs : List Reg) (vs : List Word) :
    (c.setRegs rs vs).banked = c.banked :=
  setRegs_keeps (fun r _ c v => banked_setReg c r v) c vs

theorem reg_setRegs_of_not_mem {rs : List Reg} {r : Reg} (h : r ∉ rs) (c : Cpu) (vs : List Word) :
    (c.setRegs rs vs).reg r = c.reg r :=
  setRegs_keeps (f := fun c => c.reg r)
    (fun _ hs c v => reg_setReg_ne c v (ne_of_mem_of_not_mem hs h)) c vs

/-- A list of registers receives what goes with each of them, also where one is listed twice. -/
theorem reg_setRegs_map {rs : List Reg} {r : Reg} (h : r ∈ rs) (c : Cpu) (f : Reg → Word) :
    (c.setRegs rs (rs.map f)).reg r = f r := by
  induction rs generalizing c with
  | nil => cases h
  | cons s rs ih =>
    show ((c.setReg s (f s)).setRegs rs (rs.map f)).reg r = f r
    by_cases hmem : r ∈ rs
    · exact ih hmem _
    · obtain rfl := (List.mem_cons.1 h).resolve_right hmem
      rw [reg_setRegs_of_not_mem hmem, reg_setReg_self]

@[simp] theorem KeepsControl.refl (c : Cpu) : c.KeepsControl c := ⟨rfl, rfl, rfl, rfl⟩

@[simp] theorem keepsControl_setReg {c d : Cpu} {r : Reg} {v : Word} :
    c.KeepsControl (d.setReg r v) ↔ c.KeepsControl d :=
  ⟨fun ⟨hs, hb, hn, hp⟩ => ⟨hs, hb, hn, hp⟩, fun ⟨hs, hb, hn, hp⟩ => ⟨hs, hb, hn, hp⟩⟩

@[simp] theorem keepsControl_setRegs {c d : Cpu} {rs : List Reg} {vs : List Word} :
    c.KeepsControl (d.setRegs rs vs) ↔ c.KeepsControl d := by
  fun_induction setRegs d rs vs with
  | case1 d r rs v vs ih => rw [ih, keepsControl_setReg]
  | case2 => rfl

theorem KeepsControl.withFlags {c d : Cpu} {q : Psr} (h : c.KeepsControl d)
    (hq : q.control = c.cpsr.control) : c.KeepsControl { d with cpsr := q } :=
  ⟨h.saved, h.banked, h.cycles, hq⟩

theorem KeepsControl.bank_eq {c c' : Cpu} (h : c.KeepsControl c') :
    c'.cpsr.bank = c.cpsr.bank :=
  Psr.bank_eq_of_modeBits_eq (Psr.and_eq_of_control_eq h.control (by decide))

end Cpu

/-! ## 2. The 32-bit instructions -/

namespace Arm

open Cpu

/-- Whether the instruction stays clear of status words, exceptions and the instruction set. -/
def Instruction.isOrdinary : Instruction → Bool
  | .branchExchange _ | .softwareInterrupt | .writeStatus _ _ _ => false
  | .dataProcessing op setFlags dest _ _ => !(setFlags && op.writes && dest == Reg.pc)
  | _ => true

/-- The instructions that do not. -/
theorem Instruction.of_not_isOrdinary {i : Instruction} (h : ¬ i.isOrdinary = true) :
    (∃ target, i = .branchExchange target) ∨ i = .softwareInterrupt ∨
      (∃ saved mask v, i = .writeStatus saved mask v) ∨
      ∃ op left right, op.writes = true ∧ i = .dataProcessing op true .pc left right := by
  cases i with
  | branchExchange target => exact .inl ⟨target, rfl⟩
  | softwareInterrupt => exact .inr (.inl rfl)
  | writeStatus saved mask v => exact .inr (.inr (.inl ⟨saved, mask, v, rfl⟩))
  | dataProcessing op setFlags dest left right =>
    obtain ⟨⟨rfl, hop⟩, rfl⟩ : (setFlags = true ∧ op.writes = true) ∧ dest = .pc := by
      simpa [isOrdinary] using h
    exact .inr (.inr (.inr ⟨op, left, right, hop, rfl⟩))
  | _ => exact absurd rfl h

theorem keepsControl_multiply (c : Cpu) (accumulate setFlags : Bool)
    (dest left right addend : Reg) :
    c.KeepsControl (multiply c accumulate setFlags dest left right addend) := by
  unfold multiply
  cases setFlags with
  | false => simp
  | true => exact KeepsControl.withFlags (by simp) (Psr.control_withSign _ _)

theorem keepsControl_multiplyLong (c : Cpu) (signed accumulate setFlags : Bool)
    (high low left right : Reg) :
    c.KeepsControl (multiplyLong c signed accumulate setFlags high low left right) := by
  unfold multiplyLong
  cases setFlags with
  | false => simp
  | true => exact KeepsControl.withFlags (by simp) (Psr.control_withSign64 _ _)

theorem keepsControl_dataProcessing {op : AluOp} {setFlags : Bool} {dest : Reg}
    (h : (setFlags && op.writes && dest == Reg.pc) = false) (c : Cpu) (left : Reg)
    (right : Operand) (address : Word) :
    c.KeepsControl (dataProcessing c op setFlags dest left right address) := by
  unfold dataProcessing
  cases setFlags with
  | false => cases op.writes <;> simp
  | true =>
    -- Flags are set, and the return from an exception is excluded.
    rw [Bool.true_and] at h
    rw [h]
    cases op.writes <;> exact .withFlags (by simp) (Psr.control_withResult _ _)

/-- Setting the flags while writing the program counter. -/
theorem dataProcessing_return {op : AluOp} (hop : op.writes = true) (c : Cpu) (left : Reg)
    (right : Operand) (address : Word) :
    dataProcessing c op true .pc left right address =
      (c.setReg .pc (op.result (c.operand left (right.pcAt address))
        (right.value c (right.pcAt address)) c.cpsr).value).restoreCpsr := by
  unfold dataProcessing
  simp only [hop, Bool.not_true, Bool.false_eq_true, if_false, if_true, Bool.true_and,
    beq_self_eq_true]

section Memory

variable {β : Type} [Bus β]

theorem keepsControl_transfer (t : Transfer) (c : Cpu) (bus : β) (address : Word) :
    c.KeepsControl (t.execute c bus address).1 := by
  -- The base may be written back first, whatever is moved then.
  have hbased :
      c.KeepsControl (if t.writeBack then c.setReg t.base (t.moved c address) else c) := by
    split <;> simp
  unfold Transfer.execute
  cases t.move <;> simpa using hbased

theorem keepsControl_swap (c : Cpu) (bus : β) (byte : Bool) (dest source base : Reg) :
    c.KeepsControl (swap c bus byte dest source base).1 := by
  unfold swap
  cases byte <;> simp

theorem keepsControl_execute {i : Instruction} (hi : i.isOrdinary = true) (c : Cpu) (bus : β)
    (address : Word) : c.KeepsControl (execute i c bus address).1 := by
  cases i with
  | branchExchange target => cases hi
  | branch link distance =>
    show c.KeepsControl (branch c link distance address)
    unfold branch
    cases link <;> simp
  | softwareInterrupt => cases hi
  | push regs => simp [execute, push]
  | pop regs => simp [execute, pop]
  | transfer t => exact keepsControl_transfer t c bus address
  | multiply accumulate setFlags dest left right addend =>
    exact keepsControl_multiply c accumulate setFlags dest left right addend
  | multiplyLong signed accumulate setFlags high low left right =>
    exact keepsControl_multiplyLong c signed accumulate setFlags high low left right
  | swap byte dest source base => exact keepsControl_swap c bus byte dest source base
  | readStatus saved dest => simp [execute, readStatus]
  | writeStatus saved mask v => cases hi
  | dataProcessing op setFlags dest left right =>
    exact keepsControl_dataProcessing ((Bool.not_eq_true' _).mp hi) c left right address
  | ignored => exact .refl c

/-- Every instruction but the software interrupt stays clear of exceptions. -/
theorem quiet_execute {i : Instruction} (hi : i ≠ .softwareInterrupt) (c : Cpu) (bus : β)
    (address : Word) : c.Quiet (execute i c bus address).1 := by
  by_cases hordinary : i.isOrdinary = true
  · exact .ordinary (keepsControl_execute hordinary c bus address)
  · rcases Instruction.of_not_isOrdinary hordinary with
      ⟨target, rfl⟩ | rfl | ⟨saved, mask, v, rfl⟩ | ⟨op, left, right, hop, rfl⟩
    · exact .exchange _ _
    · exact absurd rfl hi
    · exact .writeStatus saved mask _
    · show c.Quiet (dataProcessing c op true .pc left right address)
      rw [dataProcessing_return hop]
      exact .restore _

theorem effect_execute (i : Instruction) (c : Cpu) (bus : β) (address : Word) :
    c.Effect (execute i c bus address).1 := by
  by_cases hi : i = .softwareInterrupt
  · subst hi
    exact .enter .softwareInterrupt
  · exact .quiet (quiet_execute hi c bus address)

end Memory

end Arm

/-! ## 3. The 16-bit instructions -/

namespace Thumb

open Cpu

/-- Whether the instruction stays clear of exceptions and the instruction set. -/
def Instruction.isOrdinary : Instruction → Bool
  | .branchExchange _ | .softwareInterrupt => false
  | _ => true

theorem Instruction.of_not_isOrdinary {i : Instruction} (h : ¬ i.isOrdinary = true) :
    (∃ target, i = .branchExchange target) ∨ i = .softwareInterrupt := by
  cases i with
  | branchExchange target => exact .inl ⟨target, rfl⟩
  | softwareInterrupt => exact .inr rfl
  | _ => exact absurd rfl h

theorem keepsControl_setFlags {c d : Cpu} {r : AluResult} (h : c.KeepsControl d) :
    c.KeepsControl (setFlags d r) :=
  h.withFlags ((Psr.control_withResult _ _).trans h.control)

theorem keepsControl_setSign {c d : Cpu} {v : Word} (h : c.KeepsControl d) :
    c.KeepsControl (setSign d v) :=
  h.withFlags ((Psr.control_withSign _ _).trans h.control)

theorem keepsControl_writeResult (c : Cpu) (dest : Reg) (r : AluResult) :
    c.KeepsControl (writeResult c dest r) :=
  keepsControl_setFlags (by simp)

theorem keepsControl_writeLogical (c : Cpu) (dest : Reg) (v : Word) :
    c.KeepsControl (writeLogical c dest v) :=
  keepsControl_setSign (by simp)

theorem keepsControl_writeShifted (c : Cpu) (dest : Reg) (s : Shifted) :
    c.KeepsControl (writeShifted c dest s) := by
  have h := keepsControl_writeLogical c dest s.value
  exact h.withFlags ((Psr.control_assign_carry _ _).trans h.control)

theorem keepsControl_withConstant (c : Cpu) (op : ConstantOp) (r : Reg) (n : Word) :
    c.KeepsControl (withConstant c op r n) := by
  cases op with
  | mov => exact keepsControl_writeLogical c r n
  | cmp => exact keepsControl_setFlags (.refl c)
  | add => exact keepsControl_writeResult c r _
  | sub => exact keepsControl_writeResult c r _

theorem keepsControl_alu (c : Cpu) (op : AluOp) (dest source : Reg) :
    c.KeepsControl (alu c op dest source) := by
  cases op with
  | and | eor | orr | mul | bic | mvn => exact keepsControl_writeLogical c dest _
  | lsl | lsr | asr | ror => exact keepsControl_writeShifted c dest _
  | adc | sbc | neg => exact keepsControl_writeResult c dest _
  | tst => exact keepsControl_setSign (.refl c)
  | cmp | cmn => exact keepsControl_setFlags (.refl c)

section Memory

variable {β : Type} [Bus β]

theorem keepsControl_pop (c : Cpu) (bus : β) (regs : List Reg) (withPc : Bool) :
    c.KeepsControl (pop c bus regs withPc).1 := by
  unfold pop
  cases withPc <;> simp

theorem keepsControl_loadMultiple (c : Cpu) (bus : β) (base : Reg) (regs : List Reg) :
    c.KeepsControl (loadMultiple c bus base regs).1 := by
  unfold loadMultiple
  dsimp only
  split <;> simp

theorem keepsControl_execute {i : Instruction} (hi : i.isOrdinary = true) (c : Cpu) (bus : β)
    (address : Word) : c.KeepsControl (execute i c bus address).1 := by
  cases i with
  | shift kind amount dest source => exact keepsControl_writeShifted c dest _
  | add dest left right => exact keepsControl_writeResult c dest _
  | subtract dest left right => exact keepsControl_writeResult c dest _
  | withConstant op r n => exact keepsControl_withConstant c op r n
  | alu op dest source => exact keepsControl_alu c op dest source
  | addAny dest source => simp [execute, writeAny]
  | compareAny left right => exact keepsControl_setFlags (.refl c)
  | moveAny dest source => simp [execute, writeAny]
  | branchExchange target => cases hi
  | loadLiteral dest offset => simp [execute]
  | load kind dest base offset => simp [execute, load]
  | store kind data base offset => simp [execute]
  | addressOf fromStack dest offset => simp [execute]
  | moveStack offset => simp [execute]
  | push regs => simp [execute, push]
  | pop regs withPc => exact keepsControl_pop c bus regs withPc
  | storeMultiple base regs => simp [execute, storeMultiple]
  | loadMultiple base regs => exact keepsControl_loadMultiple c bus base regs
  | softwareInterrupt => cases hi
  | branchIf cond distance =>
    simp only [execute]
    split <;> simp
  | branch distance => simp [execute]
  | callHigh distance => simp [execute]
  | callLow distance => simp [execute, callLow]
  | ignored => exact .refl c

theorem quiet_execute {i : Instruction} (hi : i ≠ .softwareInterrupt) (c : Cpu) (bus : β)
    (address : Word) : c.Quiet (execute i c bus address).1 := by
  by_cases hordinary : i.isOrdinary = true
  · exact .ordinary (keepsControl_execute hordinary c bus address)
  · rcases Instruction.of_not_isOrdinary hordinary with ⟨target, rfl⟩ | rfl
    · exact .exchange _ _
    · exact absurd rfl hi

theorem effect_execute (i : Instruction) (c : Cpu) (bus : β) (address : Word) :
    c.Effect (execute i c bus address).1 := by
  by_cases hi : i = .softwareInterrupt
  · subst hi
    exact .enter .softwareInterrupt
  · exact .quiet (quiet_execute hi c bus address)

end Memory

end Thumb

end Handheld
