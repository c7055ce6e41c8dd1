import Handheld.Bus.FlatRam
import Handheld.Proofs.Adder
import Handheld.Proofs.Isolation

/-!
# Returning from an exception

A handler returns by a flag-setting data-processing instruction that writes the program counter: the
saved status word comes back with it, and with the status word the bank of the program that was
interrupted.  With isolation this makes the return undo the entry, whatever the handler did.
-/

namespace Handheld.Cpu

/-! ## 1. The state at the start of a handler -/

theorem reg_enter_lr (c : Cpu) (e : Exception) : (c.enter e).reg .lr = c.pc := by
  unfold enter
  rw [reg_setReg_ne _ _ (by decide)]
  exact reg_setReg_self _ _ _

theorem pc_enter (c : Cpu) (e : Exception) : (c.enter e).pc = e.vector := reg_setReg_self _ _ _

theorem reg_enter {r : Reg} (hr : r.val < 13) (c : Cpu) (e : Exception) :
    (c.enter e).reg r = c.reg r := by
  obtain ⟨hsp, hlr, hpc⟩ := Reg.ne_of_val_lt hr
  unfold enter
  rw [reg_setReg_ne _ _ hpc.symm]
  show (((c.switchMode e.mode).setSpsr c.cpsr.bits).setReg .lr c.pc).reg r = c.reg r
  rw [reg_setReg_ne _ _ hlr.symm, reg_setSpsr]
  exact reg_activate hsp hlr c e.mode.bank

theorem thumb_enter (c : Cpu) (e : Exception) : (c.enter e).cpsr.thumb = false := by
  rw [cpsr_enter]
  exact Psr.test_assign_self (by decide) _ _

theorem flag_irqDisable_enter (c : Cpu) (e : Exception) :
    (c.enter e).flag Psr.irqDisable = true := by
  unfold flag
  rw [cpsr_enter, Psr.test_assign_of_disjoint (by decide)]
  exact Psr.test_assign_self (by decide) _ _

theorem spsr?_setSpsr {c : Cpu} (h : c.cpsr.bank ≠ 0) (v : Word) :
    (c.setSpsr v).spsr? = some v := by
  obtain ⟨slot, hslot⟩ : ∃ slot, c.cpsr.bank.savedSlot? = some slot :=
    ⟨c.cpsr.bank.pred h, by rw [Bank.savedSlot?, dif_neg h]⟩
  unfold spsr? savedOf?
  rw [cpsr_setSpsr, hslot]
  simp [setSpsr, hslot]

theorem spsr?_enter (c : Cpu) (e : Exception) : (c.enter e).spsr? = some c.cpsr.bits := by
  -- The handler's mode has a saved status word, and is the current one when that is set.
  have hbank := bank_switchMode c e.mode
  have hne : (c.switchMode e.mode).cpsr.bank ≠ 0 := by rw [hbank]; cases e <;> decide
  have hspsr := spsr?_setSpsr hne c.cpsr.bits
  unfold spsr? at hspsr ⊢
  rw [cpsr_setSpsr, hbank] at hspsr
  rw [bank_enter]
  exact hspsr

/-! ## 2. The return -/

@[simp] theorem spsr?_setReg (c : Cpu) (r : Reg) (v : Word) : (c.setReg r v).spsr? = c.spsr? := rfl

/-- Without a saved status word there is nothing to go back to. -/
theorem restoreCpsr_setReg_of_none {c : Cpu} (h : c.spsr? = none) (r : Reg) (v : Word) :
    (c.setReg r v).restoreCpsr = c.setReg r v := by
  unfold restoreCpsr
  rw [spsr?_setReg, h]

theorem file_setReg_pc (c : Cpu) (v : Word) : (c.setReg .pc v).file = { c.file with pc := v } := by
  apply RegisterFile.ext
  · funext i
    obtain ⟨-, -, hpc⟩ := Reg.ne_of_val_lt (r := ⟨i, by omega⟩) i.isLt
    exact reg_setReg_ne c v hpc.symm
  · exact reg_setReg_self c .pc v
  · exact funext (pair_setReg_of_ne (by decide) (by decide) c v)
  · rfl
  · rfl
  · rfl

/-- Writing the program counter and the flags together takes the status word from the saved one. -/
theorem file_dataProcessing_pc {c : Cpu} {op : Arm.AluOp} {w : Word} (hop : op.writes = true)
    (hspsr : c.spsr? = some w) (left : Reg) (right : Arm.Operand) (address : Word) :
    (Arm.dataProcessing c op true .pc left right address).file =
      { c.file with
        pc := (op.result (c.operand left (right.pcAt address))
          (right.value c (right.pcAt address)) c.cpsr).value
        status := ⟨w⟩ } := by
  rw [Arm.dataProcessing_return hop, file_restoreCpsr (by rw [spsr?_setReg, hspsr]),
    file_setReg_pc]

variable {β : Type} [Bus β]

/-- A step that returns: its instruction computes the target `v` from registers other than the
program counter. -/
theorem file_step_return {c : Cpu} {bus : β} {word w v : Word} {op : Arm.AluOp} {left : Reg}
    {right : Arm.Operand} (hirq : takesIrq c bus = false) (harm : c.cpsr.thumb = false)
    (hword : (Bus.read32 bus (c.pc &&& ~~~3)).1 = word)
    (hcond : Condition.ofBits (word >>> 28) = .al)
    (hdecode : Arm.decode word = .dataProcessing op true .pc left right) (hop : op.writes = true)
    (hspsr : c.spsr? = some w)
    (hvalue : ∀ (d : Cpu) (pc : Word), (∀ r ≠ .pc, d.reg r = c.reg r) →
      (op.result (d.operand left pc) (right.value d pc) d.cpsr).value = v) :
    (step c bus).2.1.file =
      { c.file with
        pc := v
        status := ⟨w⟩
        cycles := (step c bus).2.1.cycles } := by
  have hexecute : (perform c bus).2.1 =
      Arm.dataProcessing (c.setReg .pc ((c.pc &&& ~~~3) + 4)) op true .pc left right
        (c.pc &&& ~~~3) := by
    rw [perform_arm hirq harm hword (by rw [hcond]; rfl), hdecode]
    rfl
  have hfile : (perform c bus).2.1.file = { c.file with pc := v, status := ⟨w⟩ } := by
    rw [hexecute, file_dataProcessing_pc hop (by rw [spsr?_setReg, hspsr]), file_setReg_pc,
      hvalue _ _ fun r hr => reg_setReg_ne c _ hr.symm]
  show { (perform c bus).2.1.file with cycles := (step c bus).2.1.cycles } = _
  rw [hfile]

/-- `MOVS PC, LR`. -/
theorem file_step_movs_pc_lr {c : Cpu} {bus : β} {w : Word} (hirq : takesIrq c bus = false)
    (harm : c.cpsr.thumb = false) (hword : (Bus.read32 bus (c.pc &&& ~~~3)).1 = 0xE1B0F00E)
    (hspsr : c.spsr? = some w) :
    (step c bus).2.1.file =
      { c.file with
        pc := c.reg .lr
        status := ⟨w⟩
        cycles := (step c bus).2.1.cycles } := by
  have hdecode : Arm.decode 0xE1B0F00E =
      .dataProcessing .mov true .pc 0 (.shifted .lr .lsl 0) := by decide
  refine file_step_return hirq harm hword rfl hdecode rfl hspsr fun d pc hd => ?_
  show d.operand .lr pc = c.reg .lr
  rw [operand_of_ne (by decide), hd .lr (by decide)]

/-- `SUBS PC, LR, #4`. -/
theorem file_step_subs_pc_lr {c : Cpu} {bus : β} {w : Word} (hirq : takesIrq c bus = false)
    (harm : c.cpsr.thumb = false) (hword : (Bus.read32 bus (c.pc &&& ~~~3)).1 = 0xE25EF004)
    (hspsr : c.spsr? = some w) :
    (step c bus).2.1.file =
      { c.file with
        pc := c.reg .lr - 4
        status := ⟨w⟩
        cycles := (step c bus).2.1.cycles } := by
  have hdecode : Arm.decode 0xE25EF004 = .dataProcessing .sub true .pc .lr (.constant 4) := by
    decide
  refine file_step_return hirq harm hword rfl hdecode rfl hspsr fun d pc hd => ?_
  show (Alu.sub (d.operand .lr pc) 4 true).value = c.reg .lr - 4
  rw [Alu.value_sub, operand_of_ne (by decide), hd .lr (by decide)]

/-! ## 3. Round trips -/

/-- `MOVS PC, LR` undoes the entry of an exception whatever the handler did in `n` steps, if it
stayed in its mode and ends with the link register and the saved status word it was given. -/
theorem movs_pc_lr_undoes_enter {c d : Cpu} {e : Exception} {bus bus' : β} {n : Nat}
    (hbank : e.mode.bank ≠ c.cpsr.bank) (hrun : (steps n (c.enter e) bus).2 = (d, bus'))
    (hmode : ∀ k ≤ n, (steps k (c.enter e) bus).2.1.cpsr.modeBits = e.mode.bits)
    (harm : d.cpsr.thumb = false) (hlr : d.reg .lr = (c.enter e).reg .lr)
    (hspsr : d.spsr? = (c.enter e).spsr?) (hirq : takesIrq d bus' = false)
    (hword : (Bus.read32 bus' (d.pc &&& ~~~3)).1 = 0xE1B0F00E) :
    let after := (steps (n + 1) (c.enter e) bus).2.1
    after.pc = c.pc ∧ after.cpsr = c.cpsr ∧
      after.reg .sp = c.reg .sp ∧ after.reg .lr = c.reg .lr ∧
      ∀ b ≠ e.mode.bank, after.pair b = c.pair b := by
  intro after
  rw [spsr?_enter] at hspsr
  rw [reg_enter_lr] at hlr
  have hafter : after = (step d bus').2.1 := by
    show (steps (n + 1) (c.enter e) bus).2.1 = _
    rw [steps_succ_snd_last, hrun]
  have hfile := file_step_movs_pc_lr hirq harm hword hspsr
  rw [← hafter] at hfile
  have hpc : after.pc = c.pc := (congrArg RegisterFile.pc hfile).trans hlr
  have hcpsr : after.cpsr = c.cpsr := congrArg RegisterFile.status hfile
  have hpair : ∀ b ≠ e.mode.bank, after.pair b = c.pair b := by
    intro b hb
    -- Neither the return nor any step of the handler, and not the entry, reached the bank.
    have hreturn : after.pair b = d.pair b := congrArg (fun f => f.pairs b) hfile
    have hhandler : d.pair b = (c.enter e).pair b := by
      have hd : (steps n (c.enter e) bus).2.1 = d := congrArg Prod.fst hrun
      rw [← hd]
      refine pair_steps fun k hk => ?_
      rw [Psr.bank_of_modeBits (hmode k hk)]
      exact hb
    rw [hreturn, hhandler, pair_enter, if_neg hb]
  -- The bank of the interrupted program is live again, so its pair is in the live registers.
  have hlive := hpair c.cpsr.bank hbank.symm
  rw [pair, pair, hcpsr, if_pos rfl, if_pos rfl] at hlive
  exact ⟨hpc, hcpsr, congrArg StackLink.sp hlive, congrArg StackLink.lr hlive, hpair⟩

/-- A software interrupt from System mode, whose handler spoils its stack pointer before it
returns. -/
theorem movs_pc_lr_undoes_enter_softwareInterrupt :
    let ram : FlatRam :=
      ⟨⟨#[0, 0, 0, 0, 0, 0, 0, 0, 0xFF, 0xD0, 0xA0, 0xE3, 0x0E, 0xF0, 0xB0, 0xE1]⟩, false,
        by decide⟩
    let c := (initial.setReg .sp 0x03007F00).setReg .pc 0x100
    let run (n : Nat) := (steps n (c.enter .softwareInterrupt) ram).2.1
    (run 1).reg .sp = 0xFF ∧ (run 2).pc = 0x100 ∧ (run 2).reg .sp = 0x03007F00 ∧
      (run 2).cpsr = c.cpsr := by
  intro ram c run
  have hmode : ∀ k ≤ 1, (run k).cpsr.modeBits = Mode.supervisor.bits := by decide
  have hrun : (steps 1 (c.enter .softwareInterrupt) ram).2 =
      (run 1, (steps 1 (c.enter .softwareInterrupt) ram).2.2) := rfl
  obtain ⟨hpc, hcpsr, hsp, -, -⟩ := movs_pc_lr_undoes_enter (by decide) hrun hmode (by decide)
    (by decide) (by decide) (by decide) (by decide)
  exact ⟨by decide, hpc, hsp, hcpsr⟩

/-- A handler that starts with `SUBS PC, LR, #4` is left at once. -/
theorem file_step_irq_vector (c : Cpu) (cycles : Ticks) {bus : β}
    (hword : (Bus.read32 bus 0x18).1 = 0xE25EF004) :
    (step { c.enter .irq with cycles := cycles } bus).2.1.file =
      { (c.enter .irq).file with
        pc := c.pc - 4
        status := c.cpsr
        cycles := (step { c.enter .irq with cycles := cycles } bus).2.1.cycles } := by
  have hquiet : takesIrq { c.enter .irq with cycles := cycles } bus = false := by
    show (!(c.enter .irq).flag Psr.irqDisable && Bus.irqPending bus) = false
    rw [flag_irqDisable_enter]
    rfl
  have hvector : (c.enter .irq).pc &&& ~~~3 = 0x18 := by
    rw [pc_enter]
    decide
  have hfile := file_step_subs_pc_lr (c := { c.enter .irq with cycles := cycles }) hquiet
    (thumb_enter c .irq) (hvector ▸ hword) (spsr?_enter c .irq)
  have hlr : reg { c.enter .irq with cycles := cycles } .lr = c.pc := reg_enter_lr c .irq
  rw [hlr] at hfile
  exact hfile

/-- `SUBS PC, LR, #4` as the first instruction of the IRQ handler gives back everything but the
program counter.  The link register holds the address of the instruction that was preempted, so the
return lands one word before it. -/
theorem irq_then_subs_pc_lr {c : Cpu} {bus : β} (hflag : c.flag Psr.irqDisable = false)
    (hmode : c.mode? ≠ some .irq) (hirq : Bus.irqPending bus = true)
    (hword : (Bus.read32 bus 0x18).1 = 0xE25EF004) :
    let after := (steps 2 c bus).2.1
    (∀ r ≠ .pc, after.reg r = c.reg r) ∧ after.pc = c.pc - 4 ∧ after.cpsr = c.cpsr ∧
      ∀ b, after.pair b =
        if b = Mode.irq.bank then { c.pair b with lr := c.pc } else c.pair b := by
  intro after
  have htakes : takesIrq c bus = true := by
    unfold takesIrq
    rw [hflag, hirq]
    rfl
  have hafter : after = (step { c.enter .irq with cycles := (step c bus).2.1.cycles } bus).2.1 := by
    show (step (step c bus).2.1 (step c bus).2.2).2.1 = _
    rw [step_irq htakes]
  have hfile := file_step_irq_vector c (step c bus).2.1.cycles hword
  rw [← hafter] at hfile
  have hpc : after.pc = c.pc - 4 := congrArg RegisterFile.pc hfile
  have hcpsr : after.cpsr = c.cpsr := congrArg RegisterFile.status hfile
  have hpair : ∀ b, after.pair b =
      if b = Mode.irq.bank then { c.pair b with lr := c.pc } else c.pair b := by
    intro b
    have hreturn : after.pair b = (c.enter .irq).pair b := congrArg (fun f => f.pairs b) hfile
    rw [hreturn, pair_enter]
    rfl
  -- The interrupted bank is not that of IRQ mode, so its pair was not linked over.
  have hbank : c.cpsr.bank ≠ Mode.irq.bank := fun h => hmode (Psr.mode?_of_bank rfl h)
  have hlive := hpair c.cpsr.bank
  rw [if_neg hbank, pair, pair, hcpsr, if_pos rfl, if_pos rfl] at hlive
  refine ⟨fun r hr => ?_, hpc, hcpsr, hpair⟩
  rcases Reg.val_lt_or_eq r with h | rfl | rfl | rfl
  · have hgeneral : after.reg r = (c.enter .irq).reg r :=
      congrArg (fun f => f.general ⟨r.val, h⟩) hfile
    rw [hgeneral, reg_enter h]
  · exact congrArg StackLink.sp hlive
  · exact congrArg StackLink.lr hlive
  · exact absurd rfl hr

/-- A program in Thumb state is preempted at `0x102` and goes on at `0xFE`. -/
theorem irq_then_subs_pc_lr_thumb :
    let ram : FlatRam := ⟨⟨Array.replicate 24 0 ++ #[0x04, 0xF0, 0x5E, 0xE2]⟩, true, by decide⟩
    let c := ((initial.setReg .sp 0x03007F00).setReg .pc 0x102).setThumb true
    let after := (steps 2 c ram).2.1
    c.flag Psr.irqDisable = false ∧ c.mode? = some .system ∧ after.pc = 0xFE ∧
      after.reg .sp = 0x03007F00 ∧ after.cpsr = c.cpsr ∧ (after.pair Mode.irq.bank).lr = 0x102 := by
  intro ram c after
  have hflag : c.flag Psr.irqDisable = false := by decide
  have hmode : c.mode? = some .system := by decide
  have hirq : Bus.irqPending ram = true := rfl
  obtain ⟨hreg, hpc, hcpsr, hpair⟩ :=
    irq_then_subs_pc_lr hflag (by rw [hmode]; decide) hirq (by decide)
  refine ⟨hflag, hmode, hpc.trans (by decide), hreg .sp (by decide), hcpsr, ?_⟩
  rw [hpair, if_pos rfl]
  rfl

/-- So `SUBS PC, LR, #4` does not resume at the instruction that was preempted. -/
theorem irq_then_subs_pc_lr_not_transparent :
    ¬ ∀ (c : Cpu) (ram : FlatRam), c.flag Psr.irqDisable = false → c.mode? ≠ some .irq →
      (if c.cpsr.thumb then c.pc &&& 1 = 0 else c.pc &&& 3 = 0) → Bus.irqPending ram = true →
      (Bus.read32 ram 0x18).1 = 0xE25EF004 →
      let after := (steps 2 c ram).2.1
      (∀ r, after.reg r = c.reg r) ∧ after.cpsr = c.cpsr ∧
        ∀ b, (after.pair b).sp = (c.pair b).sp ∧
          (b ≠ Mode.irq.bank → (after.pair b).lr = (c.pair b).lr) := by
  intro h
  obtain ⟨hreg, -⟩ := h (initial.setReg .pc 0x100)
    ⟨⟨Array.replicate 24 0 ++ #[0x04, 0xF0, 0x5E, 0xE2]⟩, true, by decide⟩
    (by decide) (by decide) (by decide) rfl (by decide)
  exact absurd (hreg .pc) (by decide)

end Handheld.Cpu
