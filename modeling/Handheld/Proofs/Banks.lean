import Handheld.Proofs.Psr
import Handheld.Cpu
import Mathlib.Logic.Function.Basic

/-!
# Banks of stack pointer and link register

The processor keeps the pair of the live bank in `r13` and `r14` and moves pairs about when the mode
changes.  A program need not know: it sees a register file in which every bank has a pair of its
own and a mode change only chooses between them.  This file defines that register file, its
operations, and the view of a processor as one, and proves that the view of a run of operations is
the run of the operations on the view.
-/

namespace Handheld

/-! ## 1. The register file -/

/-- The registers with a place for each: no mode change moves any of them. -/
@[ext] structure RegisterFile where
  /-- `r0`-`r12`. -/
  general : Fin 13 → Word
  /-- `r15`. -/
  pc : Word
  /-- `r13` and `r14` of every bank. -/
  pairs : Bank → StackLink
  status : Psr
  saved : SavedSlot → Word
  cycles : Ticks

namespace RegisterFile

/-- The pair that `r13` and `r14` name at the moment. -/
def livePair (f : RegisterFile) : StackLink := f.pairs f.status.bank

/-- The value of a register in the current mode. -/
def read (f : RegisterFile) (r : Reg) : Word :=
  if h : r.val < 13 then f.general ⟨r, h⟩
  else if r = .sp then f.livePair.sp
  else if r = .lr then f.livePair.lr
  else f.pc

/-- Replace the pair of one bank. -/
def setPair (f : RegisterFile) (b : Bank) (p : StackLink) : RegisterFile :=
  { f with pairs := Function.update f.pairs b p }

/-- Replace a register of the current mode: one place of the file. -/
def write (f : RegisterFile) (r : Reg) (v : Word) : RegisterFile :=
  { f.setPair f.status.bank
      ⟨if r = .sp then v else f.livePair.sp, if r = .lr then v else f.livePair.lr⟩ with
    general := fun i => if r = ⟨i, by omega⟩ then v else f.general i
    pc := if r = .pc then v else f.pc }

end RegisterFile

/-- The processor's registers as a register file. -/
def Cpu.file (c : Cpu) : RegisterFile where
  general i := c.reg ⟨i, by omega⟩
  pc := c.pc
  pairs := c.pair
  status := c.cpsr
  saved := c.saved.get
  cycles := c.cycles

/-! ## 2. Operations -/

/-- The operations that reach banks, status words and live registers. -/
inductive RegisterOp where
  | switchMode (m : Mode)
  | writeCpsr (v : Word)
  | restoreCpsr
  | setSpsr (v : Word)
  | setBankedSp (m : Mode) (v : Word)
  | setReg (r : Reg) (v : Word)
deriving DecidableEq, Repr

namespace RegisterOp

/-- The operation as the processor carries it out. -/
def onCpu : RegisterOp → Cpu → Cpu
  | switchMode m, c => c.switchMode m
  | writeCpsr v, c => c.writeCpsr v
  | restoreCpsr, c => c.restoreCpsr
  | setSpsr v, c => c.setSpsr v
  | setBankedSp m v, c => c.setBankedSp m v
  | setReg r v, c => c.setReg r v

/-- The operation on a register file.  The first three replace the status word or its mode field and
nothing else. -/
def onFile : RegisterOp → RegisterFile → RegisterFile
  | switchMode m, f => { f with status := f.status.withModeBits m.bits }
  | writeCpsr v, f => { f with status := ⟨v⟩ }
  | restoreCpsr, f =>
    match f.status.bank.savedSlot? with
    | some slot => { f with status := ⟨f.saved slot⟩ }
    | none => f
  | setSpsr v, f =>
    match f.status.bank.savedSlot? with
    | some slot => { f with saved := Function.update f.saved slot v }
    | none => f
  | setBankedSp m v, f => f.setPair m.bank { f.pairs m.bank with sp := v }
  | setReg r v, f => f.write r v

/-- Whether the operation sets a register of bank `b` when the status word is `p`. -/
def writesPair (b : Bank) (p : Psr) : RegisterOp → Bool
  | setBankedSp m _ => m.bank == b
  | setReg r _ => (r == .sp || r == .lr) && p.bank == b
  | _ => false

/-- A run of operations on the processor. -/
def runOnCpu (ops : List RegisterOp) (c : Cpu) : Cpu := ops.foldl (fun c op => op.onCpu c) c

/-- A run of operations on a register file. -/
def runOnFile (ops : List RegisterOp) (f : RegisterFile) : RegisterFile :=
  ops.foldl (fun f op => op.onFile f) f

/-- Whether no operation of a run sets a register of bank `b`. -/
def sparesPair (b : Bank) : List RegisterOp → Cpu → Bool
  | [], _ => true
  | op :: ops, c => !op.writesPair b c.cpsr && sparesPair b ops (op.onCpu c)

end RegisterOp

/-! ## 3. One operation -/

namespace Reg

theorem ne_of_val_lt {r : Reg} (h : r.val < 13) : r ≠ .sp ∧ r ≠ .lr ∧ r ≠ .pc := by
  refine ⟨?_, ?_, ?_⟩ <;> rintro rfl <;> exact absurd h (by decide)

/-- A register is general, the stack pointer, the link register or the program counter. -/
theorem val_lt_or_eq (r : Reg) : r.val < 13 ∨ r = .sp ∨ r = .lr ∨ r = .pc := by
  simp only [Fin.ext_iff, sp, lr, pc]
  omega

end Reg

theorem RegisterFile.write_sp (f : RegisterFile) (v : Word) :
    f.write .sp v = f.setPair f.status.bank { f.livePair with sp := v } := by
  have hgeneral : ∀ i : Fin 13, Reg.sp ≠ ⟨i, by omega⟩ :=
    fun i h => (Reg.ne_of_val_lt i.isLt).1 h.symm
  simp [write, hgeneral, Reg.sp, Reg.lr, Reg.pc]
  rfl

namespace Cpu

theorem reg_activate {r : Reg} (hsp : r ≠ .sp) (hlr : r ≠ .lr) (c : Cpu) (b : Bank) :
    (c.activate b).reg r = c.reg r := by
  unfold activate
  split
  · rfl
  · show ((c.setReg .sp _).setReg .lr _).reg r = c.reg r
    rw [reg_setReg_ne _ _ hlr.symm, reg_setReg_ne _ _ hsp.symm]

theorem activate_live {c : Cpu} {b : Bank} (h : b = c.cpsr.bank) : c.activate b = c := if_pos h

theorem saved_activate (c : Cpu) (b : Bank) : (c.activate b).saved = c.saved := by
  unfold activate
  split <;> rfl

theorem cpsr_activate (c : Cpu) (b : Bank) : (c.activate b).cpsr = c.cpsr := by
  unfold activate
  split <;> rfl

theorem switchMode_eq (c : Cpu) (m : Mode) :
    c.switchMode m = { c.activate m.bank with cpsr := c.cpsr.withModeBits m.bits } := by
  unfold switchMode setModeBits
  rw [cpsr_activate]

/-- Making a bank live, with a status word that names it, moves no value of the register file. -/
theorem file_activate (c : Cpu) {p : Psr} {b : Bank} (h : p.bank = b) :
    file { c.activate b with cpsr := p } = { c.file with status := p } := by
  have hcycles : (c.activate b).cycles = c.cycles := by unfold activate; split <;> rfl
  apply RegisterFile.ext
  · funext i
    obtain ⟨hsp, hlr, -⟩ := Reg.ne_of_val_lt (r := ⟨i, by omega⟩) i.isLt
    exact reg_activate hsp hlr c b
  · exact reg_activate (by decide) (by decide) c b
  · exact funext (pair_activate c h)
  · rfl
  · exact congrArg Vector.get (saved_activate c b)
  · exact hcycles

/-- A live register is read in the file where its name points to. -/
theorem read_file (c : Cpu) (r : Reg) : c.file.read r = c.reg r := by
  rcases Reg.val_lt_or_eq r with h | rfl | rfl | rfl
  · simp [RegisterFile.read, h, file]
  all_goals simp [RegisterFile.read, RegisterFile.livePair, file, pair, pc, Reg.sp, Reg.lr, Reg.pc]

/-- A live register is written in the file where its name points to. -/
theorem file_setReg (c : Cpu) (r : Reg) (v : Word) : (c.setReg r v).file = c.file.write r v := by
  apply RegisterFile.ext
  · funext i
    exact reg_setReg c r _ v
  · exact reg_setReg c r _ v
  · funext b
    by_cases h : b = c.cpsr.bank
    · subst h
      simp [file, pair, RegisterFile.write, RegisterFile.setPair, RegisterFile.livePair,
        reg_setReg]
    · simp [file, pair, RegisterFile.write, RegisterFile.setPair, h]
  · rfl
  · rfl
  · rfl

theorem file_switchMode (c : Cpu) (m : Mode) :
    (c.switchMode m).file = { c.file with status := c.cpsr.withModeBits m.bits } := by
  rw [switchMode_eq]
  exact file_activate c (Psr.bank_withModeBits c.cpsr m)

theorem file_writeCpsr (c : Cpu) (v : Word) :
    (c.writeCpsr v).file = { c.file with status := ⟨v⟩ } :=
  file_activate c rfl

theorem file_setBankedSp (c : Cpu) (m : Mode) (v : Word) :
    (c.setBankedSp m v).file = c.file.setPair m.bank { c.file.pairs m.bank with sp := v } := by
  unfold setBankedSp
  by_cases h : m.bank = c.cpsr.bank
  · rw [if_pos h, file_setReg, RegisterFile.write_sp, h]
    rfl
  · rw [if_neg h]
    apply RegisterFile.ext
    · rfl
    · rfl
    · funext b
      by_cases hb : b = m.bank
      · subst hb
        simp [file, pair, RegisterFile.setPair, h]
      · have hne : m.bank.val ≠ b.val := fun e => hb (Fin.ext e.symm)
        simp [file, pair, RegisterFile.setPair, hb, hne, reg]
    · rfl
    · rfl
    · rfl

theorem file_restoreCpsr {c : Cpu} {w : Word} (h : c.spsr? = some w) :
    c.restoreCpsr.file = { c.file with status := ⟨w⟩ } := by
  simp only [restoreCpsr, h]
  exact file_writeCpsr c w

theorem file_setSpsr {c : Cpu} {slot : SavedSlot} (h : c.cpsr.bank.savedSlot? = some slot)
    (v : Word) :
    (c.setSpsr v).file = { c.file with saved := Function.update c.file.saved slot v } := by
  have hsaved : (c.saved.set slot.val v slot.isLt).get = Function.update c.saved.get slot v := by
    funext i
    show (c.saved.set slot.val v slot.isLt)[i] = Function.update c.saved.get slot v i
    by_cases hi : i = slot
    · subst hi
      simp
    · have hne : slot.val ≠ i.val := fun e => hi (Fin.ext e.symm)
      simp [hi, hne]
      rfl
  simp only [setSpsr, h, file, ← hsaved]
  rfl

end Cpu

namespace RegisterOp

/-- One operation on the processor is the same operation on its view. -/
theorem file_onCpu (op : RegisterOp) (c : Cpu) : (op.onCpu c).file = op.onFile c.file := by
  cases op with
  | switchMode m => exact Cpu.file_switchMode c m
  | writeCpsr v => exact Cpu.file_writeCpsr c v
  | restoreCpsr =>
    show c.restoreCpsr.file = _
    cases h : c.cpsr.bank.savedSlot? with
    | none => simp [onFile, Cpu.restoreCpsr, Cpu.spsr?, Cpu.savedOf?, Cpu.file, h]
    | some slot =>
      have hspsr : c.spsr? = some c.saved[slot] := by simp [Cpu.spsr?, Cpu.savedOf?, h]
      rw [Cpu.file_restoreCpsr hspsr]
      simp only [onFile, Cpu.file, h]
      rfl
  | setSpsr v =>
    show (c.setSpsr v).file = _
    cases h : c.cpsr.bank.savedSlot? with
    | none => simp [onFile, Cpu.setSpsr, Cpu.file, h]
    | some slot =>
      rw [Cpu.file_setSpsr h]
      simp only [onFile, Cpu.file, h]
  | setBankedSp m v => exact Cpu.file_setBankedSp c m v
  | setReg r v => exact Cpu.file_setReg c r v

/-! ## 4. Runs -/

/-- The view of a run on the processor is the run on the view. -/
theorem file_runOnCpu (ops : List RegisterOp) (c : Cpu) :
    (runOnCpu ops c).file = runOnFile ops c.file := by
  induction ops generalizing c with
  | nil => rfl
  | cons op ops ih =>
    show (runOnCpu ops (op.onCpu c)).file = runOnFile ops (op.onFile c.file)
    rw [ih, file_onCpu]

theorem pairs_onFile {op : RegisterOp} {b : Bank} {f : RegisterFile}
    (h : op.writesPair b f.status = false) : (op.onFile f).pairs b = f.pairs b := by
  cases op with
  | switchMode m => rfl
  | writeCpsr v => rfl
  | restoreCpsr =>
    simp only [onFile]
    split <;> rfl
  | setSpsr v =>
    simp only [onFile]
    split <;> rfl
  | setBankedSp m v =>
    have hb : b ≠ m.bank := fun e => by simp [writesPair, e] at h
    simp [onFile, RegisterFile.setPair, hb]
  | setReg r v =>
    by_cases hb : b = f.status.bank
    · -- The live pair: the register written is none of its two.
      subst hb
      have hr : r ≠ .sp ∧ r ≠ .lr := by simpa [writesPair] using h
      simp [onFile, RegisterFile.write, RegisterFile.setPair, RegisterFile.livePair, hr]
    · simp [onFile, RegisterFile.write, RegisterFile.setPair, hb]

/-- A bank that a run spares has its pair at the end, wherever the pairs were in between. -/
theorem pair_runOnCpu {ops : List RegisterOp} {b : Bank} {c : Cpu}
    (h : sparesPair b ops c = true) : (runOnCpu ops c).pair b = c.pair b := by
  induction ops generalizing c with
  | nil => rfl
  | cons op ops ih =>
    obtain ⟨hop, hops⟩ : op.writesPair b c.cpsr = false ∧ sparesPair b ops (op.onCpu c) = true := by
      simpa [sparesPair] using h
    have hstep : (op.onCpu c).file.pairs b = c.file.pairs b := by
      rw [file_onCpu]
      exact pairs_onFile hop
    exact (ih hops).trans hstep

/-- Banking refines a register file with six independent pairs.  Every run of operations has on the
processor the effect it has on the file, live registers and the stack pointers of all modes read
what the file holds, and a bank that the run spares is found, when it is live again, with the stack
pointer and link register it was left with. -/
theorem banking_refines_registerFile (c : Cpu) (ops : List RegisterOp) :
    (runOnCpu ops c).file = runOnFile ops c.file ∧
    (∀ r, (runOnCpu ops c).reg r = (runOnFile ops c.file).read r) ∧
    (∀ m, (runOnCpu ops c).bankedSp m = ((runOnFile ops c.file).pairs m.bank).sp) ∧
    ∀ b, sparesPair b ops c = true →
      (runOnCpu ops c).pair b = c.pair b ∧
      ((runOnCpu ops c).cpsr.bank = b →
        (runOnCpu ops c).reg .sp = (c.pair b).sp ∧ (runOnCpu ops c).reg .lr = (c.pair b).lr) := by
  have hfile := file_runOnCpu ops c
  refine ⟨hfile, fun r => ?_, fun m => ?_, fun b hspare => ?_⟩
  · rw [← hfile, Cpu.read_file]
  · rw [← hfile]
    rfl
  · have hpair := pair_runOnCpu hspare
    refine ⟨hpair, fun hlive => ?_⟩
    rw [← hpair, Cpu.pair, if_pos hlive.symm]
    exact ⟨rfl, rfl⟩

/-- The pair of IRQ mode outlives a visit to Supervisor, to an unassigned mode with a stack pointer
of its own, and to System. -/
theorem banking_refines_registerFile_irq :
    let c := ((Cpu.initial.switchMode .irq).setReg .sp 0x03007FA0).setReg .lr 0x104
    let ops := [.switchMode .supervisor, .setReg .sp 0x03007FE0, .writeCpsr 0x15, .setReg .sp 1,
      .setBankedSp .supervisor 2, .switchMode .system, .setReg .lr 3, .switchMode .irq]
    sparesPair 2 ops c = true ∧ (runOnCpu ops c).cpsr.bank = 2 ∧
      (runOnCpu ops c).reg .sp = 0x03007FA0 ∧ (runOnCpu ops c).reg .lr = 0x104 := by
  intro c ops
  have hspare : sparesPair 2 ops c = true := by decide
  have hlive : (runOnCpu ops c).cpsr.bank = 2 := by decide
  obtain ⟨hsp, hlr⟩ := ((banking_refines_registerFile c ops).2.2.2 2 hspare).2 hlive
  exact ⟨hspare, hlive, hsp.trans (by decide), hlr.trans (by decide)⟩

end RegisterOp
end Handheld
