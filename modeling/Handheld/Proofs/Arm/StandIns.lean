import Handheld.Proofs.Arm.Sources
import Handheld.Proofs.ExceptionReturn
import Handheld.Proofs.SameBut

/-!
# The program counter as an operand

As an operand the program counter is a register that holds an address beyond the instruction.  This
file makes that literal: take an instruction that names the program counter among its sources, put
spare registers in its place and the addresses into these.  The two executions meet the bus in the
same way and leave the same state behind, but for the spare registers.
-/

namespace Handheld

/-! ## 1. Registers that no bank touches -/

namespace Cpu

variable {r : Reg}

/-- `r0`-`r12` are not banked. -/
theorem activate_setReg (hr : r.val < 13) (c : Cpu) (v : Word) (b : Bank) :
    (c.setReg r v).activate b = (c.activate b).setReg r v := by
  obtain ⟨hsp, hlr, -⟩ := Reg.ne_of_val_lt hr
  by_cases hlive : b = c.cpsr.bank
  · have hlive' : b = (c.setReg r v).cpsr.bank := hlive
    rw [activate_live hlive, activate_live hlive']
  · have hother : ¬ b = (c.setReg r v).cpsr.bank := hlive
    unfold activate
    rw [if_neg hlive, if_neg hother]
    dsimp only
    simp only [reg_setReg_ne c v hsp, reg_setReg_ne c v hlr, banked_setReg, setReg_comm hsp,
      setReg_comm hlr]
    rfl

theorem writeCpsr_setReg (hr : r.val < 13) (c : Cpu) (v w : Word) :
    (c.setReg r v).writeCpsr w = (c.writeCpsr w).setReg r v := by
  unfold writeCpsr
  rw [activate_setReg hr]
  rfl

theorem setSpsr_setReg (c : Cpu) (r : Reg) (v w : Word) :
    (c.setReg r v).setSpsr w = (c.setSpsr w).setReg r v := by
  unfold setSpsr
  rw [cpsr_setReg]
  split <;> rfl

theorem restoreCpsr_setReg (hr : r.val < 13) (c : Cpu) (v : Word) :
    (c.setReg r v).restoreCpsr = c.restoreCpsr.setReg r v := by
  unfold restoreCpsr
  rw [spsr?_setReg]
  split
  next => exact writeCpsr_setReg hr c v _
  next => rfl

/-- Registers that receive what goes with each entry of a list have it afterwards, also where two
entries share a register, as long as they share the value too. -/
theorem reg_setRegs_of_mem {α : Type} {xs : List α} {f : α → Reg} {g : α → Word} {x : α}
    (hshared : ∀ y ∈ xs, ∀ z ∈ xs, f y = f z → g y = g z) (hx : x ∈ xs) (c : Cpu) :
    (c.setRegs (xs.map f) (xs.map g)).reg (f x) = g x := by
  induction xs generalizing x c with
  | nil => cases hx
  | cons y ys ih =>
    have htail : ∀ z ∈ ys, z ∈ y :: ys := fun z hz => List.mem_cons_of_mem y hz
    show ((c.setReg (f y) (g y)).setRegs (ys.map f) (ys.map g)).reg (f x) = g x
    by_cases hlater : ∃ z ∈ ys, f z = f x
    · obtain ⟨z, hz, hfz⟩ := hlater
      rw [← hfz, ← hshared z (htail z hz) x hx hfz]
      exact ih (fun u hu w hw => hshared u (htail u hu) w (htail w hw)) hz _
    · have hnone : f x ∉ ys.map f := fun hmem => hlater (List.mem_map.1 hmem)
      obtain rfl : x = y := (List.mem_cons.1 hx).resolve_right fun hys => hlater ⟨x, hys, rfl⟩
      rw [reg_setRegs_of_not_mem hnone, reg_setReg_self]

end Cpu

namespace Arm

/-! ## 2. Spare registers -/

/-- Whether the operation looks at its first operand; the moves do not. -/
def AluOp.readsLeft : AluOp → Bool
  | mov | mvn => false
  | _ => true

theorem AluOp.result_congr {op : AluOp} (h : op.readsLeft = false) (a a' : Word) (b : Shifted)
    (flags : Psr) : op.result a b flags = op.result a' b flags := by
  cases op with
  | mov | mvn => rfl
  | _ => cases h

namespace Instruction

/-- The registers that an instruction with sources reads or writes. -/
def uses : Instruction → List Reg
  | branchExchange target => [target]
  | writeStatus _ _ (.register r) => [r]
  | dataProcessing op _ dest left right =>
    (if op.writes then [dest] else []) ++
      ((if op.readsLeft then [left] else []) ++ right.sources.map Source.reg)
  | transfer t => t.base :: (t.registers ++ t.offset.sources.map Source.reg)
  | _ => []

/-- The sources that are the program counter. -/
def pcSources (i : Instruction) : List Source := i.sources.filter (·.reg = .pc)

def standIns (i : Instruction) (s : StandIns) : List Reg := i.pcSources.map fun x => s x.field

/-- The state in which the stand-ins hold what the program counter reads as. -/
def prepare (i : Instruction) (s : StandIns) (address : Word) (c : Cpu) : Cpu :=
  c.setRegs (i.standIns s) (i.pcSources.map fun x => address + x.ahead)

/-- The program counter is not a base that is written back, nor part of a pair that is stored. -/
def PcIsOperand : Instruction → Prop
  | transfer t => (t.writeBack = true → t.base ≠ .pc) ∧ (t.move = .storePair → t.data.odd ≠ .pc)
  | _ => True

end Instruction

/-- The stand-ins for the program counter are among `r0`-`r12` and otherwise unused.  Two fields
share one only if they need the same value. -/
structure StandIns.Spare (s : StandIns) (i : Instruction) : Prop where
  low : ∀ x ∈ i.pcSources, (s x.field).val < 13
  unused : ∀ x ∈ i.pcSources, s x.field ∉ i.uses
  shared : ∀ x ∈ i.pcSources, ∀ y ∈ i.pcSources, s x.field = s y.field → x.ahead = y.ahead

namespace StandIns.Spare

variable {s : StandIns} {i : Instruction}

theorem not_mem_standIns (h : s.Spare i) {r : Reg} (hr : r ∈ i.uses) : r ∉ i.standIns s := by
  intro hmem
  obtain ⟨x, hx, rfl⟩ := List.mem_map.1 hmem
  exact h.unused x hx hr

theorem reg_prepare (h : s.Spare i) {r : Reg} (hr : r ∈ i.uses) (address : Word) (c : Cpu) :
    (i.prepare s address c).reg r = c.reg r :=
  Cpu.reg_setRegs_of_not_mem (h.not_mem_standIns hr) c _

theorem reg_prepare_standIn (h : s.Spare i) {x : Source} (hx : x ∈ i.pcSources) (address : Word)
    (c : Cpu) : (i.prepare s address c).reg (s x.field) = address + x.ahead :=
  Cpu.reg_setRegs_of_mem (f := fun x : Source => s x.field)
    (fun y hy z hz heq => congrArg (address + ·) (h.shared y hy z hz heq)) hx c

/-- A source reads the same before and after: what the program counter reads as is in its stand-in,
and no other source is touched. -/
theorem operand_prepare (h : s.Spare i) {f : RegField} {r : Reg} {ahead : Word}
    (hx : (⟨f, r, ahead⟩ : Source) ∈ i.sources) (huse : r ∈ i.uses) (address pc : Word) (c : Cpu) :
    (i.prepare s address c).operand (s.of f r) pc = c.operand r (address + ahead) := by
  unfold StandIns.of
  by_cases hpc : r = .pc
  · have hmem : (⟨f, r, ahead⟩ : Source) ∈ i.pcSources :=
      List.mem_filter.2 ⟨hx, decide_eq_true hpc⟩
    obtain ⟨-, -, hne⟩ := Reg.ne_of_val_lt (h.low _ hmem)
    rw [if_pos hpc, Cpu.operand_of_ne hne, h.reg_prepare_standIn hmem]
    exact (if_pos hpc).symm
  · rw [if_neg hpc, Cpu.operand_of_ne hpc, Cpu.operand_of_ne hpc, h.reg_prepare huse]

/-- What does not look at the stand-ins may come before or after they are set. -/
theorem prepare_comm (h : s.Spare i) {f : Cpu → Cpu}
    (hf : ∀ r, r.val < 13 → r ∉ i.uses → ∀ c v, f (c.setReg r v) = (f c).setReg r v)
    (address : Word) (c : Cpu) : f (i.prepare s address c) = i.prepare s address (f c) := by
  refine Cpu.setRegs_comm (fun r hr => ?_) c _
  obtain ⟨x, hx, rfl⟩ := List.mem_map.1 hr
  exact hf _ (h.low x hx) (h.unused x hx)

end StandIns.Spare

theorem cpsr_prepare (i : Instruction) (s : StandIns) (address : Word) (c : Cpu) :
    (i.prepare s address c).cpsr = c.cpsr := Cpu.cpsr_setRegs c _ _

theorem flag_prepare (i : Instruction) (s : StandIns) (address : Word) (c : Cpu) (mask : Word) :
    (i.prepare s address c).flag mask = c.flag mask := by
  unfold Cpu.flag
  rw [cpsr_prepare]

/-! ## 3. Branches and status words -/

variable {s : StandIns} {address : Word}

theorem branchExchange_withStandIns {target : Reg} (h : s.Spare (.branchExchange target))
    (c : Cpu) :
    branchExchange ((Instruction.branchExchange target).prepare s address c) (s.of .rm target)
        address =
      (Instruction.branchExchange target).prepare s address (branchExchange c target address) := by
  unfold branchExchange
  dsimp only
  rw [h.operand_prepare List.mem_cons_self List.mem_cons_self]
  refine h.prepare_comm (f := fun c => (c.setThumb _).setReg .pc _) (fun r hr _ c v => ?_) address c
  obtain ⟨-, -, hpc⟩ := Reg.ne_of_val_lt hr
  exact Cpu.setReg_comm hpc (c.setThumb _) v _

theorem writeStatus_setReg {r : Reg} (hr : r.val < 13) (saved : Bool) (mask w : Word) (c : Cpu)
    (v : Word) :
    writeStatus (c.setReg r v) saved mask w = (writeStatus c saved mask w).setReg r v := by
  unfold writeStatus
  cases saved with
  | true =>
    dsimp only
    rw [Cpu.spsr?_setReg]
    cases c.spsr? with
    | none => rfl
    | some old => exact Cpu.setSpsr_setReg c r v _
  | false => exact Cpu.writeCpsr_setReg hr c v _

theorem writeStatus_withStandIns {saved : Bool} {mask : Word} {r : Reg}
    (h : s.Spare (.writeStatus saved mask (.register r))) (c : Cpu) :
    let i := Instruction.writeStatus saved mask (.register r)
    writeStatus (i.prepare s address c) saved mask
        ((i.prepare s address c).operand (s.of .rm r) (address + 8)) =
      i.prepare s address (writeStatus c saved mask (c.operand r (address + 8))) := by
  intro i
  rw [h.operand_prepare List.mem_cons_self List.mem_cons_self]
  exact h.prepare_comm (f := fun c => writeStatus c saved mask _)
    (fun r hr _ c v => writeStatus_setReg hr saved mask _ c v) address c

/-! ## 4. Data processing -/

/-- What data processing does with its result. -/
def finish (c : Cpu) (op : AluOp) (setFlags : Bool) (dest : Reg) (r : AluResult) : Cpu :=
  let written := if op.writes then c.setReg dest r.value else c
  if !setFlags then written
  else if op.writes && dest == Reg.pc then written.restoreCpsr
  else { written with cpsr := c.cpsr.withResult r }

theorem dataProcessing_eq_finish (c : Cpu) (op : AluOp) (setFlags : Bool) (dest left : Reg)
    (right : Operand) (address : Word) :
    dataProcessing c op setFlags dest left right address =
      finish c op setFlags dest (op.result (c.operand left (right.pcAt address))
        (right.value c (right.pcAt address)) c.cpsr) := rfl

theorem finish_setReg {r : Reg} (hr : r.val < 13) {op : AluOp} {dest : Reg}
    (hdest : op.writes = true → r ≠ dest) (setFlags : Bool) (x : AluResult) (c : Cpu) (v : Word) :
    finish (c.setReg r v) op setFlags dest x = (finish c op setFlags dest x).setReg r v := by
  have hwritten : (if op.writes then (c.setReg r v).setReg dest x.value else c.setReg r v) =
      (if op.writes then c.setReg dest x.value else c).setReg r v := by
    cases hop : op.writes with
    | true => exact Cpu.setReg_comm (hdest hop) c v _
    | false => rfl
  unfold finish
  dsimp only
  rw [hwritten]
  cases setFlags with
  | false => rfl
  | true =>
    cases op.writes && dest == Reg.pc with
    | true => exact Cpu.restoreCpsr_setReg hr _ v
    | false => rfl

theorem Operand.pcAt_eq (o : Operand) (address : Word) : o.pcAt address = address + o.ahead := by
  cases o <;> rfl

theorem Operand.ahead_withStandIns (o : Operand) (s : StandIns) :
    (o.withStandIns s).ahead = o.ahead := by
  cases o <;> rfl

theorem Operand.value_withStandIns {i : Instruction} (h : s.Spare i) {o : Operand}
    (hsources : o.sources ⊆ i.sources) (huse : o.sources.map Source.reg ⊆ i.uses) (c : Cpu)
    (pc : Word) :
    (o.withStandIns s).value (i.prepare s address c) pc = o.value c (address + o.ahead) := by
  cases o with
  | constant n =>
    unfold withStandIns value
    rw [flag_prepare]
  | shifted r kind amount =>
    have hr := h.operand_prepare (hsources List.mem_cons_self) (huse List.mem_cons_self)
      address pc c
    unfold withStandIns value
    rw [flag_prepare]
    dsimp only
    rw [hr]
    rfl
  | shiftedBy r kind amount =>
    have hlast {α : Type} (a b : α) : b ∈ [a, b] := List.mem_cons_of_mem a List.mem_cons_self
    have hr := h.operand_prepare (hsources List.mem_cons_self) (huse List.mem_cons_self)
      address pc c
    have hamount := h.operand_prepare (hsources (hlast _ _)) (huse (hlast _ _)) address pc c
    unfold withStandIns value
    rw [flag_prepare]
    dsimp only
    rw [hr, hamount]
    rfl

theorem dataProcessing_withStandIns {op : AluOp} {setFlags : Bool} {dest left : Reg}
    {right : Operand} (h : s.Spare (.dataProcessing op setFlags dest left right)) (c : Cpu) :
    let i := Instruction.dataProcessing op setFlags dest left right
    dataProcessing (i.prepare s address c) op setFlags dest (s.of .rn left) (right.withStandIns s)
        address =
      i.prepare s address (dataProcessing c op setFlags dest left right address) := by
  intro i
  have hleft : op.readsLeft = true → (i.prepare s address c).operand (s.of .rn left)
      (address + right.ahead) = c.operand left (address + right.ahead) := fun hop => by
    refine h.operand_prepare List.mem_cons_self ?_ address _ c
    simp [Instruction.uses, hop]
  have hright : (right.withStandIns s).value (i.prepare s address c) (address + right.ahead) =
      right.value c (address + right.ahead) := by
    refine Operand.value_withStandIns h (List.subset_cons_self _ _) (fun r hr => ?_) c _
    exact List.mem_append_right _ (List.mem_append_right _ hr)
  have hresult : op.result ((i.prepare s address c).operand (s.of .rn left)
      (address + right.ahead)) (right.value c (address + right.ahead)) c.cpsr =
      op.result (c.operand left (address + right.ahead)) (right.value c (address + right.ahead))
        c.cpsr := by
    cases hop : op.readsLeft with
    | true => rw [hleft hop]
    | false => exact AluOp.result_congr hop _ _ _ _
  rw [dataProcessing_eq_finish, dataProcessing_eq_finish, Operand.pcAt_eq, Operand.pcAt_eq,
    Operand.ahead_withStandIns, hright, cpsr_prepare, hresult]
  refine h.prepare_comm (f := fun c => finish c op setFlags dest _) (fun r hr hunused c v => ?_)
    address c
  refine finish_setReg hr (fun hop => ?_) setFlags _ c v
  rintro rfl
  exact hunused (by simp [Instruction.uses, hop])

/-! ## 5. Transfers -/

theorem Offset.value_withStandIns {i : Instruction} (h : s.Spare i) {o : Offset}
    (hsources : o.sources ⊆ i.sources) (huse : o.sources.map Source.reg ⊆ i.uses) (c : Cpu)
    (pc : Word) :
    (o.withStandIns s).value (i.prepare s address c) pc = o.value c (address + 8) := by
  cases o with
  | constant n => rfl
  | shifted r kind amount =>
    have hr := h.operand_prepare (hsources List.mem_cons_self) (huse List.mem_cons_self)
      address pc c
    unfold withStandIns value
    dsimp only
    rw [hr, flag_prepare]

namespace Transfer

variable {t : Transfer}

theorem operand_base (h : s.Spare (.transfer t)) (c : Cpu) (pc : Word) :
    ((Instruction.transfer t).prepare s address c).operand (s.of .rn t.base) pc =
      c.operand t.base (address + 8) :=
  h.operand_prepare List.mem_cons_self List.mem_cons_self address pc c

theorem moved_withStandIns (h : s.Spare (.transfer t)) (c : Cpu) :
    (t.withStandIns s).moved ((Instruction.transfer t).prepare s address c) address =
      t.moved c address := by
  have hoffset : (t.offset.withStandIns s).value
      ((Instruction.transfer t).prepare s address c) (address + 8) =
        t.offset.value c (address + 8) :=
    Offset.value_withStandIns h (fun x hx => List.mem_cons_of_mem _ (List.mem_append_left _ hx))
      (fun r hr => List.mem_cons_of_mem _ (List.mem_append_right _ hr)) c (address + 8)
  unfold moved
  dsimp only [withStandIns]
  rw [operand_base h, hoffset]
  rfl

theorem target_withStandIns (h : s.Spare (.transfer t)) (c : Cpu) :
    (t.withStandIns s).target ((Instruction.transfer t).prepare s address c) address =
      t.target c address := by
  unfold target
  rw [moved_withStandIns h]
  dsimp only [withStandIns]
  rw [operand_base h]
  rfl

theorem loaded_withStandIns (s : StandIns) (t : Transfer) :
    (t.withStandIns s).loaded = t.loaded := by
  obtain ⟨move, data, base, offset, up, pre, writeBack⟩ := t
  cases move <;> rfl

theorem loaded_subset (t : Transfer) : t.loaded ⊆ t.registers := by
  unfold loaded registers
  cases t.move <;> simp

variable {β : Type} [Bus β]

/-- A stored pair is not replaced, and does not read the program counter either. -/
theorem operand_pair (h : s.Spare (.transfer t)) (hmove : t.move = .storePair)
    (hodd : t.data.odd ≠ .pc) {r : Reg} (hr : r ∈ t.registers) (c : Cpu) (pc : Word) :
    ((Instruction.transfer t).prepare s address c).operand r pc = c.operand r pc := by
  have hne : r ≠ .pc := by
    unfold registers at hr
    rw [hmove] at hr
    rcases List.mem_cons.1 hr with rfl | hr
    · intro heven
      have hval : 2 * (t.data.val / 2) = 15 := congrArg Fin.val heven
      omega
    · rw [List.mem_singleton.1 hr]
      exact hodd
  have huse : r ∈ (Instruction.transfer t).uses :=
    List.mem_cons_of_mem _ (List.mem_append_left _ hr)
  rw [Cpu.operand_of_ne hne, Cpu.operand_of_ne hne, h.reg_prepare huse]

theorem exchange_withStandIns (h : s.Spare (.transfer t))
    (hpair : t.move = .storePair → t.data.odd ≠ .pc) (c : Cpu) (bus : β) (target : Word) :
    (t.withStandIns s).exchange
        (fun r => ((Instruction.transfer t).prepare s address c).operand r (address + 12)) bus
        target =
      t.exchange (fun r => c.operand r (address + 12)) bus target := by
  cases hmove : t.move with
  | load | loadPair =>
    unfold exchange
    dsimp only [withStandIns]
    rw [hmove]
  | store kind =>
    have hsource : (⟨.rd, t.data, 12⟩ : Source) ∈ (Instruction.transfer t).sources := by
      refine List.mem_cons_of_mem _ (List.mem_append_right _ ?_)
      rw [hmove]
      exact List.mem_cons_self
    have huse : t.data ∈ (Instruction.transfer t).uses := by
      refine List.mem_cons_of_mem _ (List.mem_append_left _ ?_)
      unfold registers
      rw [hmove]
      exact List.mem_cons_self
    unfold exchange
    dsimp only [withStandIns]
    rw [hmove]
    dsimp only [Movement.withStandIns]
    rw [h.operand_prepare hsource huse]
  | storePair =>
    have hplain : (t.withStandIns s).exchange = t.exchange (β := β) := by
      unfold exchange
      dsimp only [withStandIns]
      rw [hmove]
      rfl
    rw [hplain]
    exact exchange_congr (fun r hr => operand_pair h hmove (hpair hmove) hr c _) bus target

theorem execute_withStandIns (h : s.Spare (.transfer t))
    (hpc : (Instruction.transfer t).PcIsOperand) (c : Cpu) (bus : β) :
    (t.withStandIns s).execute ((Instruction.transfer t).prepare s address c) bus address =
      ((Instruction.transfer t).prepare s address (t.execute c bus address).1,
        (t.execute c bus address).2) := by
  obtain ⟨hbase, hpair⟩ := hpc
  let based (d : Cpu) : Cpu := if t.writeBack then d.setReg t.base (t.moved c address) else d
  have hbased (d : Cpu) : (if (t.withStandIns s).writeBack then
      d.setReg (t.withStandIns s).base (t.moved c address) else d) = based d := by
    show (if t.writeBack then d.setReg (s.of .rn t.base) (t.moved c address) else d) = based d
    cases hback : t.writeBack with
    | false => simp [based, hback]
    | true => simp [based, hback, StandIns.of, hbase hback]
  -- The base and the loaded registers are used, so the stand-ins are none of them.
  have hcomm (vs : List Word) : ∀ r, r.val < 13 → r ∉ (Instruction.transfer t).uses → ∀ d v,
      (based (d.setReg r v)).setRegs t.loaded vs = ((based d).setRegs t.loaded vs).setReg r v := by
    intro r _ hr d v
    have hsetBase : based (d.setReg r v) = (based d).setReg r v := by
      have hne : r ≠ t.base := fun heq => hr (heq ▸ List.mem_cons_self)
      unfold based
      split
      · exact Cpu.setReg_comm hne d v _
      · rfl
    rw [hsetBase]
    refine (Cpu.setRegs_comm (f := fun d => d.setReg r v) (fun q hq d w => ?_) (based d) vs).symm
    refine Cpu.setReg_comm (fun heq => hr ?_) d w v
    exact List.mem_cons_of_mem _ (List.mem_append_left _ (t.loaded_subset (heq ▸ hq)))
  rw [execute_eq_exchange, execute_eq_exchange, target_withStandIns h, moved_withStandIns h,
    exchange_withStandIns h hpair, loaded_withStandIns]
  dsimp only
  rw [hbased]
  exact Prod.ext (h.prepare_comm (f := fun d => (based d).setRegs t.loaded _) (hcomm _) address c)
    rfl

end Transfer

/-! ## 6. Instructions -/

variable {β : Type} [Bus β]

/-- An instruction without sources uses no stand-ins. -/
theorem Instruction.prepare_of_sources_nil {i : Instruction} (h : i.sources = []) (s : StandIns)
    (address : Word) (c : Cpu) : i.prepare s address c = c := by
  unfold prepare standIns pcSources
  rw [h]
  rfl

/-- Executing with stand-ins for the program counter is executing, with the stand-ins set before or
after it alike. -/
theorem execute_prepare {i : Instruction} (h : s.Spare i) (hpc : i.PcIsOperand) (c : Cpu)
    (bus : β) :
    execute (i.withStandIns s) (i.prepare s address c) bus address =
      (i.prepare s address (execute i c bus address).1, (execute i c bus address).2) := by
  by_cases hnone : i.sources = []
  · rw [withStandIns_of_sources_nil hnone, Instruction.prepare_of_sources_nil hnone,
      Instruction.prepare_of_sources_nil hnone]
  cases i with
  | branchExchange target => exact Prod.ext (branchExchange_withStandIns h c) rfl
  | writeStatus saved mask value =>
    cases value with
    | constant n => exact absurd rfl hnone
    | register r => exact Prod.ext (writeStatus_withStandIns h c) rfl
  | dataProcessing op setFlags dest left right =>
    exact Prod.ext (dataProcessing_withStandIns h c) rfl
  | transfer t => exact Transfer.execute_withStandIns h hpc c bus
  | _ => exact absurd rfl hnone

theorem Instruction.sameBut_prepare (i : Instruction) (s : StandIns) (address : Word) (c : Cpu) :
    c.SameBut (i.standIns s) (i.prepare s address c) :=
  (Cpu.SameBut.refl _ c).setRegs (List.Subset.refl _) _

theorem Instruction.sources_withStandIns (i : Instruction) (s : StandIns) :
    (i.withStandIns s).sources = i.sources.map fun x => { x with reg := s.of x.field x.reg } := by
  cases i with
  | writeStatus saved mask value => cases value <;> rfl
  | dataProcessing op setFlags dest left right => cases right <;> rfl
  | transfer t =>
    obtain ⟨move, data, base, offset, up, pre, writeBack⟩ := t
    cases offset <;> cases move <;> rfl
  | _ => rfl

/-- With stand-ins no source is the program counter. -/
theorem Instruction.pcSources_withStandIns {i : Instruction} (h : s.Spare i) :
    (i.withStandIns s).pcSources = [] := by
  unfold pcSources
  rw [sources_withStandIns, List.filter_eq_nil_iff]
  intro y hy
  obtain ⟨x, hx, rfl⟩ := List.mem_map.1 hy
  rw [decide_eq_true_eq]
  show ¬ s.of x.field x.reg = .pc
  unfold StandIns.of
  by_cases hpc : x.reg = .pc
  · rw [if_pos hpc]
    exact (Reg.ne_of_val_lt (h.low x (List.mem_filter.2 ⟨hx, decide_eq_true hpc⟩))).2.2
  · rwa [if_neg hpc]

/-- For every data-processing opcode, every transfer whose base is not the program counter written
back, every write of a register to a status word and every exchange, from every register and bus
state: with each source that is the program counter replaced by a spare register, set to the address
plus eight, or plus twelve where a register gives the shift amount and where the source is stored,
the opcode names the program counter as a source no more, and executing it makes the same of the
bus and of everything in the processor but the spare registers. -/
theorem execute_pc_as_register (op : Word) (s : StandIns) (h : s.Spare (decode op))
    (hpc : (decode op).PcIsOperand) (c : Cpu) (bus : β) (address : Word) :
    let i := decode op
    let i' := decode (withStandIns op s)
    let after := execute i c bus address
    let after' := execute i' (i.prepare s address c) bus address
    i'.pcSources = [] ∧ after'.2 = after.2 ∧ after.1.SameBut (i.standIns s) after'.1 ∧
      ∀ x ∈ i.pcSources, after'.1.reg (s x.field) = address + x.ahead := by
  intro i i' after after'
  have hafter : after' = (i.prepare s address after.1, after.2) := by
    show execute (decode (withStandIns op s)) _ bus address = _
    rw [decode_withStandIns]
    exact execute_prepare h hpc c bus
  have hi : i' = i.withStandIns s := decode_withStandIns op s
  rw [hafter, hi]
  exact ⟨Instruction.pcSources_withStandIns h, rfl, i.sameBut_prepare s address after.1,
    fun x hx => h.reg_prepare_standIn hx address after.1⟩

/-- `STR pc, [pc, pc, LSL #2]` stores what `STR r1, [r0, r0, LSL #2]` does, and `ADD r2, pc, pc, LSL
pc` adds what `ADD r2, r0, r0, LSL r0` does, once `r0` and `r1` are set. -/
theorem execute_pc_as_register_samples :
    let c := Cpu.initial
    let ram := FlatRam.zeros 64
    let s : StandIns := fun f => if f = .rd then 1 else 0
    let store := decode 0xE78FF10F
    let add := decode 0xE08F2F1F
    (withStandIns 0xE78FF10F s = 0xE7801100 ∧ withStandIns 0xE08F2F1F s = 0xE0802010) ∧
    (store.prepare s 0 c = c.setRegs [0, 0, 1] [8, 8, 12] ∧
      add.prepare s 0 c = c.setRegs [0, 0, 0] [12, 12, 12]) ∧
    (execute (decode 0xE7801100) (store.prepare s 0 c) ram 0).2 = (execute store c ram 0).2 ∧
    (execute (decode 0xE0802010) (add.prepare s 0 c) ram 0).1.reg 2 =
      (execute add c ram 0).1.reg 2 := by
  intro c ram s store add
  have hputStore : withStandIns 0xE78FF10F s = 0xE7801100 := by decide
  have hputAdd : withStandIns 0xE08F2F1F s = 0xE0802010 := by decide
  have hstore : store = .transfer
      ⟨.store .word, .pc, .pc, .shifted .pc .lsl 2, true, true, false⟩ := by decide
  have hadd : add = .dataProcessing .add false 2 .pc (.shiftedBy .pc .lsl .pc) := by decide
  have hspareStore : s.Spare store := ⟨by decide, by decide, by decide⟩
  have hspareAdd : s.Spare add := ⟨by decide, by decide, by decide⟩
  have hpcStore : store.PcIsOperand := by
    rw [hstore]
    exact ⟨nofun, nofun⟩
  have hpcAdd : add.PcIsOperand := by
    rw [hadd]
    trivial
  obtain ⟨-, hbus, -⟩ := execute_pc_as_register 0xE78FF10F s hspareStore hpcStore c ram 0
  obtain ⟨-, -, hcpu, -⟩ := execute_pc_as_register 0xE08F2F1F s hspareAdd hpcAdd c ram 0
  rw [hputStore] at hbus
  rw [hputAdd] at hcpu
  exact ⟨⟨hputStore, hputAdd⟩, ⟨rfl, rfl⟩, hbus, hcpu.reg 2 (by decide)⟩

end Arm

end Handheld
