import Handheld.Proofs.Entry

/-!
# What a step does

A step enters an exception, or carries out one of the few instructions that reach beyond the live
registers and the condition flags, or reaches nothing beyond these.  Here every change of state is
tied to the opcode that makes it, so what can be said of all steps takes one argument for each of
the five cases.
-/

namespace Handheld

/-! ## 1. Writes to a status word -/

namespace Arm

/-- If `i` writes a status word, it has its mask from the field selectors of `op`. -/
def HasStatusMask (op : Word) (i : Instruction) : Prop :=
  ∀ saved mask v, i = .writeStatus saved mask v → mask = statusMask op

theorem hasStatusMask_decodeBlock (op : Word) : HasStatusMask op (decodeBlock op) := by
  unfold decodeBlock
  split <;> rintro _ _ _ ⟨⟩

theorem hasStatusMask_decodeStatus (op : Word) : HasStatusMask op (decodeStatus op) := by
  unfold decodeStatus
  split
  · rintro _ _ _ ⟨⟩
    rfl
  · rintro _ _ _ ⟨⟩

theorem hasStatusMask_decode (op : Word) : HasStatusMask op (decode op) := by
  unfold decode
  -- The rows are taken one by one.  All but that of the status words make other instructions.
  iterate 4
    refine iteInduction (fun _ => ?_) fun _ => ?_
    · rintro _ _ _ ⟨⟩
  refine iteInduction (fun _ => hasStatusMask_decodeBlock op) fun _ => ?_
  refine iteInduction (fun _ => ?_) fun _ => ?_
  · split <;> rintro _ _ _ ⟨⟩
  iterate 4
    refine iteInduction (fun _ => ?_) fun _ => ?_
    · rintro _ _ _ ⟨⟩
  refine iteInduction (fun _ => hasStatusMask_decodeStatus op) fun _ => ?_
  rintro _ _ _ ⟨⟩

end Arm

namespace Cpu

variable {β : Type} [Bus β] {c : Cpu} {bus : β}

/-! ## 2. Steps by their opcodes -/

/-- The next step carries out the opcode `op`, a write to a status word: the saved one of the
current mode or the current one. -/
def WritesStatus (c : Cpu) (bus : β) (saved : Bool) (op : Word) : Prop :=
  ExecutesArm c bus op ∧ ∃ v, Arm.decode op = .writeStatus saved (Arm.statusMask op) v

/-- The next step carries out data processing that sets the flags and writes the program counter,
in a mode with a saved status word. -/
def ReturnsFromException (c : Cpu) (bus : β) : Prop :=
  c.spsr?.isSome ∧ ∃ op alu left right, ExecutesArm c bus op ∧
    Arm.decode op = .dataProcessing alu true .pc left right ∧ alu.writes = true

/-- The next step carries out a jump that chooses the instruction set. -/
def Exchanges (c : Cpu) (bus : β) : Prop :=
  (∃ op target, ExecutesArm c bus op ∧ Arm.decode op = .branchExchange target) ∨
    ∃ op target, ExecutesThumb c bus op ∧ Thumb.decode op = .branchExchange target

/-- The ways in which the next step takes the processor to another state, up to what it adds to the
cycle counter. -/
inductive Transition (c : Cpu) (bus : β) : Cpu → Prop where
  | enter {e : Exception} (next : Word) (h : entry? c bus = some e) :
    Transition c bus ((c.setReg .pc next).enter e)
  | ordinary {c' : Cpu} (h : c.KeepsControl c') : Transition c bus c'
  | exchange (thumb : Bool) (target : Word) (h : Exchanges c bus) :
    Transition c bus ((c.setThumb thumb).setReg .pc target)
  | writeStatus {saved : Bool} {op : Word} (next v : Word) (h : WritesStatus c bus saved op) :
    Transition c bus (Arm.writeStatus (c.setReg .pc next) saved (Arm.statusMask op) v)
  | restore (target : Word) (h : ReturnsFromException c bus) :
    Transition c bus (c.setReg .pc target).restoreCpsr

/-! ## 3. Every step -/

theorem KeepsControl.of_setReg {c' : Cpu} {r : Reg} {v : Word}
    (h : (c.setReg r v).KeepsControl c') : c.KeepsControl c' :=
  ⟨h.saved, h.banked, h.cycles, h.control⟩

/-- The jump sets the program counter, so it does not matter where that was moved on to. -/
theorem Transition.exchange_next (next : Word) (thumb : Bool) (target : Word)
    (h : Exchanges c bus) :
    Transition c bus (((c.setReg .pc next).setThumb thumb).setReg .pc target) := by
  have hset : ((c.setReg .pc next).setThumb thumb).setReg .pc target =
      (c.setThumb thumb).setReg .pc target := setReg_setReg_self (c.setThumb thumb) .pc next target
  rw [hset]
  exact .exchange thumb target h

theorem ExecutesThumb.transition {op : Word} (hop : ExecutesThumb c bus op) :
    Transition c bus (perform c bus).2.1 := by
  rw [hop.perform_eq]
  by_cases hordinary : (Thumb.decode op).isOrdinary = true
  · exact .ordinary (Thumb.keepsControl_execute hordinary _ _ _).of_setReg
  · rcases Thumb.Instruction.of_not_isOrdinary hordinary with ⟨target, hi⟩ | hi
    · rw [hi]
      exact .exchange_next _ _ _ (.inr ⟨op, target, hop, hi⟩)
    · rw [hi]
      exact .enter _ (by rw [hop.entry?_eq, if_pos hi])

theorem ExecutesArm.transition {op : Word} (hop : ExecutesArm c bus op) :
    Transition c bus (perform c bus).2.1 := by
  rw [hop.perform_eq]
  by_cases hordinary : (Arm.decode op).isOrdinary = true
  · exact .ordinary (Arm.keepsControl_execute hordinary _ _ _).of_setReg
  · rcases Arm.Instruction.of_not_isOrdinary hordinary with
      ⟨target, hi⟩ | hi | ⟨saved, mask, v, hi⟩ | ⟨alu, left, right, halu, hi⟩
    · rw [hi]
      exact .exchange_next _ _ _ (.inl ⟨op, target, hop, hi⟩)
    · rw [hi]
      exact .enter _ (by rw [hop.entry?_eq, if_pos hi])
    · obtain rfl := Arm.hasStatusMask_decode op saved mask v hi
      rw [hi]
      exact .writeStatus _ _ ⟨hop, v, hi⟩
    · rw [hi]
      show Transition c bus (Arm.dataProcessing _ alu true .pc left right _)
      rw [Arm.dataProcessing_return halu, setReg_setReg_self]
      cases hspsr : c.spsr? with
      | some w => exact .restore _ ⟨by rw [hspsr]; rfl, op, alu, left, right, hop, hi, halu⟩
      | none =>
        rw [restoreCpsr_setReg_of_none hspsr]
        exact .ordinary (keepsControl_setReg.2 (.refl c))

theorem transition_perform (c : Cpu) (bus : β) : Transition c bus (perform c bus).2.1 := by
  rcases step_forms c bus with hirq | ⟨op, hop⟩ | ⟨op, hop⟩ | hskip
  · rw [perform_irq hirq]
    have henter := Transition.enter c.pc (entry?_of_irq hirq)
    rw [pc, setReg_reg] at henter
    exact henter
  · exact hop.transition
  · exact hop.transition
  · rw [hskip.perform_eq]
    exact .ordinary (keepsControl_setReg.2 (.refl c))

end Cpu

end Handheld
