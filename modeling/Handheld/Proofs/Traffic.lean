import Handheld.Proofs.Dialogue
import Handheld.Proofs.Steps

/-!
# The traffic of a run

All that a run does to the memory is its traffic: the bytes it reads and writes, in order.  The
traffic is what a recording bus sees, and played back to the memory alone it leads where the run
leads.
-/

namespace Handheld

/-! ## 1. Functions whose traffic can be recorded -/

/-- On every bus the function makes some accesses.  A record gets them and changes nothing else, and
they alone lead the bus where the function does. -/
def Traceable {α : Type} (f : ∀ {β : Type} [Bus β], β → α × β) : Prop :=
  ∀ (β : Type) [Bus β] (bus : β), ∃ accesses : List Access,
    (∀ log, f (⟨bus, log⟩ : Recorded β) = ((f bus).1, ⟨(f bus).2, accesses.reverse ++ log⟩)) ∧
      accesses.foldl Bus.access bus = (f bus).2

namespace Traceable

variable {α γ : Type}

theorem done (a : α) : Traceable fun bus => (a, bus) := fun _ _ _ => ⟨[], fun _ => rfl, rfl⟩

theorem of_isDialogue {f : ∀ {β : Type} [Bus β], β → α × β} (h : IsDialogue f) : Traceable f := by
  intro β _ bus
  obtain ⟨d, hd⟩ := h
  refine ⟨d.accesses bus, fun log => ?_, ?_⟩
  · rw [hd, hd, d.on_recorded]
  · rw [hd, d.foldl_accesses]

theorem bind {f : ∀ {β : Type} [Bus β], β → α × β} {g : α → ∀ {β : Type} [Bus β], β → γ × β}
    (hf : Traceable f) (hg : ∀ a, Traceable (g a)) :
    Traceable fun bus => g (f bus).1 (f bus).2 := by
  intro β _ bus
  obtain ⟨as, hrecord, hplay⟩ := hf β bus
  obtain ⟨bs, hrecord', hplay'⟩ := hg (f bus).1 β (f bus).2
  refine ⟨as ++ bs, fun log => ?_, ?_⟩
  · have hfirst := hrecord log
    have hsecond := hrecord' (as.reverse ++ log)
    dsimp only at hfirst hsecond ⊢
    rw [hfirst, hsecond, List.reverse_append, List.append_assoc]
  · rw [List.foldl_append, hplay]
    exact hplay'

/-- What every access preserves, the function preserves. -/
theorem preserves {f : ∀ {β : Type} [Bus β], β → α × β} (hf : Traceable f) {β : Type} [Bus β]
    {P : β → Prop} (haccess : ∀ bus x, P bus → P (Bus.access bus x)) {bus : β} (h : P bus) :
    P (f bus).2 := by
  obtain ⟨as, -, hplay⟩ := hf β bus
  rw [← hplay]
  exact List.foldlRecOn as Bus.access h fun bus h x _ => haccess bus x h

/-- A record does not change what becomes of the bus. -/
theorem bus_start {f : ∀ {β : Type} [Bus β], β → α × β} (hf : Traceable f) {β : Type} [Bus β]
    (bus : β) : (f (Recorded.start bus)).2.bus = (f bus).2 := by
  obtain ⟨as, hrecord, -⟩ := hf β bus
  exact congrArg (fun r => r.2.bus) (hrecord [])

end Traceable

namespace Cpu

/-! ## 2. Steps -/

/-- A fetch and what comes of it. -/
theorem isDialogue_stepArm (c : Cpu) :
    IsDialogue fun bus => (((stepArm c bus).1, (stepArm c bus).2.1), (stepArm c bus).2.2) := by
  have hrest : ∀ op : Word, IsDialogue fun bus =>
      let moved := c.setReg .pc ((c.pc &&& ~~~3) + 4)
      let done := Arm.execute (Arm.decode op) moved bus (c.pc &&& ~~~3)
      if (Condition.ofBits (op >>> 28)).holds moved.cpsr then
        (((Arm.decode op).cost, done.1), done.2)
      else ((1, moved), bus) := by
    intro op
    dsimp only
    split
    · exact (Arm.isDialogue_execute _ _ _).map fun c' => ((Arm.decode op).cost, c')
    · exact IsDialogue.done _
  obtain ⟨d, hd⟩ := (IsDialogue.read32 (c.pc &&& ~~~3)).bind hrest
  refine ⟨d, fun bus => ?_⟩
  rw [← hd]
  unfold stepArm
  dsimp only
  split <;> rfl

theorem isDialogue_stepThumb (c : Cpu) :
    IsDialogue fun bus => (((stepThumb c bus).1, (stepThumb c bus).2.1), (stepThumb c bus).2.2) :=
  (IsDialogue.read16 (c.pc &&& ~~~1)).bind fun op =>
    (Thumb.isDialogue_execute (Thumb.decode op.toUInt32) (c.setReg .pc ((c.pc &&& ~~~1) + 2))
      (c.pc &&& ~~~1)).map fun c' => ((Thumb.decode op.toUInt32).cost, c')

/-- A step that takes no interrupt. -/
def fetchStep {β : Type} [Bus β] (c : Cpu) (bus : β) : Cpu × β :=
  let r := if c.cpsr.thumb then stepThumb c bus else stepArm c bus
  ({ r.2.1 with cycles := r.2.1.cycles + r.1 }, r.2.2)

theorem step_eq_fetchStep {β : Type} [Bus β] {c : Cpu} {bus : β} (h : takesIrq c bus = false) :
    (step c bus).2 = fetchStep c bus := by
  unfold takesIrq at h
  unfold step perform
  rw [h, if_neg (by decide)]
  rfl

theorem isDialogue_fetchStep (c : Cpu) : IsDialogue fun bus => fetchStep c bus := by
  unfold fetchStep
  cases c.cpsr.thumb with
  | true => exact (isDialogue_stepThumb c).map fun r => { r.2 with cycles := r.2.cycles + r.1 }
  | false => exact (isDialogue_stepArm c).map fun r => { r.2 with cycles := r.2.cycles + r.1 }

theorem traceable_step (c : Cpu) : Traceable fun bus => (step c bus).2 := by
  intro β _ bus
  cases hirq : takesIrq c bus with
  | true =>
    -- The entry into the handler leaves the bus alone.
    refine ⟨[], fun log => ?_, (congrArg Prod.snd (step_irq hirq)).symm⟩
    have hrecorded : takesIrq c (⟨bus, log⟩ : Recorded β) = true := hirq
    dsimp only
    rw [step_irq hirq, step_irq hrecorded]
    rfl
  | false =>
    obtain ⟨as, hrecord, hplay⟩ := Traceable.of_isDialogue (isDialogue_fetchStep c) β bus
    dsimp only at hplay ⊢
    rw [step_eq_fetchStep hirq]
    refine ⟨as, fun log => ?_, hplay⟩
    have hrecorded : takesIrq c (⟨bus, log⟩ : Recorded β) = false := hirq
    rw [step_eq_fetchStep hrecorded]
    exact hrecord log

theorem traceable_steps (n : Nat) (c : Cpu) : Traceable fun bus => (steps n c bus).2 := by
  -- The first step is taken off, and leaves another processor state to the steps after it.
  induction n generalizing c with
  | zero => exact Traceable.done c
  | succ n ih =>
    have h := (traceable_step c).bind ih
    intro β _ bus
    simp only [steps_succ_snd]
    exact h β bus

/-! ## 3. The traffic of steps -/

variable {β : Type} [Bus β]

/-- The accesses that `n` steps make, the earliest first. -/
def traffic (n : Nat) (c : Cpu) (bus : β) : List Access :=
  (steps n c (Recorded.start bus)).2.2.accesses

/-- The traffic is what any record gets, and it alone leads the bus where the steps do. -/
theorem traffic_spec (n : Nat) (c : Cpu) (bus : β) :
    (∀ log, (steps n c (⟨bus, log⟩ : Recorded β)).2 =
      ((steps n c bus).2.1, ⟨(steps n c bus).2.2, (traffic n c bus).reverse ++ log⟩)) ∧
    (traffic n c bus).foldl Bus.access bus = (steps n c bus).2.2 := by
  obtain ⟨as, hrecord, hplay⟩ := traceable_steps n c β bus
  have htraffic : traffic n c bus = as := by
    have hend := congrArg (fun r => r.2.accesses) (hrecord [])
    refine hend.trans ?_
    show (as.reverse ++ []).reverse = as
    rw [List.append_nil, List.reverse_reverse]
  rw [htraffic]
  exact ⟨hrecord, hplay⟩

theorem foldl_traffic (n : Nat) (c : Cpu) (bus : β) :
    (traffic n c bus).foldl Bus.access bus = (steps n c bus).2.2 := (traffic_spec n c bus).2

/-- The first step taken off. -/
theorem traffic_succ (n : Nat) (c : Cpu) (bus : β) :
    traffic (n + 1) c bus =
      traffic 1 c bus ++ traffic n (step c bus).2.1 (step c bus).2.2 := by
  have hfirst : (step c (Recorded.start bus)).2 = _ := (traffic_spec 1 c bus).1 []
  have hrest := (traffic_spec n (step c bus).2.1 (step c bus).2.2).1 (traffic 1 c bus).reverse
  have hone : (steps 1 c bus).2 = (step c bus).2 := rfl
  rw [hone, List.append_nil] at hfirst
  show (steps (n + 1) c (Recorded.start bus)).2.2.accesses = _
  rw [steps_succ_snd, hfirst, hrest]
  show ((traffic n _ _).reverse ++ (traffic 1 c bus).reverse).reverse = _
  rw [List.reverse_append, List.reverse_reverse, List.reverse_reverse]

/-- The traffic of a step that takes no interrupt is that of its dialogue. -/
theorem traffic_one {c : Cpu} {bus : β} (h : takesIrq c bus = false) {d : Dialogue Cpu}
    (hd : fetchStep c (Recorded.start bus) = d.on (Recorded.start bus)) :
    traffic 1 c bus = d.accesses bus := by
  have hrecorded : takesIrq c (Recorded.start bus) = false := h
  show (step c (Recorded.start bus)).2.2.accesses = _
  rw [step_eq_fetchStep hrecorded, hd]
  unfold Recorded.start
  rw [d.on_recorded]
  show ((d.accesses bus).reverse ++ []).reverse = _
  rw [List.append_nil, List.reverse_reverse]

/-! ## 4. The steps of a run -/

/-- How many steps the loop makes until the cycle counter reaches `target`. -/
def stepsUntil (target : Ticks) : Nat → Cpu → β → Nat
  | 0, _, _ => 0
  | fuel + 1, c, bus =>
    if c.cycles < target then stepsUntil target fuel (step c bus).2.1 (step c bus).2.2 + 1 else 0

theorem runUntil_eq_steps (target : Ticks) (fuel : Nat) (c : Cpu) (bus : β) :
    runUntil target fuel c bus = (steps (stepsUntil target fuel c bus) c bus).2 := by
  induction fuel generalizing c bus with
  | zero => rfl
  | succ fuel ih =>
    unfold runUntil stepsUntil
    by_cases h : c.cycles < target
    · rw [if_pos h, if_pos h, steps_succ_snd]
      exact ih _ _
    · rw [if_neg h, if_neg h]
      rfl

end Cpu

end Handheld
