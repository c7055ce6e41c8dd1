import Handheld.Proofs.Cost
import Handheld.Proofs.Traffic

/-!
# Buses in lockstep

A processor sees a bus only in the bytes that it reads and in the interrupt line.  So on two buses
that agree on these wherever it goes, a run is the same, and the buses stay related as they were by
each access.
-/

namespace Handheld

def Access.address : Access → Word
  | read a _ => a
  | write a _ => a

/-- Related buses agree on the interrupt line, and on the bytes at the addresses in `Within`; an
access there leaves them related. -/
structure Bus.Lockstep {β γ : Type} [Bus β] [Bus γ] (Within : Word → Prop) (R : β → γ → Prop) :
    Prop where
  irqPending : ∀ {b g}, R b g → Bus.irqPending g = Bus.irqPending b
  read8 : ∀ {b g a}, R b g → Within a →
    (Bus.read8 g a).1 = (Bus.read8 b a).1 ∧ R (Bus.read8 b a).2 (Bus.read8 g a).2
  write8 : ∀ {b g a} (v : Byte), R b g → Within a → R (Bus.write8 b a v) (Bus.write8 g a v)

variable {β γ : Type} [Bus β] [Bus γ] {Within : Word → Prop} {R : β → γ → Prop}

/-! ## 1. Dialogues -/

/-- A dialogue that stays within gets the same answers. -/
theorem Dialogue.lockstep {α : Type} (h : Bus.Lockstep Within R) (d : Dialogue α) {b : β} {g : γ}
    (hR : R b g) (hwithin : ∀ x ∈ d.accesses b, Within x.address) :
    (d.on g).1 = (d.on b).1 ∧ R (d.on b).2 (d.on g).2 := by
  induction d generalizing b g with
  | done a => exact ⟨rfl, hR⟩
  | read address next ih =>
    obtain ⟨hfirst, hrest⟩ := List.forall_mem_cons.1 hwithin
    change Within address at hfirst
    obtain ⟨hvalue, hnext⟩ := h.read8 hR hfirst
    unfold on
    rw [hvalue]
    exact ih _ hnext hrest
  | write address v next ih =>
    obtain ⟨hfirst, hrest⟩ := List.forall_mem_cons.1 hwithin
    exact ih (h.write8 v hR hfirst) hrest

/-! ## 2. Steps -/

namespace Cpu

theorem lockstep_step (h : Bus.Lockstep Within R) (c : Cpu) {b : β} {g : γ} (hR : R b g)
    (hwithin : ∀ x ∈ traffic 1 c b, Within x.address) :
    (step c g).1 = (step c b).1 ∧ (step c g).2.1 = (step c b).2.1 ∧
      R (step c b).2.2 (step c g).2.2 := by
  have hline : takesIrq c g = takesIrq c b := by
    unfold takesIrq
    rw [h.irqPending hR]
  have hstate : (step c g).2.1 = (step c b).2.1 ∧ R (step c b).2.2 (step c g).2.2 := by
    cases hirq : takesIrq c b with
    | true =>
      rw [step_irq hirq, step_irq (hline.trans hirq)]
      exact ⟨rfl, hR⟩
    | false =>
      obtain ⟨d, hd⟩ := isDialogue_fetchStep c
      have hb : fetchStep c b = d.on b := hd b
      have hg : fetchStep c g = d.on g := hd g
      rw [traffic_one hirq (hd _)] at hwithin
      rw [step_eq_fetchStep hirq, step_eq_fetchStep (hline.trans hirq), hb, hg]
      exact d.lockstep h hR hwithin
  -- The cost shows in the cycle counter.
  refine ⟨?_, hstate⟩
  apply Ticks.eq_of_add_eq (a := c.cycles)
  rw [← cycles_step, ← cycles_step, hstate.1]

theorem lockstep_steps (h : Bus.Lockstep Within R) (n : Nat) (c : Cpu) {b : β} {g : γ}
    (hR : R b g) (hwithin : ∀ x ∈ traffic n c b, Within x.address) :
    (steps n c g).1 = (steps n c b).1 ∧ (steps n c g).2.1 = (steps n c b).2.1 ∧
      R (steps n c b).2.2 (steps n c g).2.2 := by
  unfold steps
  -- The first step is taken off, and its cost goes to the total of the steps after it.
  generalize (0 : Ticks) = total
  induction n generalizing total c b g with
  | zero => exact ⟨rfl, rfl, hR⟩
  | succ n ih =>
    rw [traffic_succ] at hwithin
    obtain ⟨hfirst, hrest⟩ := List.forall_mem_append.1 hwithin
    obtain ⟨hcost, hcpu, hnext⟩ := lockstep_step h c hR hfirst
    show (stepsFrom (total + (step c g).1) n (step c g).2.1 (step c g).2.2).1 =
        (stepsFrom (total + (step c b).1) n (step c b).2.1 (step c b).2.2).1 ∧
      (stepsFrom (total + (step c g).1) n (step c g).2.1 (step c g).2.2).2.1 =
        (stepsFrom (total + (step c b).1) n (step c b).2.1 (step c b).2.2).2.1 ∧
      R (stepsFrom (total + (step c b).1) n (step c b).2.1 (step c b).2.2).2.2
        (stepsFrom (total + (step c g).1) n (step c g).2.1 (step c g).2.2).2.2
    rw [hcost, hcpu]
    exact ih _ hnext hrest _

end Cpu

end Handheld
