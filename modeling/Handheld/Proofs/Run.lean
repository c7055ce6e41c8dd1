import Handheld.Proofs.Cost

/-!
# Runs on a budget

`run` counts down a fuel, which a loop on a real machine does not have.  `RunsTo` is that loop: it
relates a state to the one in which the loop stops, if it stops.  It always does, short of the cycle
counter wrapping, and at most four cycles late.
-/

namespace Handheld.Cpu

variable {β : Type} [Bus β]

/-- The loop that steps while the cycle counter is below `target`, from a state to the one in which
it stops. -/
inductive RunsTo (target : Ticks) : Cpu → β → Cpu × β → Prop where
  | done {c : Cpu} {bus : β} (h : ¬ c.cycles < target) : RunsTo target c bus (c, bus)
  | next {c : Cpu} {bus : β} {r : Cpu × β} (h : c.cycles < target)
      (rest : RunsTo target (step c bus).2.1 (step c bus).2.2 r) : RunsTo target c bus r

/-! ## 1. One step of the loop -/

/-- Below a target that leaves room for one more step, a step moves the counter on, to at most four
above the target. -/
theorem cycles_step_of_lt {target : Ticks} {c : Cpu} (bus : β)
    (hroom : target.count.toNat + 4 < 2 ^ 64) (h : c.cycles < target) :
    c.cycles.count.toNat + 1 ≤ (step c bus).2.1.cycles.count.toNat ∧
      (step c bus).2.1.cycles.count.toNat ≤ target.count.toNat + 4 := by
  obtain ⟨hlow, hhigh⟩ := isStepCost_step c bus
  have hlt := Ticks.lt_iff_toNat_lt.1 h
  have hsum : (step c bus).2.1.cycles.count.toNat =
      c.cycles.count.toNat + (step c bus).1.count.toNat := by
    rw [cycles_step]
    exact Ticks.toNat_add_of_lt (by omega)
  omega

/-! ## 2. The whole loop -/

/-- Where the loop stops the counter has reached the target and is at most four beyond it. -/
theorem RunsTo.cycles_le {target : Ticks} {c : Cpu} {bus : β} {r : Cpu × β}
    (hrun : RunsTo target c bus r) (hroom : target.count.toNat + 4 < 2 ^ 64)
    (hstart : c.cycles.count.toNat ≤ target.count.toNat + 4) :
    target.count.toNat ≤ r.1.cycles.count.toNat ∧
      r.1.cycles.count.toNat ≤ target.count.toNat + 4 := by
  induction hrun with
  | done h =>
    have hge := mt Ticks.lt_iff_toNat_lt.2 h
    exact ⟨Nat.le_of_not_lt hge, hstart⟩
  | next h rest ih => exact ih (cycles_step_of_lt _ hroom h).2

theorem RunsTo.eq_of_not_lt {target : Ticks} {c : Cpu} {bus : β} {r : Cpu × β}
    (hrun : RunsTo target c bus r) (h : ¬ c.cycles < target) : r = (c, bus) := by
  cases hrun with
  | done => rfl
  | next hlt => exact absurd hlt h

/-- The loop stops, where fuel for as many steps as cycles are left leads to. -/
theorem runsTo_runUntil {target : Ticks} {fuel : Nat} {c : Cpu} {bus : β}
    (hroom : target.count.toNat + 4 < 2 ^ 64)
    (hfuel : target.count.toNat ≤ c.cycles.count.toNat + fuel) :
    RunsTo target c bus (runUntil target fuel c bus) := by
  -- Every step uses one unit of fuel and at least one cycle.
  induction fuel generalizing c bus with
  | zero =>
    apply RunsTo.done
    intro h
    have hlt := Ticks.lt_iff_toNat_lt.1 h
    omega
  | succ fuel ih =>
    unfold runUntil
    by_cases h : c.cycles < target
    · rw [if_pos h]
      have hstep := (cycles_step_of_lt bus hroom h).1
      exact .next h (ih (by omega))
    · rw [if_neg h]
      exact .done h

/-- A run uses its budget and at most four cycles more, and none if there is none to use. -/
structure RunAccount (budget : Ticks) (c : Cpu) (bus : β) (r : Ticks × Cpu × β) : Prop where
  stops : RunsTo (c.cycles + budget) c bus r.2
  atLeast : budget.count.toNat ≤ r.1.count.toNat
  atMost : r.1.count.toNat ≤ budget.count.toNat + 4
  idle : budget.count.toNat = 0 → r.1.count.toNat = 0
  counter : r.2.1.cycles.count.toNat = c.cycles.count.toNat + r.1.count.toNat

theorem runAccount_run {c : Cpu} (bus : β) {budget : Ticks}
    (hroom : c.cycles.count.toNat + budget.count.toNat + 4 < 2 ^ 64) :
    RunAccount budget c bus (run c bus budget) := by
  have htarget : (c.cycles + budget).count.toNat =
      c.cycles.count.toNat + budget.count.toNat := Ticks.toNat_add_of_lt (by omega)
  have hstops : RunsTo (c.cycles + budget) c bus (run c bus budget).2 :=
    runsTo_runUntil (by omega) (by omega)
  obtain ⟨hlow, hhigh⟩ := hstops.cycles_le (by omega) (by omega)
  have hused : (run c bus budget).1.count.toNat =
      (run c bus budget).2.1.cycles.count.toNat - c.cycles.count.toNat := Ticks.toNat_sub _ _
  refine ⟨hstops, by omega, by omega, fun hzero => ?_, by omega⟩
  -- Without a budget the target is reached before the first step.
  have hreached : ¬ c.cycles < c.cycles + budget := by
    rw [Ticks.lt_iff_toNat_lt]
    omega
  have hcpu : (run c bus budget).2.1 = c := congrArg Prod.fst (hstops.eq_of_not_lt hreached)
  rw [hused, hcpu, Nat.sub_self]

end Handheld.Cpu
