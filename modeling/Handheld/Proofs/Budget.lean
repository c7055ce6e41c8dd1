import Handheld.Bus.FlatRam
import Handheld.Proofs.Run
import Mathlib.Algebra.BigOperators.Group.Finset.Basic

/-!
# The steps of a run on a budget

A run on a budget makes the first number of steps whose costs add up to the budget.  Costs are added
here as numbers without a bound, so that nothing can wrap: what the wrapping cycle counter and the
saturating difference report is this sum.
-/

namespace Handheld.Cpu

open Finset

variable {β : Type} [Bus β] {c : Cpu} {bus : β}

/-! ## 1. What steps cost together -/

/-- The sum of the ticks that the first `n` steps return. -/
def spent (n : Nat) (c : Cpu) (bus : β) : Nat :=
  ∑ k ∈ range n, (step (steps k c bus).2.1 (steps k c bus).2.2).1.count.toNat

theorem spent_succ (n : Nat) (c : Cpu) (bus : β) :
    spent (n + 1) c bus =
      spent n c bus + (step (steps n c bus).2.1 (steps n c bus).2.2).1.count.toNat :=
  sum_range_succ _ n

theorem le_spent (n : Nat) (c : Cpu) (bus : β) : n ≤ spent n c bus := by
  induction n with
  | zero => exact Nat.zero_le _
  | succ n ih =>
    have hstep := (isStepCost_step (steps n c bus).2.1 (steps n c bus).2.2).1
    rw [spent_succ]
    omega

/-- As long as every step starts below a target that leaves room for one more, the counter has
grown by what was spent. -/
theorem cycles_steps {target : Ticks} {n : Nat} (hroom : target.count.toNat + 4 < 2 ^ 64)
    (hbelow : ∀ k < n, (steps k c bus).2.1.cycles < target) :
    (steps n c bus).2.1.cycles.count.toNat = c.cycles.count.toNat + spent n c bus := by
  induction n with
  | zero => rfl
  | succ n ih =>
    have hlast := Ticks.lt_iff_toNat_lt.1 (hbelow n (Nat.lt_succ_self n))
    have hcost := (isStepCost_step (steps n c bus).2.1 (steps n c bus).2.2).2
    have hsum := ih fun k hk => hbelow k (Nat.lt_succ_of_lt hk)
    -- The last step starts below the target and costs at most five, so its sum does not wrap.
    rw [steps_succ_snd_last, cycles_step, Ticks.toNat_add_of_lt (by omega), hsum, spent_succ]
    omega

/-! ## 2. The steps that the loop makes -/

/-- The loop stops after the first number of steps that takes the counter to the target. -/
theorem RunsTo.exists_steps {target : Ticks} {r : Cpu × β} (hrun : RunsTo target c bus r) :
    ∃ n, r = (steps n c bus).2 ∧ (∀ k < n, (steps k c bus).2.1.cycles < target) ∧
      ¬ (steps n c bus).2.1.cycles < target := by
  induction hrun with
  | done h => exact ⟨0, rfl, fun k hk => absurd hk (Nat.not_lt_zero k), h⟩
  | next h rest ih =>
    obtain ⟨n, hr, hbelow, hstop⟩ := ih
    refine ⟨n + 1, ?_, fun k hk => ?_, ?_⟩
    · rw [steps_succ_snd, hr]
    · cases k with
      | zero => exact h
      | succ k =>
        rw [steps_succ_snd]
        exact hbelow k (Nat.lt_of_succ_lt_succ hk)
    · rw [steps_succ_snd]
      exact hstop

/-- Every step costs from one cycle to five.  So a run on a budget that the cycle counter has room
for stops, at most four cycles late; it makes no more steps than the budget has cycles, namely the
least number of them that together cost the budget, and it returns what these cost. -/
theorem run_makes_least_steps :
    (∀ (c : Cpu) (bus : β), (step c bus).1.IsStepCost) ∧
    ∀ (c : Cpu) (bus : β) (budget : Ticks),
      c.cycles.count.toNat + budget.count.toNat + 4 < 2 ^ 64 →
      RunAccount budget c bus (run c bus budget) ∧
      ∃ n ≤ budget.count.toNat, (run c bus budget).2 = (steps n c bus).2 ∧
        (run c bus budget).1.count.toNat = spent n c bus ∧
        (∀ k < n, spent k c bus < budget.count.toNat) ∧ budget.count.toNat ≤ spent n c bus := by
  refine ⟨isStepCost_step, fun c bus budget hroom => ?_⟩
  have haccount := runAccount_run bus hroom
  obtain ⟨n, hsteps, hbelow, -⟩ := haccount.stops.exists_steps
  have htarget : (c.cycles + budget).count.toNat =
      c.cycles.count.toNat + budget.count.toNat := Ticks.toNat_add_of_lt (by omega)
  have hcycles (k : Nat) (hk : k ≤ n) :
      (steps k c bus).2.1.cycles.count.toNat = c.cycles.count.toNat + spent k c bus :=
    cycles_steps (by omega) fun j hj => hbelow j (Nat.lt_of_lt_of_le hj hk)
  have hunspent : ∀ k < n, spent k c bus < budget.count.toNat := by
    intro k hk
    have hlt := Ticks.lt_iff_toNat_lt.1 (hbelow k hk)
    have hsum := hcycles k (Nat.le_of_lt hk)
    omega
  have htotal : (run c bus budget).1.count.toNat = spent n c bus := by
    have hcounter := haccount.counter
    have hsum := hcycles n (Nat.le_refl n)
    rw [hsteps] at hcounter
    omega
  refine ⟨haccount, n, ?_, hsteps, htotal, hunspent, htotal ▸ haccount.atLeast⟩
  -- The steps before the last one cost a cycle each, and together less than the budget.
  cases n with
  | zero => exact Nat.zero_le _
  | succ n =>
    have hlast := hunspent n (Nat.lt_succ_self n)
    have hcount := le_spent n c bus
    omega

/-- Long multiplications with an addend take five cycles each, so a budget of six lets two of them
start, and four cycles too many go by. -/
theorem run_makes_least_steps_umlal :
    let ram : FlatRam := ⟨⟨#[0x92, 0x03, 0xA1, 0xE0]⟩, false, by decide⟩
    initial.cycles.count.toNat + (6 : Ticks).count.toNat + 4 < 2 ^ 64 ∧
      (run initial ram 6).1 = 10 ∧ (run initial ram 6).2 = (steps 2 initial ram).2 ∧
      spent 1 initial ram = 5 ∧ spent 2 initial ram = 10 := by
  intro ram
  have hroom : initial.cycles.count.toNat + (6 : Ticks).count.toNat + 4 < 2 ^ 64 := by decide
  have hone : spent 1 initial ram = 5 := by decide
  have htwo : spent 2 initial ram = 10 := by decide
  obtain ⟨-, n, -, hsteps, htotal, hunspent, hspent⟩ :=
    (run_makes_least_steps (β := FlatRam)).2 initial ram 6 hroom
  change 6 ≤ spent n initial ram at hspent
  change ∀ k < n, spent k initial ram < 6 at hunspent
  have hn : n = 2 := by
    rcases Nat.lt_trichotomy n 2 with h | h | h
    · have hle : n = 0 ∨ n = 1 := by omega
      rcases hle with rfl | rfl
      · exact absurd hspent (by decide)
      · omega
    · exact h
    · have htoo := hunspent 2 h
      omega
  subst hn
  refine ⟨hroom, ?_, hsteps, hone, htwo⟩
  have hcount : (run initial ram 6).1.count = 10 := UInt64.toNat_inj.1 (htotal.trans htwo)
  exact congrArg Ticks.mk hcount

end Handheld.Cpu
