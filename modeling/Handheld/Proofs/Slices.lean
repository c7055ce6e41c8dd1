import Handheld.Bus.FlatRam
import Handheld.Proofs.Run

/-!
# Runs in slices

A run on a budget stops at the end of an instruction, mostly a little late.  The next run starts
there.  If each slice of a run is entered at what it cost and not at its budget, the slices together
are a single run: the state in which one slice stops lies on the way of every longer run.
-/

namespace Handheld.Cpu

variable {β : Type} [Bus β] {c : Cpu} {bus : β}

/-! ## 1. One loop after another -/

/-- The loop stops in one state only. -/
theorem RunsTo.unique {target : Ticks} {r s : Cpu × β} (hr : RunsTo target c bus r)
    (hs : RunsTo target c bus s) : r = s := by
  induction hr with
  | done h => exact (hs.eq_of_not_lt h).symm
  | next h rest ih =>
    cases hs with
    | done hstop => exact absurd h hstop
    | next _ rest' => exact ih rest'

/-- On its way to a target the loop comes through the state in which it stops for a nearer one. -/
theorem RunsTo.trans {near far : Ticks} {r s : Cpu × β}
    (hle : near.count.toNat ≤ far.count.toNat) (hr : RunsTo near c bus r)
    (hs : RunsTo far r.1 r.2 s) : RunsTo far c bus s := by
  induction hr with
  | done => exact hs
  | next h first ih =>
    have hlt := Ticks.lt_iff_toNat_lt.1 h
    exact .next (Ticks.lt_iff_toNat_lt.2 (by omega)) (ih hs)

/-- The cycle counter moves on by what the run returns. -/
theorem RunAccount.cycles_eq {budget : Ticks} {r : Ticks × Cpu × β}
    (h : RunAccount budget c bus r) : r.2.1.cycles = c.cycles + r.1 := by
  have hlt := r.2.1.cycles.count.toNat_lt
  have hcounter := h.counter
  have hsum : (c.cycles + r.1).count.toNat = c.cycles.count.toNat + r.1.count.toNat :=
    Ticks.toNat_add_of_lt (by omega)
  exact congrArg Ticks.mk (UInt64.toNat_inj.1 (hcounter.trans hsum.symm))

/-! ## 2. Two slices -/

/-- A run on what a first slice cost and the budget of a second one makes the steps of both. -/
theorem run_of_two_slices (c : Cpu) (bus : β) (g h : Ticks)
    (hroom : c.cycles.count.toNat + g.count.toNat + h.count.toNat + 8 < 2 ^ 64) :
    let first := run c bus g
    let second := run first.2.1 first.2.2 h
    run c bus (first.1 + h) = (first.1 + second.1, second.2) := by
  intro first second
  have hfirst : RunAccount g c bus first := runAccount_run bus (by omega)
  have hcost := hfirst.atMost
  have hcounter := hfirst.counter
  have hsecond : RunAccount h first.2.1 first.2.2 second := runAccount_run _ (by omega)
  have hbudget : (first.1 + h).count.toNat = first.1.count.toNat + h.count.toNat :=
    Ticks.toNat_add_of_lt (by omega)
  have hwhole : RunAccount (first.1 + h) c bus (run c bus (first.1 + h)) :=
    runAccount_run bus (by omega)
  -- The second slice aims at the target of the whole run.
  have htarget : first.2.1.cycles + h = c.cycles + (first.1 + h) := by
    rw [hfirst.cycles_eq, Ticks.add_assoc]
  have hstops := hsecond.stops
  rw [htarget] at hstops
  have hle : (c.cycles + g).count.toNat ≤ (c.cycles + (first.1 + h)).count.toNat := by
    have henough := hfirst.atLeast
    rw [Ticks.toNat_add_of_lt (by omega), Ticks.toNat_add_of_lt (by omega)]
    omega
  have hafter : (run c bus (first.1 + h)).2 = second.2 :=
    hwhole.stops.unique (hfirst.stops.trans hle hstops)
  refine Prod.ext (Ticks.eq_of_add_eq (a := c.cycles) ?_) hafter
  show c.cycles + (run c bus (first.1 + h)).1 = c.cycles + (first.1 + second.1)
  rw [← hwhole.cycles_eq, hafter, hsecond.cycles_eq, hfirst.cycles_eq, Ticks.add_assoc]

/-! ## 3. Any number of slices -/

/-- Runs on one budget after the other, each from where the one before it stopped: what they cost
together, and the state after the last. -/
def runSlices (c : Cpu) (bus : β) : List Ticks → Ticks × Cpu × β
  | [] => (0, c, bus)
  | budget :: budgets =>
    let (cost, c, bus) := run c bus budget
    let (rest, after) := runSlices c bus budgets
    (cost + rest, after)

/-- The most that slices with these budgets can cost. -/
def sliceLimit (budgets : List Ticks) : Nat :=
  (budgets.map fun budget => budget.count.toNat + 4).sum

theorem runSlices_cost_le (budgets : List Ticks) (c : Cpu) (bus : β)
    (hroom : c.cycles.count.toNat + sliceLimit budgets < 2 ^ 64) :
    (runSlices c bus budgets).1.count.toNat ≤ sliceLimit budgets := by
  induction budgets generalizing c bus with
  | nil => exact Nat.zero_le _
  | cons budget budgets ih =>
    have hlimit : sliceLimit (budget :: budgets) =
        budget.count.toNat + 4 + sliceLimit budgets := List.sum_cons
    have hfirst : RunAccount budget c bus (run c bus budget) := runAccount_run bus (by omega)
    have hcost := hfirst.atMost
    have hcounter := hfirst.counter
    have hrest := ih (run c bus budget).2.1 (run c bus budget).2.2 (by omega)
    show ((run c bus budget).1 + (runSlices (run c bus budget).2.1 (run c bus budget).2.2
      budgets).1).count.toNat ≤ _
    rw [Ticks.toNat_add_of_lt (by omega)]
    omega

/-- A run on what the first slices cost and the budget of the last one makes the steps of all. -/
theorem run_of_slices (budgets : List Ticks) (last : Ticks) (c : Cpu) (bus : β)
    (hroom : c.cycles.count.toNat + sliceLimit (budgets ++ [last]) < 2 ^ 64) :
    run c bus ((runSlices c bus budgets).1 + last) = runSlices c bus (budgets ++ [last]) := by
  induction budgets generalizing c bus with
  | nil =>
    show run c bus (0 + last) = ((run c bus last).1 + 0, (run c bus last).2)
    rw [Ticks.zero_add, Ticks.add_zero]
  | cons budget budgets ih =>
    have hlimit : sliceLimit (budget :: budgets ++ [last]) =
        budget.count.toNat + 4 + sliceLimit (budgets ++ [last]) := List.sum_cons
    have hsplit : sliceLimit (budgets ++ [last]) =
        sliceLimit budgets + (last.count.toNat + 4) := by
      simp [sliceLimit]
    let first := run c bus budget
    have hfirst : RunAccount budget c bus first := runAccount_run bus (by omega)
    have hcost := hfirst.atMost
    have hcounter := hfirst.counter
    let rest := runSlices first.2.1 first.2.2 budgets
    have hrest : rest.1.count.toNat ≤ sliceLimit budgets :=
      runSlices_cost_le budgets first.2.1 first.2.2 (by omega)
    have hlast : (rest.1 + last).count.toNat = rest.1.count.toNat + last.count.toNat :=
      Ticks.toNat_add_of_lt (by omega)
    -- The slices after the first are one run, and so the first is followed by a single other one.
    have htail : run first.2.1 first.2.2 (rest.1 + last) =
        runSlices first.2.1 first.2.2 (budgets ++ [last]) := ih _ _ (by omega)
    show run c bus (first.1 + rest.1 + last) =
      (first.1 + (runSlices first.2.1 first.2.2 (budgets ++ [last])).1,
        (runSlices first.2.1 first.2.2 (budgets ++ [last])).2)
    rw [Ticks.add_assoc, ← htail]
    exact run_of_two_slices c bus budget (rest.1 + last) (by omega)

/-- How a run is cut does not matter.  After a run that cost `e`, a run on `h` ends where a single
run on `e + h` from the start ends, and together they cost what that one costs.  The same goes for
any number of slices, each entered at what it cost. -/
theorem run_eq_slices (c : Cpu) (bus : β) :
    (∀ g h : Ticks, c.cycles.count.toNat + g.count.toNat + h.count.toNat + 8 < 2 ^ 64 →
      let first := run c bus g
      let second := run first.2.1 first.2.2 h
      run c bus (first.1 + h) = (first.1 + second.1, second.2)) ∧
    ∀ (budgets : List Ticks) (last : Ticks),
      c.cycles.count.toNat + sliceLimit (budgets ++ [last]) < 2 ^ 64 →
      run c bus ((runSlices c bus budgets).1 + last) = runSlices c bus (budgets ++ [last]) :=
  ⟨run_of_two_slices c bus, fun budgets last => run_of_slices budgets last c bus⟩

/-- Long multiplications with an addend take five cycles each.  Slices of six, none and one cost
ten, nothing and five, as does a run on eleven. -/
theorem run_eq_slices_umlal :
    let ram : FlatRam := ⟨⟨#[0x92, 0x03, 0xA1, 0xE0]⟩, false, by decide⟩
    (run initial ram 6).1 = 10 ∧ (run initial ram 11).1 = 15 ∧
      initial.cycles.count.toNat + (6 : Ticks).count.toNat + (1 : Ticks).count.toNat + 8 < 2 ^ 64 ∧
      initial.cycles.count.toNat + sliceLimit ([6, 0] ++ [1]) < 2 ^ 64 ∧
      (run initial ram 11).2 = (run (run initial ram 6).2.1 (run initial ram 6).2.2 1).2 ∧
      run initial ram 11 = runSlices initial ram [6, 0, 1] := by
  intro ram
  have hfirst : (run initial ram 6).1 = 10 := by decide
  have hslices : (runSlices initial ram [6, 0]).1 = 10 := by decide
  have htwo := (run_eq_slices initial ram).1 6 1 (by decide)
  have hthree := (run_eq_slices initial ram).2 [6, 0] 1 (by decide)
  dsimp only at htwo
  rw [hfirst] at htwo
  rw [hslices] at hthree
  have hafter : (run initial ram 11).2 =
      (run (run initial ram 6).2.1 (run initial ram 6).2.2 1).2 :=
    congrArg (fun r => r.2) htwo
  exact ⟨hfirst, by decide, by decide, by decide, hafter, hthree⟩

end Handheld.Cpu
