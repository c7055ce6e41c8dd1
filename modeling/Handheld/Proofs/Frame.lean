import Handheld.Console
import Handheld.Proofs.Run

/-!
# The cycles of a frame

A frame hands the same budget to each of its lines.  A line overruns its budget by at most four
cycles and the next line does not make up for it, so a frame of `L` lines may drift by `4 * L`.
-/

namespace Handheld.Console

variable {timing : FrameTiming} {c : Cpu} {m : Memory} {k : Nat}

/-! ## 1. One line -/

/-- The budget of a line. -/
def lineBudget (timing : FrameTiming) : Ticks := Ticks.ofWord timing.cyclesPerLine

theorem toNat_lineBudget (timing : FrameTiming) :
    (lineBudget timing).count.toNat = timing.cyclesPerLine.toNat :=
  Ticks.toNat_ofWord timing.cyclesPerLine

theorem runAccount_runLine (timing : FrameTiming) (m : Memory) (line : Half)
    (hroom : c.cycles.count.toNat + (timing.cyclesPerLine.toNat + 4) < 2 ^ 64) :
    Cpu.RunAccount (lineBudget timing) c (beginLine timing m line) (runLine timing c m line) := by
  rw [← toNat_lineBudget] at hroom
  exact Cpu.runAccount_run _ (by omega)

/-! ## 2. Lines in a row -/

theorem runLines_append (total : Ticks) (c : Cpu) (m : Memory) (lines : List Half) (line : Half) :
    let before := runLines timing total c m lines
    let last := runLine timing before.2.1 before.2.2 line
    runLines timing total c m (lines ++ [line]) = (before.1 + last.1, last.2) := by
  induction lines generalizing total c m with
  | nil => rfl
  | cons first rest ih => exact ih _ _ _

/-- What the first `k` lines of a frame use, and the state after them. -/
def firstLines (timing : FrameTiming) (c : Cpu) (m : Memory) (k : Nat) : Ticks × Cpu × Memory :=
  runLines timing 0 c m (timing.lines.take k)

/-- The next line starts where the lines before it ended. -/
theorem firstLines_succ (hk : k < timing.scanlines.toNat) (c : Cpu) (m : Memory) :
    let before := firstLines timing c m k
    let last := runLine timing before.2.1 before.2.2 (UInt16.ofNat k)
    firstLines timing c m (k + 1) = (before.1 + last.1, last.2) := by
  have hlines : timing.lines.take (k + 1) = timing.lines.take k ++ [UInt16.ofNat k] := by
    unfold FrameTiming.lines
    rw [List.take_add_one, List.getElem?_map, List.getElem?_range hk]
    rfl
  unfold firstLines
  rw [hlines]
  exact runLines_append 0 c m _ _

theorem firstLines_all (timing : FrameTiming) (c : Cpu) (m : Memory) :
    firstLines timing c m timing.scanlines.toNat = runLines timing 0 c m timing.lines := by
  have hlength : timing.lines.length = timing.scanlines.toNat := by
    unfold FrameTiming.lines
    rw [List.length_map, List.length_range]
  unfold firstLines
  rw [← hlength, List.take_length]

/-- The lines use their budgets and at most four cycles more each, and the cycle counter moves by
what they use. -/
theorem firstLines_cycles (hk : k ≤ timing.scanlines.toNat)
    (hroom : c.cycles.count.toNat + k * (timing.cyclesPerLine.toNat + 4) < 2 ^ 64) :
    let after := firstLines timing c m k
    k * timing.cyclesPerLine.toNat ≤ after.1.count.toNat ∧
      after.1.count.toNat ≤ k * (timing.cyclesPerLine.toNat + 4) ∧
      after.2.1.cycles.count.toNat = c.cycles.count.toNat + after.1.count.toNat := by
  intro after
  induction k with
  | zero =>
    rw [Nat.zero_mul, Nat.zero_mul]
    exact ⟨Nat.zero_le _, Nat.le_refl 0, rfl⟩
  | succ k ih =>
    -- The account of the next line is added to that of the lines before it.
    rw [Nat.succ_mul] at hroom
    obtain ⟨hlow, hhigh, hcounter⟩ := ih (Nat.le_of_succ_le hk) (by omega)
    obtain ⟨-, hleast, hmost, -, hlast⟩ := runAccount_runLine timing
      (c := (firstLines timing c m k).2.1) (firstLines timing c m k).2.2 (UInt16.ofNat k) (by omega)
    rw [toNat_lineBudget] at hleast hmost
    have hnext := firstLines_succ (Nat.lt_of_succ_le hk) c m
    have hsum := Ticks.toNat_add_of_lt (a := (firstLines timing c m k).1)
      (b := (runLine timing (firstLines timing c m k).2.1 (firstLines timing c m k).2.2
        (UInt16.ofNat k)).1) (by omega)
    have hafter : after.1.count.toNat = _ := (congrArg (fun r => r.1.count.toNat) hnext).trans hsum
    have hend : after.2.1.cycles.count.toNat = _ :=
      (congrArg (fun r => r.2.1.cycles.count.toNat) hnext).trans hlast
    rw [Nat.succ_mul, Nat.succ_mul, hafter, hend, hcounter]
    exact ⟨by omega, by omega, by omega⟩

/-- A frame stops.  It uses what its lines use, and each line stops too, uses its budget and at most
four cycles more, and nothing if the budget is nothing. -/
theorem runFrame_cycles {σ : Type} (p : Peripherals σ) (console : Console) (s : σ)
    (hroom : console.cpu.cycles.count.toNat +
      console.timing.scanlines.toNat * (console.timing.cyclesPerLine.toNat + 4) < 2 ^ 64) :
    let start := console.memory.latchKeys (p.readKeys s).1
    let used := (runFrame p console s).1.count.toNat
    let after := (runFrame p console s).2.1
    console.timing.scanlines.toNat * console.timing.cyclesPerLine.toNat ≤ used ∧
    used ≤ console.timing.scanlines.toNat * (console.timing.cyclesPerLine.toNat + 4) ∧
    after.cpu.cycles.count.toNat = console.cpu.cycles.count.toNat + used ∧
    after.frameCount = console.frameCount + 1 ∧
    ∀ k < console.timing.scanlines.toNat,
      let before := (firstLines console.timing console.cpu start k).2
      let line := UInt16.ofNat k
      Cpu.RunAccount (lineBudget console.timing) before.1
        (beginLine console.timing before.2 line)
        (runLine console.timing before.1 before.2 line) := by
  intro start used after
  have hlines := firstLines_all console.timing console.cpu start
  have hused : used = (firstLines console.timing console.cpu start _).1.count.toNat :=
    congrArg (fun r => r.1.count.toNat) hlines.symm
  have hcpu : after.cpu = (firstLines console.timing console.cpu start _).2.1 :=
    congrArg (fun r => r.2.1) hlines.symm
  obtain ⟨hlow, hhigh, hcounter⟩ :=
    firstLines_cycles (m := start) (Nat.le_refl console.timing.scanlines.toNat) hroom
  rw [hused, hcpu]
  refine ⟨hlow, hhigh, hcounter, rfl, fun k hk => ?_⟩
  intro before line
  -- The lines up to and including this one fit below the bound, so this one does on its own.
  have hmul := Nat.mul_le_mul_right (console.timing.cyclesPerLine.toNat + 4) (Nat.succ_le_of_lt hk)
  rw [Nat.succ_mul] at hmul
  obtain ⟨-, hspent, hbefore⟩ := firstLines_cycles (c := console.cpu) (m := start)
    (Nat.le_of_lt hk) (by omega)
  change before.1.cycles.count.toNat = _ at hbefore
  have hroom' : before.1.cycles.count.toNat + (console.timing.cyclesPerLine.toNat + 4) <
      2 ^ 64 := by omega
  exact runAccount_runLine console.timing before.2 line hroom'

/-- With the timing of the display a frame takes 280896 cycles, or at most 912 more.  The cartridge
holds one branch to itself. -/
theorem runFrame_cycles_standard :
    let rom : Rom := ⟨⟨#[0xFE, 0xFF, 0xFF, 0xEA]⟩, by decide, by decide⟩
    let console : Console :=
      { cpu := Cpu.reset Config.romEntry false
        memory := Memory.ofRom rom
        timing := FrameTiming.standard
        frame := Frame.blank
        frameCount := 0 }
    let nothing : Peripherals Unit := ⟨fun s => (none, s), fun _ f s => (f, s), fun _ s => s⟩
    let used := (runFrame nothing console ()).1.count.toNat
    280896 ≤ used ∧ used ≤ 281808 ∧ (runFrame nothing console ()).2.1.frameCount = 1 := by
  intro rom console nothing used
  have hlines : console.timing.scanlines.toNat = 228 := by decide
  have hbudget : console.timing.cyclesPerLine.toNat = 1232 := by decide
  have hroom : console.cpu.cycles.count.toNat +
      console.timing.scanlines.toNat * (console.timing.cyclesPerLine.toNat + 4) < 2 ^ 64 := by
    decide
  obtain ⟨hlow, hhigh, -, hcount, -⟩ := runFrame_cycles nothing console () hroom
  rw [hlines, hbudget] at hlow hhigh
  exact ⟨hlow, hhigh, hcount⟩

end Handheld.Console
