import Handheld.Proofs.Console.EventEffect
import Handheld.Proofs.Memory.DataLines

/-!
# The budget of a frame

A frame gives each of its lines the whole part of an equal share, so what is left when the cycles of
a frame are divided among its lines goes to no line.  A program may make up for that by instructions
that run over; one whose instructions take one cycle each never does.  So a frame covers its budget,
whatever the program, exactly if the lines divide it evenly.
-/

namespace Handheld

/-- The lines' shares and what is left over. -/
theorem FrameTiming.shares_add_rest (t : FrameTiming) :
    t.scanlines.toNat * t.cyclesPerLine.toNat + t.cyclesPerFrame.toNat % t.scanlines.toNat =
      t.cyclesPerFrame.toNat := by
  have hline : t.cyclesPerLine.toNat =
      t.cyclesPerFrame.toNat / (max t.scanlines 1).toUInt32.toNat :=
    UInt32.toNat_div _ _
  by_cases h : t.scanlines.toNat = 0
  · rw [h, Nat.zero_mul, Nat.mod_zero, Nat.zero_add]
  · have hone : (1 : Half) ≤ t.scanlines := UInt16.le_iff_toNat_le.2 (Nat.one_le_iff_ne_zero.2 h)
    have hmax : max t.scanlines 1 = t.scanlines := by
      show (if t.scanlines ≤ 1 then 1 else t.scanlines) = t.scanlines
      split
      next hle => exact UInt16.le_antisymm hone hle
      next => rfl
    rw [hline, hmax, UInt16.toNat_toUInt32, Nat.div_add_mod]

/-! ## 1. Steps of one cycle -/

namespace Cpu

variable {β : Type} [Bus β] {P : Cpu → β → Prop}

/-- From the states with a property, steps take one cycle and lead to such states again. -/
structure UnitSteps (P : Cpu → β → Prop) : Prop where
  cost {c : Cpu} {bus : β} (h : P c bus) : (step c bus).1 = 1
  next {c : Cpu} {bus : β} (h : P c bus) : P (step c bus).2.1 (step c bus).2.2

/-- The loop stops where the counter is at the target and not beyond it. -/
theorem UnitSteps.runsTo (hP : UnitSteps P) {target : Ticks} {c : Cpu} {bus : β} {r : Cpu × β}
    (hrun : RunsTo target c bus r) (h : P c bus)
    (hle : c.cycles.count.toNat ≤ target.count.toNat) :
    P r.1 r.2 ∧ r.1.cycles.count.toNat = target.count.toNat := by
  -- A step from below the target takes one cycle, so it cannot pass it.
  induction hrun with
  | done hstop =>
    have hge := Nat.le_of_not_lt (mt Ticks.lt_iff_toNat_lt.2 hstop)
    exact ⟨h, Nat.le_antisymm hle hge⟩
  | @next c bus r hlt rest ih =>
    have hbelow := Ticks.lt_iff_toNat_lt.1 hlt
    have htarget := target.count.toNat_lt
    have hone : (1 : Ticks).count.toNat = 1 := rfl
    have hcycles : (step c bus).2.1.cycles.count.toNat = c.cycles.count.toNat + 1 := by
      rw [cycles_step, hP.cost h, Ticks.toNat_add_of_lt (by omega), hone]
    exact ih (hP.next h) (by omega)

theorem UnitSteps.run (hP : UnitSteps P) {c : Cpu} {bus : β} (budget : Ticks) (h : P c bus)
    (hroom : c.cycles.count.toNat + budget.count.toNat + 4 < 2 ^ 64) :
    P (run c bus budget).2.1 (run c bus budget).2.2 ∧
      (run c bus budget).2.1.cycles.count.toNat =
        c.cycles.count.toNat + budget.count.toNat := by
  have hstops := (runAccount_run bus hroom).stops
  have htarget : (c.cycles + budget).count.toNat =
      c.cycles.count.toNat + budget.count.toNat := Ticks.toNat_add_of_lt (by omega)
  rw [← htarget]
  exact hP.runsTo hstops h (by omega)

end Cpu

namespace Console

/-! ## 2. Frames -/

/-- The cycle counter has room for a frame in which every line runs over. -/
def HasRoom (console : Console) : Prop :=
  console.cpu.cycles.count.toNat +
    console.timing.scanlines.toNat * (console.timing.cyclesPerLine.toNat + 4) < 2 ^ 64

variable {σ : Type} {timing : FrameTiming} {c : Cpu} {m : Memory}

theorem fst_runFrame (p : Peripherals σ) (console : Console) (s : σ) :
    (runFrame p console s).1 =
      (firstLines console.timing console.cpu (console.memory.latchKeys (p.readKeys s).1)
        console.timing.scanlines.toNat).1 :=
  congrArg Prod.fst (firstLines_all _ _ _).symm

theorem le_runFrame_add_rest (p : Peripherals σ) (console : Console) (s : σ)
    (hroom : console.HasRoom) :
    console.timing.cyclesPerFrame.toNat ≤ (runFrame p console s).1.count.toNat +
      console.timing.cyclesPerFrame.toNat % console.timing.scanlines.toNat := by
  have hleast := (firstLines_cycles (m := console.memory.latchKeys (p.readKeys s).1)
    (Nat.le_refl console.timing.scanlines.toNat) hroom).1
  have hshares := console.timing.shares_add_rest
  rw [fst_runFrame]
  omega

/-- Lines of one-cycle steps move the counter by what they are given. -/
theorem firstLines_of_unitSteps {P : Cpu → Memory → Prop} (hP : Cpu.UnitSteps P)
    (hline : ∀ c m line, P c m → P c (beginLine timing m line)) (h : P c m) {k : Nat}
    (hk : k ≤ timing.scanlines.toNat)
    (hroom : c.cycles.count.toNat + k * (timing.cyclesPerLine.toNat + 4) < 2 ^ 64) :
    let after := (firstLines timing c m k).2
    P after.1 after.2 ∧
      after.1.cycles.count.toNat = c.cycles.count.toNat + k * timing.cyclesPerLine.toNat := by
  induction k with
  | zero =>
    rw [Nat.zero_mul]
    exact ⟨h, rfl⟩
  | succ k ih =>
    rw [Nat.succ_mul] at hroom
    obtain ⟨hbefore, hcycles⟩ := ih (Nat.le_of_succ_le hk) (by omega)
    -- The lines so far used no more than is allowed for, so there is room for the next one.
    have hmul := Nat.mul_le_mul_left k (Nat.le_add_right timing.cyclesPerLine.toNat 4)
    have hbudget := toNat_lineBudget timing
    obtain ⟨hafter, hlast⟩ := hP.run (lineBudget timing)
      (hline _ _ (UInt16.ofNat k) hbefore) (by omega)
    rw [firstLines_succ (Nat.lt_of_succ_le hk)]
    refine ⟨hafter, hlast.trans ?_⟩
    rw [hcycles, hbudget, Nat.succ_mul, Nat.add_assoc]

theorem runFrame_of_unitSteps {P : Cpu → Memory → Prop} (hP : Cpu.UnitSteps P)
    (p : Peripherals σ) (console : Console) (s : σ)
    (hline : ∀ c m line, P c m → P c (beginLine console.timing m line))
    (h : P console.cpu (console.memory.latchKeys (p.readKeys s).1)) (hroom : console.HasRoom) :
    (runFrame p console s).1.count.toNat =
      console.timing.scanlines.toNat * console.timing.cyclesPerLine.toNat := by
  have hcounter := (firstLines_cycles (m := console.memory.latchKeys (p.readKeys s).1)
    (Nat.le_refl console.timing.scanlines.toNat) hroom).2.2
  have hcycles := (firstLines_of_unitSteps hP hline h (Nat.le_refl _) hroom).2
  rw [fst_runFrame]
  omega

/-! ## 3. A branch to itself -/

/-- A cartridge that holds one branch to itself. -/
def loopImage : ByteArray := ⟨#[0xFE, 0xFF, 0xFF, 0xEA]⟩

def loopRom : Rom := ⟨loopImage, by decide, by decide⟩

/-- A new console with that cartridge. -/
def loop (timing : FrameTiming) : Console where
  cpu := Cpu.reset Config.romEntry false
  memory := Memory.ofRom loopRom
  timing := timing
  frame := Frame.blank
  frameCount := 0

theorem ofConfig_loop (timing : FrameTiming) :
    ofConfig { Config.standard with rom := loopImage, timing := timing } = .ok (loop timing) := rfl

theorem hasRoom_loop (timing : FrameTiming) : (loop timing).HasRoom := by
  have hlines := timing.scanlines.toNat_lt
  have hline := timing.cyclesPerLine.toNat_lt
  have hmul : timing.scanlines.toNat * (timing.cyclesPerLine.toNat + 4) ≤ 2 ^ 16 * (2 ^ 32 + 4) :=
    Nat.mul_le_mul (by omega) (by omega)
  show 0 + timing.scanlines.toNat * (timing.cyclesPerLine.toNat + 4) < 2 ^ 64
  omega

/-- The processor is at the branch, and no interrupt can take it away. -/
structure Loops (c : Cpu) (m : Memory) : Prop where
  rom : m.rom = loopRom
  disabled : m.interrupts.master = 0
  arm : c.cpsr.thumb = false
  pc : c.pc = Config.romEntry

theorem Loops.read32 (h : Loops c m) :
    Bus.read32 m (c.pc &&& ~~~3) = (0xEAFFFFFE, m.withOpenBus 0xEA) := by
  have hbase : Config.romEntry &&& ~~~3 &&& ~~~3 = Config.romEntry := by decide
  have h₀ (m : Memory) := m.read8_of_rom (a := Config.romEntry) (i := 0) rfl
  have h₁ (m : Memory) := m.read8_of_rom (a := Config.romEntry + 1) (i := 1) rfl
  have h₂ (m : Memory) := m.read8_of_rom (a := Config.romEntry + 2) (i := 2) rfl
  have h₃ (m : Memory) := m.read8_of_rom (a := Config.romEntry + 3) (i := 3) rfl
  rw [h.pc]
  unfold Bus.read32
  simp only [hbase, h₀, h₁, h₂, h₃]
  show (Word.ofBytes (m.rom.get 0) (m.rom.get 1) (m.rom.get 2) (m.rom.get 3),
    m.withOpenBus (m.rom.get 3)) = _
  rw [h.rom]
  rfl

theorem Loops.executesArm (h : Loops c m) : Cpu.ExecutesArm c m 0xEAFFFFFE where
  uninterrupted := by
    have hpending : m.interrupts.pending = false := by
      unfold InterruptController.pending
      rw [h.disabled]
      rfl
    unfold Cpu.takesIrq
    show (_ && m.interrupts.pending) = false
    rw [hpending, Bool.and_false]
  arm := h.arm
  fetched := congrArg Prod.fst h.read32
  passes := rfl

theorem Loops.perform (h : Loops c m) :
    Cpu.perform c m = (1, c, m.withOpenBus 0xEA) := by
  have hback : c.setReg .pc Config.romEntry = c := by
    rw [← h.pc]
    exact Cpu.setReg_reg c .pc
  rw [h.executesArm.perform_eq, h.read32, h.pc]
  show (1, (c.setReg .pc _).setReg .pc Config.romEntry, m.withOpenBus 0xEA) = _
  rw [Cpu.setReg_setReg_self, hback]

theorem unitSteps_loops : Cpu.UnitSteps Loops where
  cost h := congrArg Prod.fst h.perform
  next {c m} h := by
    unfold Cpu.step
    rw [h.perform]
    exact ⟨h.rom, h.disabled, h.arm, h.pc⟩

theorem Loops.beginLine (h : Loops c m) (line : Half) : Loops c (beginLine timing m line) where
  rom := by
    rw [beginLine_eq]
    dsimp only
    split <;> split <;> exact h.rom
  disabled := (enable_master_beginLine timing m line).2.trans h.disabled
  arm := h.arm
  pc := h.pc

/-- The frame of the loop uses what its lines are given, and so leaves the rest. -/
theorem runFrame_loop (p : Peripherals σ) (timing : FrameTiming) (s : σ) :
    (runFrame p (loop timing) s).1.count.toNat =
      timing.scanlines.toNat * timing.cyclesPerLine.toNat := by
  have harm : (Cpu.reset Config.romEntry false).cpsr.thumb = false := by decide
  have hpc : (Cpu.reset Config.romEntry false).pc = Config.romEntry := by decide
  have hstart : Loops (loop timing).cpu ((loop timing).memory.latchKeys (p.readKeys s).1) :=
    ⟨rfl, rfl, harm, hpc⟩
  exact runFrame_of_unitSteps unitSteps_loops p (loop timing) s (fun _ _ line h => h.beginLine line)
    hstart (hasRoom_loop timing)

theorem runFrame_loop_add_rest (p : Peripherals σ) (timing : FrameTiming) (s : σ) :
    (runFrame p (loop timing) s).1.count.toNat +
      timing.cyclesPerFrame.toNat % timing.scanlines.toNat = timing.cyclesPerFrame.toNat := by
  rw [runFrame_loop]
  exact timing.shares_add_rest

/-- Whatever the program, a frame falls short of its budget by no more than the rest that the
division among the lines leaves; with a branch to itself it falls short by the whole of it.  So
every frame covers its budget exactly if there is no rest. -/
theorem frame_covers_budget_iff (t : FrameTiming) :
    (∀ (σ : Type) (p : Peripherals σ) (console : Console) (s : σ), console.timing = t →
      console.HasRoom →
      t.cyclesPerFrame.toNat ≤
        (runFrame p console s).1.count.toNat + t.cyclesPerFrame.toNat % t.scanlines.toNat) ∧
    (∃ (config : Config) (console : Console), ofConfig config = .ok console ∧ console.timing = t ∧
      console.HasRoom ∧ ∀ (σ : Type) (p : Peripherals σ) (s : σ),
        (runFrame p console s).1.count.toNat + t.cyclesPerFrame.toNat % t.scanlines.toNat =
          t.cyclesPerFrame.toNat) ∧
    ((∀ (σ : Type) (p : Peripherals σ) (console : Console) (s : σ), console.timing = t →
        console.HasRoom → t.cyclesPerFrame.toNat ≤ (runFrame p console s).1.count.toNat) ↔
      t.scanlines.toNat ∣ t.cyclesPerFrame.toNat) := by
  refine ⟨?_, ⟨_, loop t, ofConfig_loop t, rfl, hasRoom_loop t, ?_⟩, ?_, ?_⟩
  · rintro σ p console s rfl hroom
    exact le_runFrame_add_rest p console s hroom
  · intro σ p s
    exact runFrame_loop_add_rest p t s
  -- The loop is among the programs, so covering its budget leaves no rest.
  · intro hcovers
    let nothing : Peripherals Unit := ⟨fun s => (none, s), fun _ f s => (f, s), fun _ s => s⟩
    have hcovered := hcovers Unit nothing (loop t) () rfl (hasRoom_loop t)
    have hshort := runFrame_loop_add_rest nothing t ()
    exact Nat.dvd_of_mod_eq_zero (by omega)
  · rintro hdvd σ p console s rfl hroom
    have hleast := le_runFrame_add_rest p console s hroom
    rwa [Nat.mod_eq_zero_of_dvd hdvd, Nat.add_zero] at hleast

/-- Three cycles for two lines: each line gets one, and the frame ends after two. -/
theorem frame_short_of_budget :
    let timing : FrameTiming := ⟨2, 1, 3⟩
    let nothing : Peripherals Unit := ⟨fun s => (none, s), fun _ f s => (f, s), fun _ s => s⟩
    let used := (runFrame nothing (loop timing) ()).1.count.toNat
    1 ≤ timing.scanlines ∧ (loop timing).HasRoom ∧ used = 2 ∧
      ¬ timing.cyclesPerFrame.toNat ≤ used := by
  intro timing nothing used
  have hused : used = 2 := (runFrame_loop nothing timing ()).trans (by decide)
  have hbudget : timing.cyclesPerFrame.toNat = 3 := rfl
  exact ⟨by decide, hasRoom_loop timing, hused, by omega⟩

end Console

end Handheld
