import Handheld.Proofs.Console.EventEffect
import Handheld.Proofs.Entry
import Handheld.Proofs.Latch

/-!
# No spurious interrupt

In a run of a new console the processor takes an interrupt only for a line that asked for it, which
the program has not acknowledged since.  A program that enables no interrupt in the display status
takes none, and one that waits for the end of drawing takes it with the first step of its line.
-/

namespace Handheld

/-! ## 1. Entries -/

namespace Cpu

variable {β : Type} [Bus β] {c : Cpu} {bus : β}

theorem takesIrq_of_entry? (h : entry? c bus = some .irq) : takesIrq c bus = true := by
  rcases step_forms c bus with hirq | ⟨op, hop⟩ | ⟨op, hop⟩ | hskip
  · exact hirq
  -- All other entries are software interrupts.
  · rw [hop.entry?_eq] at h
    split at h <;> cases h
  · rw [hop.entry?_eq] at h
    split at h <;> cases h
  · rw [hskip.entry?_eq] at h
    cases h

theorem one_le_stepsUntil {target : Ticks} {fuel : Nat} (hfuel : 1 ≤ fuel)
    (h : c.cycles < target) : 1 ≤ stepsUntil target fuel c bus := by
  cases fuel with
  | zero => exact absurd hfuel (by decide)
  | succ fuel =>
    unfold stepsUntil
    rw [if_pos h]
    exact Nat.le_add_left 1 _

end Cpu

namespace Console

/-! ## 2. Where a set bit of IF comes from -/

/-- In the events, a line asked for the interrupt whose bit is `k`, and since then the program has
not acknowledged it. -/
def Due (timing : FrameTiming) (first : Memory) (k : Nat) (es : List Event) : Prop :=
  SetSince (happen timing) (Event.Asks timing k) (Event.Clears k) first es

theorem testBit_flags_foldl (timing : FrameTiming) {first : Memory}
    (hfirst : first.interrupts = InterruptController.initial) (es : List Event) {k : Nat}
    (hk : k < 16) :
    (es.foldl (happen timing) first).interrupts.flags.toNat.testBit k = true ↔
      Due timing first k es := by
  apply latched_foldl_iff (fun m : Memory => m.interrupts.flags.toNat.testBit k = true)
  · intro m e
    exact testBit_flags_happen timing m e hk
  · rw [hfirst]
    simp [InterruptController.initial]

/-- Only two interrupts are asked for. -/
theorem Event.Asks.eq_or_eq {timing : FrameTiming} {k : Nat} {m : Memory} {e : Event}
    (h : e.Asks timing k m) : k = 0 ∨ k = 2 := by
  obtain ⟨line, s, rfl, hs⟩ := h
  rcases (raises_iff timing m line).1 ⟨s, hs⟩ with h | h
  · exact .inr h.2.symm
  · exact .inl h.2.symm

/-- A line asks for an interrupt only while bit 3 or bit 5 of the display status is set. -/
theorem Event.Asks.enabled {timing : FrameTiming} {k : Nat} {m : Memory} {e : Event}
    (h : e.Asks timing k m) :
    m.io.dispstat.toNat.testBit 3 = true ∨ m.io.dispstat.toNat.testBit 5 = true := by
  obtain ⟨line, s, rfl, hs⟩ := h
  rw [← IoRegisters.vblankIrqEnabled_eq_testBit, ← IoRegisters.vcountIrqEnabled_eq_testBit]
  rcases (raises_iff timing m line).1 ⟨s, hs⟩ with h | h
  · exact .inr h.1.2
  · exact .inl h.1.2

/-! ## 3. A program that enables nothing -/

/-- A bit of the display status stays clear until the program writes a one to it. -/
theorem testBit_dispstat_foldl_eq_false (timing : FrameTiming) {m : Memory} {es : List Event}
    {k : Nat} (h3 : 3 ≤ k) (hk : k < 16)
    (h : ∀ w ∈ programWrites es, w.1 = IoRegisters.statusAddress k →
      w.2.toNat.testBit (k % 8) = false)
    (hm : m.io.dispstat.toNat.testBit k = false) :
    (es.foldl (happen timing) m).io.dispstat.toNat.testBit k = false := by
  induction es generalizing m with
  | nil => exact hm
  | cons e es ih =>
    rw [List.foldl_cons]
    apply ih
    · intro w hw
      exact h w (programWrites_subset (List.subset_cons_self e es) hw)
    · rw [testBit_dispstat_happen timing m e h3 hk]
      split
      next a v =>
        have hwrite := h (a, v) (mem_programWrites.2 List.mem_cons_self)
        split
        next ha => exact hwrite ha
        next => exact hm
      next => exact hm

/-- No byte written has a one at bit 3 or bit 5 of the display status. -/
def EnablesNone (es : List Event) : Prop :=
  ∀ w ∈ programWrites es, w.1 = 0x04000004 →
    w.2.toNat.testBit 3 = false ∧ w.2.toNat.testBit 5 = false

theorem not_due_of_enablesNone (timing : FrameTiming) {first : Memory} {es : List Event}
    (hfirst : first.io = IoRegisters.initial) (h : EnablesNone es) (k : Nat) :
    ¬ Due timing first k es := by
  rintro ⟨before, e, after, rfl, hasks, -⟩
  have hbefore : EnablesNone before := fun w hw =>
    h w (programWrites_subset (List.subset_append_left _ _) hw)
  -- Neither bit has been set when the line begins, so it asks for nothing.
  have h3 : (before.foldl (happen timing) first).io.dispstat.toNat.testBit 3 = false :=
    testBit_dispstat_foldl_eq_false timing (by decide) (by decide)
      (fun w hw ha => (hbefore w hw ha).1) (by rw [hfirst]; rfl)
  have h5 : (before.foldl (happen timing) first).io.dispstat.toNat.testBit 5 = false :=
    testBit_dispstat_foldl_eq_false timing (by decide) (by decide)
      (fun w hw ha => (hbefore w hw ha).2) (by rw [hfirst]; rfl)
  rcases hasks.enabled with hset | hset
  · exact absurd (h3.symm.trans hset) (by decide)
  · exact absurd (h5.symm.trans hset) (by decide)

/-! ## 4. A run -/

/-- Why an interrupt may be taken at a boundary: the program has not masked it, interrupts are on, one
that is due is selected, and only lines have asked, none of whose requests is acknowledged. -/
structure Warranted (timing : FrameTiming) (first : Memory) (es : List Event) (c : Cpu)
    (ic : InterruptController) : Prop where
  unmasked : c.flag Psr.irqDisable = false
  master : ic.master.toNat.testBit 0 = true
  selected : ic.enable &&& ic.flags ≠ 0
  sources : ic.flags &&& ~~~0x0005 = 0
  due : ∀ k < 16, ic.flags.toNat.testBit k = true → Due timing first k es

theorem warranted_of_takesIrq {timing : FrameTiming} {first : Memory}
    (hfirst : first.interrupts = InterruptController.initial) (es : List Event) {c : Cpu}
    (h : Cpu.takesIrq c (es.foldl (happen timing) first) = true) :
    Warranted timing first es c (es.foldl (happen timing) first).interrupts := by
  unfold Cpu.takesIrq at h
  rw [Bool.and_eq_true, Bool.not_eq_true'] at h
  obtain ⟨hmaster, k, hk, hselected⟩ := (InterruptController.pending_iff _).1 h.2
  have hdue : ∀ k < 16, (es.foldl (happen timing) first).interrupts.flags.toNat.testBit k = true →
      Due timing first k es := fun k hk => (testBit_flags_foldl timing hfirst es hk).1
  refine ⟨h.1, hmaster, (Half.and_ne_zero_iff _ _).2 ⟨k, hk, hselected⟩, ?_, hdue⟩
  -- Another bit of IF would be due as well, but no line asks for it.
  by_contra hne
  obtain ⟨j, hj, hset, hother⟩ := (Half.and_ne_zero_iff _ _).1 hne
  obtain ⟨_, _, _, -, hasks, -⟩ := hdue j hj hset
  rcases hasks.eq_or_eq with rfl | rfl
  · exact absurd hother (by decide)
  · exact absurd hother (by decide)

/-- Where drawing ends, a processor that waits for the interrupt takes it. -/
theorem takesIrq_beginLine {timing : FrameTiming} {c : Cpu} {m : Memory} {line : Half}
    (hline : line = timing.visibleScanlines) (hvblank : m.io.vblankIrqEnabled = true)
    (henable : m.interrupts.enable.toNat.testBit 0 = true)
    (hmaster : m.interrupts.master.toNat.testBit 0 = true)
    (hunmasked : c.flag Psr.irqDisable = false) :
    Cpu.takesIrq c (beginLine timing m line) = true := by
  have hflag : (beginLine timing m line).interrupts.flags.toNat.testBit 0 = true :=
    (testBit_flags_beginLine timing m line (by decide)).2 (.inl ⟨.vBlank, ⟨hline, hvblank⟩, rfl⟩)
  have hkept := enable_master_beginLine timing m line
  have hpending : (beginLine timing m line).interrupts.pending = true := by
    rw [InterruptController.pending_iff, hkept.1, hkept.2]
    exact ⟨hmaster, 0, by decide, henable, hflag⟩
  unfold Cpu.takesIrq
  rw [hunmasked]
  exact hpending

variable {σ : Type} (p : Peripherals σ) (console : Console) (s : σ)

/-- In a run of a new console every interrupt taken is warranted, so a program that enables none in the
display status takes none; and one that has everything set for the end of drawing takes the interrupt
with the first step of the line, which the line has time for. -/
theorem irq_of_run {config : Config} (h : ofConfig config = .ok console) (f : Nat) {l : Nat}
    (hl : l < console.timing.scanlines.toNat) :
    let start := lineStart p console s f l
    let line := UInt16.ofNat l
    let here := boundary p console s f l
    let past := history p console s f l
    (∀ n, Cpu.entry? (here n).1 (here n).2 = some .irq →
      Warranted console.timing console.memory (past n) (here n).1 (here n).2.interrupts) ∧
    (∀ n, EnablesNone (past n) → Cpu.entry? (here n).1 (here n).2 ≠ some .irq) ∧
    (line = console.timing.visibleScanlines → start.2.io.vblankIrqEnabled = true →
      start.2.interrupts.enable.toNat.testBit 0 = true →
      start.2.interrupts.master.toNat.testBit 0 = true →
      start.1.flag Psr.irqDisable = false → 1 ≤ console.timing.cyclesPerLine.toNat →
      start.1.cycles.count.toNat + console.timing.cyclesPerLine.toNat < 2 ^ 64 →
      1 ≤ lineSteps console.timing start.1 start.2 line ∧
        Cpu.entry? (here 0).1 (here 0).2 = some .irq ∧
        here 1 = ({ start.1.enter .irq with
          cycles := (start.1.enter .irq).cycles + Exception.irqCost }, (here 0).2)) := by
  intro start line here past
  obtain ⟨hio, hinterrupts⟩ := registers_ofConfig h
  have hwarranted : ∀ n, Cpu.entry? (here n).1 (here n).2 = some .irq →
      Warranted console.timing console.memory (past n) (here n).1 (here n).2.interrupts := by
    intro n hentry
    have htakes := Cpu.takesIrq_of_entry? hentry
    have hmemory := foldl_history p console s f hl n
    rw [← hmemory] at htakes ⊢
    exact warranted_of_takesIrq hinterrupts _ htakes
  refine ⟨hwarranted, fun n hnone hentry => ?_, ?_⟩
  · -- The interrupt selected would have been asked for by a line.
    have hwarrant := hwarranted n hentry
    obtain ⟨k, hk, -, hset⟩ := (Half.and_ne_zero_iff _ _).1 hwarrant.selected
    exact not_due_of_enablesNone console.timing hio hnone k (hwarrant.due k hk hset)
  · intro hline hvblank henable hmaster hunmasked hbudget hroom
    have htakes : Cpu.takesIrq start.1 (beginLine console.timing start.2 line) = true :=
      takesIrq_beginLine hline hvblank henable hmaster hunmasked
    refine ⟨?_, Cpu.entry?_of_irq htakes, Cpu.step_irq htakes⟩
    rw [← toNat_lineBudget] at hbudget hroom
    -- Short of an overflow the target is ahead of the cycle counter.
    apply Cpu.one_le_stepsUntil hbudget
    rw [Ticks.lt_iff_toNat_lt, Ticks.toNat_add_of_lt hroom]
    exact Nat.lt_add_of_pos_right hbudget

/-- The program enables the interrupt at the end of drawing, selects it and switches interrupts on
during line 0; the first step of line 1 is its entry. -/
theorem irq_of_run_vblank :
    let image : ByteArray := ⟨#[0x01, 0x03, 0xA0, 0xE3, 0x09, 0x10, 0xA0, 0xE3, 0x04, 0x10, 0x80, 0xE5,
      0x00, 0x12, 0x80, 0xE5, 0x08, 0x12, 0x80, 0xE5, 0xFE, 0xFF, 0xFF, 0xEA]⟩
    let config := { Config.standard with rom := image, timing := ⟨2, 1, 12⟩ }
    let console : Console :=
      { cpu := Cpu.reset Config.romEntry false
        memory := Memory.ofRom ⟨image, by decide, by decide⟩
        timing := ⟨2, 1, 12⟩
        frame := Frame.blank
        frameCount := 0 }
    let nothing : Peripherals Unit := ⟨fun s => (none, s), fun _ f s => (f, s), fun _ s => s⟩
    let start := lineStart nothing console () 0 1
    let here := boundary nothing console () 0 1
    ofConfig config = .ok console ∧ 1 < console.timing.scanlines.toNat ∧
      1 ≤ lineSteps console.timing start.1 start.2 1 ∧
      Cpu.entry? (here 0).1 (here 0).2 = some .irq ∧
      Warranted console.timing console.memory (history nothing console () 0 1 0) (here 0).1
        (here 0).2.interrupts := by
  intro image config console nothing start here
  have hconsole : ofConfig config = .ok console := rfl
  have hline : 1 < console.timing.scanlines.toNat := by decide
  obtain ⟨hwarranted, -, hfirst⟩ := irq_of_run nothing console () hconsole 0 hline
  have hvblank : start.2.io.vblankIrqEnabled = true := by decide +kernel
  have henable : start.2.interrupts.enable.toNat.testBit 0 = true := by decide +kernel
  have hmaster : start.2.interrupts.master.toNat.testBit 0 = true := by decide +kernel
  have hunmasked : start.1.flag Psr.irqDisable = false := by decide +kernel
  have hroom : start.1.cycles.count.toNat + console.timing.cyclesPerLine.toNat < 2 ^ 64 := by
    decide +kernel
  obtain ⟨hsteps, hentry, -⟩ :=
    hfirst rfl hvblank henable hmaster hunmasked (by decide +kernel) hroom
  exact ⟨hconsole, hline, hsteps, hentry, hwarranted 0 hentry⟩

end Console

end Handheld
