import Handheld.Proofs.Console.EventEffect

/-!
# The interrupts of a frame

A frame asks for the interrupt at the end of drawing if one of its lines is the first that is not
drawn, and for the line interrupt if one of its lines is the one asked for, each if the program has
enabled it.  As long as the program writes neither the display status nor IF, these are all the
interrupts that a frame leaves behind, whatever else the program does.
-/

namespace Handheld.Console

/-! ## 1. Events that leave the display status and IF alone -/

/-- The addresses of the display status and of IF. -/
def watched : List Word := [0x04000004, 0x04000005, 0x04000202, 0x04000203]

theorem statusAddress_mem_watched (k : Nat) : IoRegisters.statusAddress k ∈ watched := by
  unfold IoRegisters.statusAddress
  split <;> decide

theorem flagAddress_mem_watched (k : Nat) : InterruptController.flagAddress k ∈ watched := by
  unfold InterruptController.flagAddress
  split <;> decide

section Events

variable (timing : FrameTiming) (m : Memory) {es : List Event}

theorem testBit_dispstat_happen_of_unwatched {e : Event}
    (h : ∀ a v, e = .access (.write a v) → a ∉ watched) {k : Nat} (h3 : 3 ≤ k) (hk : k < 16) :
    (happen timing m e).io.dispstat.toNat.testBit k = m.io.dispstat.toNat.testBit k := by
  rw [testBit_dispstat_happen timing m e h3 hk]
  split
  next a v =>
    rw [if_neg]
    rintro rfl
    exact h _ v rfl (statusAddress_mem_watched k)
  next => rfl

theorem not_clears_of_unwatched {e : Event} (h : ∀ a v, e = .access (.write a v) → a ∉ watched)
    (k : Nat) : ¬ e.Clears k := by
  rintro ⟨a, v, rfl, rfl, -⟩
  exact h _ v rfl (flagAddress_mem_watched k)

/-- What a line asks for depends only on the bits of the display status that a program writes. -/
theorem raises_congr {m m' : Memory}
    (h : ∀ k < 16, 3 ≤ k → m'.io.dispstat.toNat.testBit k = m.io.dispstat.toNat.testBit k)
    (line : Half) (s : Interrupt) : Raises timing m' line s ↔ Raises timing m line s := by
  have hsetting := IoRegisters.vcountSetting_eq fun k hk h8 => h k hk (by omega)
  have hvblank : m'.io.vblankIrqEnabled = m.io.vblankIrqEnabled := by
    rw [IoRegisters.vblankIrqEnabled_eq_testBit, IoRegisters.vblankIrqEnabled_eq_testBit]
    exact h 3 (by decide) (by decide)
  have hvcount : m'.io.vcountIrqEnabled = m.io.vcountIrqEnabled := by
    rw [IoRegisters.vcountIrqEnabled_eq_testBit, IoRegisters.vcountIrqEnabled_eq_testBit]
    exact h 5 (by decide) (by decide)
  unfold Raises
  rw [hsetting, hvblank, hvcount]

/-- A bit of IF is set after the events if one of them asked for it or it was set before. -/
theorem testBit_flags_foldl_of_unwatched (h : ∀ w ∈ programWrites es, w.1 ∉ watched) {k : Nat}
    (hk : k < 16) :
    (es.foldl (happen timing) m).interrupts.flags.toNat.testBit k = true ↔
      (∃ e ∈ es, e.Asks timing k m) ∨ m.interrupts.flags.toNat.testBit k = true := by
  induction es generalizing m with
  | nil => simp
  | cons e es ih =>
    have hfirst : ∀ a v, e = .access (.write a v) → a ∉ watched := by
      rintro a v rfl
      exact h (a, v) (mem_programWrites.2 List.mem_cons_self)
    have hrest : ∀ w ∈ programWrites es, w.1 ∉ watched := fun w hw =>
      h w (programWrites_subset (List.subset_cons_self e es) hw)
    -- The display status stays, so what the later events ask for can be told from the start.
    have hasks : ∀ e', Event.Asks timing k (happen timing m e) e' ↔ e'.Asks timing k m := by
      intro e'
      unfold Event.Asks
      simp only [raises_congr timing fun k hk h3 =>
        testBit_dispstat_happen_of_unwatched timing m hfirst h3 hk]
    rw [List.foldl_cons, ih _ hrest, testBit_flags_happen timing m e hk,
      and_iff_left (not_clears_of_unwatched hfirst k), ← or_assoc]
    simp only [hasks, List.mem_cons, exists_eq_or_imp]
    rw [or_comm (b := e.Asks timing k m)]

end Events

/-! ## 2. A frame -/

theorem exists_mem_frameEvents_asks {σ : Type} (p : Peripherals σ) (console : Console) (s : σ)
    (k : Nat) :
    (∃ e ∈ frameEvents p console s, e.Asks console.timing k console.memory) ↔
      (((console.memory.io.vblankIrqEnabled = true ∧
        console.timing.visibleScanlines < console.timing.scanlines) ∧ 0 = k) ∨
      ((console.memory.io.vcountIrqEnabled = true ∧
        console.memory.io.vcountSetting < console.timing.scanlines) ∧ 2 = k)) := by
  constructor
  · rintro ⟨e, he, line, s', rfl, hraises, hk⟩
    have hline := (mem_frameEvents_line p console s).1 he
    rcases (raises_iff console.timing console.memory line).1 ⟨s', hraises, hk⟩ with h | h
    · obtain ⟨⟨rfl, henabled⟩, hbit⟩ := h
      exact .inr ⟨⟨henabled, hline⟩, hbit⟩
    · obtain ⟨⟨rfl, henabled⟩, hbit⟩ := h
      exact .inl ⟨⟨henabled, hline⟩, hbit⟩
  · rintro (⟨⟨henabled, hline⟩, hbit⟩ | ⟨⟨henabled, hline⟩, hbit⟩)
    · exact ⟨_, (mem_frameEvents_line p console s).2 hline, _, .vBlank, rfl, ⟨rfl, henabled⟩, hbit⟩
    · exact ⟨_, (mem_frameEvents_line p console s).2 hline, _, .vCount, rfl, ⟨rfl, henabled⟩, hbit⟩

/-- A frame in which the program writes neither the display status nor IF sets in IF the bits of the
interrupts that the display status enables and whose line the frame has, and no others. -/
theorem flags_runFrame {σ : Type} (p : Peripherals σ) (console : Console) (s : σ)
    (hquiet : ∀ w ∈ programWrites (frameEvents p console s), w.1 ∉ watched) :
    let timing := console.timing
    let io := console.memory.io
    (runFrame p console s).2.1.memory.interrupts.flags =
      console.memory.interrupts.flags |||
        (if io.vblankIrqEnabled = true ∧ timing.visibleScanlines < timing.scanlines then 0x0001
          else 0) |||
        (if io.vcountIrqEnabled = true ∧ io.vcountSetting < timing.scanlines then 0x0004
          else 0) := by
  intro timing io
  apply Half.eq_of_testBit
  intro k hk
  rw [Bool.eq_iff_iff, ← foldl_frameEvents,
    testBit_flags_foldl_of_unwatched console.timing console.memory hquiet hk,
    exists_mem_frameEvents_asks, UInt16.toNat_or, UInt16.toNat_or, Nat.testBit_or, Nat.testBit_or,
    Bool.or_eq_true, Bool.or_eq_true, Half.testBit_ite _ (j := 0) rfl,
    Half.testBit_ite _ (j := 2) rfl]
  exact or_comm.trans or_assoc.symm

/-- The program enables both interrupts in IE and switches interrupts on, and the processor takes one
of them in line 1; both stay in IF. -/
theorem flags_runFrame_both :
    let rom : Rom := ⟨⟨#[0x01, 0x03, 0xA0, 0xE3, 0x05, 0x10, 0xA0, 0xE3, 0x02, 0x2C, 0x80, 0xE2, 0xB0,
      0x10, 0xC2, 0xE1, 0xB8, 0x10, 0xC2, 0xE1, 0xFE, 0xFF, 0xFF, 0xEA]⟩, by decide, by decide⟩
    let console : Console :=
      { cpu := Cpu.reset Config.romEntry false
        memory := { Memory.ofRom rom with io := { IoRegisters.initial with dispstat := 0x0128 } }
        timing := ⟨2, 1, 24⟩
        frame := Frame.blank
        frameCount := 0 }
    let nothing : Peripherals Unit := ⟨fun s => (none, s), fun _ f s => (f, s), fun _ s => s⟩
    (∀ w ∈ programWrites (frameEvents nothing console ()), w.1 ∉ watched) ∧
      (runFrame nothing console ()).2.1.memory.interrupts.flags = 0x0005 := by
  intro rom console nothing
  have hwrites : programWrites (frameEvents nothing console ()) =
      [(0x04000200, 0x05), (0x04000201, 0x00), (0x04000208, 0x05), (0x04000209, 0x00)] := by
    decide +kernel
  have hquiet : ∀ w ∈ programWrites (frameEvents nothing console ()), w.1 ∉ watched := by
    rw [hwrites]
    simp [watched]
  exact ⟨hquiet, (flags_runFrame nothing console () hquiet).trans (by decide)⟩

end Handheld.Console
