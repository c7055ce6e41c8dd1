import Handheld.Proofs.Console.EventEffect

/-!
# A program cannot forge the status

While a line runs, the line counter, the status bits and the keys are those that the console set at
the start of the line and of the frame, at every instruction boundary and whatever the program
writes.
-/

namespace Handheld.Console

/-- The status is that of line `l`, begun with the registers `before`, in a frame begun with the
keys. -/
structure StatusAt (timing : FrameTiming) (keys : Option Half) (before : IoRegisters) (l : Nat)
    (io : IoRegisters) : Prop where
  vcount : io.vcount.toNat = l
  vblank : io.dispstat.toNat.testBit 0 = true ↔ timing.visibleScanlines.toNat ≤ l
  hblank : io.dispstat.toNat.testBit 1 = false
  matched : io.dispstat.toNat.testBit 2 = true ↔ before.vcountSetting.toNat = l
  keyinput : io.keyinput = (keys.map (· ||| 0xFC00)).getD 0x03FF

variable {σ : Type} (p : Peripherals σ) (console : Console) (s : σ)

/-- No event sets the bit that says that a line has been drawn. -/
theorem testBit_one_happen (timing : FrameTiming) (m : Memory) (e : Event) :
    (happen timing m e).io.dispstat.toNat.testBit 1 = m.io.dispstat.toNat.testBit 1 := by
  cases e with
  | keys mask => rfl
  | line line =>
    show (beginLine timing m line).io.dispstat.toNat.testBit 1 = _
    rw [io_beginLine, testBit_dispstat_lineStatus timing _ _ (by decide)]
    rfl
  | access a => exact (sameStatus_access m a).dispstat 1 (by decide)

theorem testBit_one_foldl (timing : FrameTiming) (m : Memory) (es : List Event) :
    (es.foldl (happen timing) m).io.dispstat.toNat.testBit 1 =
      m.io.dispstat.toNat.testBit 1 := by
  induction es generalizing m with
  | nil => rfl
  | cons e es ih => rw [List.foldl_cons, ih, testBit_one_happen]

/-- The instructions of a line leave the status as the beginning of the line sets it. -/
theorem sameStatus_boundary (f l n : Nat) :
    SameStatus (boundary p console s f l n).2.io
      (lineStatus console.timing (lineStart p console s f l).2.io (UInt16.ofNat l)) := by
  rw [← io_beginLine]
  unfold boundary
  dsimp only
  rw [← Cpu.foldl_traffic]
  exact sameStatus_foldl_access _ _

theorem keyinput_boundary (f l n : Nat) :
    (boundary p console s f l n).2.io.keyinput = (lineStart p console s f l).2.io.keyinput :=
  (sameStatus_boundary p console s f l n).keyinput

theorem keyinput_lineStart (f : Nat) {l : Nat} (hl : l ≤ console.timing.scanlines.toNat) :
    (lineStart p console s f l).2.io.keyinput =
      ((frameKeys p console s f).map (· ||| 0xFC00)).getD Keypad.releasedMask := by
  -- The keys are latched before the first line, and no line has any effect on them.
  induction l with
  | zero => rfl
  | succ l ih =>
    rw [lineStart_succ p console s f (Nat.lt_of_succ_le hl), keyinput_boundary]
    exact ih (Nat.le_of_succ_le hl)

theorem statusAt_boundary (hinitial : console.memory.io = IoRegisters.initial) (f : Nat) {l : Nat}
    (hl : l < console.timing.scanlines.toNat) (n : Nat) :
    StatusAt console.timing (frameKeys p console s f) (lineStart p console s f l).2.io l
      (boundary p console s f l n).2.io := by
  have hsame := sameStatus_boundary p console s f l n
  have hline : (UInt16.ofNat l).toNat = l :=
    UInt16.toNat_ofNat_of_lt' (Nat.lt_trans hl (UInt16.toNat_lt _))
  constructor
  case vcount =>
    rw [hsame.vcount]
    exact hline
  case vblank =>
    rw [hsame.dispstat 0 (by decide), testBit_dispstat_lineStatus _ _ _ (by decide)]
    simp [UInt16.le_iff_toNat_le, hline]
  case hblank =>
    rw [← foldl_history p console s f hl n, testBit_one_foldl, hinitial]
    rfl
  case matched =>
    rw [hsame.dispstat 2 (by decide), testBit_dispstat_lineStatus _ _ _ (by decide), if_pos rfl,
      beq_iff_eq, ← UInt16.toNat_inj, hline, eq_comm]
  case keyinput =>
    rw [keyinput_boundary]
    exact keyinput_lineStart p console s f (Nat.le_of_lt hl)

/-- In a run of a new console the status is the console's own at every boundary of a line, and after
the last line of a frame. -/
theorem status_of_run {config : Config} (h : ofConfig config = .ok console) (f : Nat) {l : Nat}
    (hl : l < console.timing.scanlines.toNat) :
    let Shown := StatusAt console.timing (frameKeys p console s f) (lineStart p console s f l).2.io l
    (∀ n, Shown (boundary p console s f l n).2.io) ∧
      (l + 1 = console.timing.scanlines.toNat →
        Shown (frames p console s (f + 1)).1.memory.io) := by
  intro Shown
  have hinitial := (registers_ofConfig h).1
  have hshown : ∀ n, Shown (boundary p console s f l n).2.io :=
    statusAt_boundary p console s hinitial f hl
  refine ⟨hshown, fun hlast => ?_⟩
  rw [← lineStart_scanlines, ← hlast, lineStart_succ p console s f hl]
  exact hshown _

/-- The program writes ones to the display status and the line counter in one word.  In the second
line every bit that it can set is set, and the status is still that of the line. -/
theorem status_of_run_ones :
    let image : ByteArray := ⟨#[0x01, 0x03, 0xA0, 0xE3, 0x00, 0x10, 0xE0, 0xE3, 0x04, 0x10, 0x80, 0xE5,
      0xFD, 0xFF, 0xFF, 0xEA]⟩
    let config := { Config.standard with rom := image, timing := ⟨2, 1, 16⟩ }
    let console : Console :=
      { cpu := Cpu.reset Config.romEntry false
        memory := Memory.ofRom ⟨image, by decide, by decide⟩
        timing := ⟨2, 1, 16⟩
        frame := Frame.blank
        frameCount := 0 }
    let keypad : Peripherals Unit := ⟨fun s => (some 0x03FE, s), fun _ f s => (f, s), fun _ s => s⟩
    let io := (boundary keypad console () 0 1 1).2.io
    ofConfig config = .ok console ∧ 1 < console.timing.scanlines.toNat ∧
      StatusAt console.timing (frameKeys keypad console () 0) (lineStart keypad console () 0 1).2.io 1
        io ∧
      io.dispstat = 0xFFF9 := by
  intro image config console keypad io
  have hconsole : ofConfig config = .ok console := rfl
  have hline : 1 < console.timing.scanlines.toNat := by decide
  have hstatus := (status_of_run keypad console () hconsole 0 hline).1 1
  exact ⟨hconsole, hline, hstatus, by decide +kernel⟩

end Handheld.Console
