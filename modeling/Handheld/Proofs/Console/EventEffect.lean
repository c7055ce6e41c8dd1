import Handheld.Proofs.Console.Events

/-!
# What an event does to the registers

One lemma for each register, by the kinds of events: the line counter and the status bits change
only where a line begins, the keys only where a frame begins, the rest of the display status only
where the program writes it.  A bit of IF is set only by a line that asks for it, and is cleared only
by a write that acknowledges it.
-/

namespace Handheld

/-! ## 1. Status bits -/

theorem IoRegisters.testBit_dispstat_setStatus (io : IoRegisters) {mask : Half} {j : Nat}
    (hmask : mask.toNat = 2 ^ j) (on : Bool) {k : Nat} (hk : k < 16) :
    (io.setStatus mask on).dispstat.toNat.testBit k =
      if k = j then on else io.dispstat.toNat.testBit k := by
  have hbit : mask.toNat.testBit k = decide (k = j) := by
    rw [hmask, Nat.testBit_two_pow]
    exact decide_eq_decide.2 eq_comm
  unfold setStatus
  cases on with
  | true =>
    rw [if_pos rfl]
    show (io.dispstat ||| mask).toNat.testBit k = _
    rw [UInt16.toNat_or, Nat.testBit_or, hbit]
    by_cases h : k = j <;> simp [h]
  | false =>
    rw [if_neg (by decide)]
    show (io.dispstat &&& ~~~mask).toNat.testBit k = _
    rw [UInt16.toNat_and, Nat.testBit_and, Half.testBit_not _ hk, hbit]
    by_cases h : k = j <;> simp [h]

/-- The line asked for is in the high byte. -/
theorem IoRegisters.vcountSetting_eq {io io' : IoRegisters}
    (h : ∀ k < 16, 8 ≤ k → io.dispstat.toNat.testBit k = io'.dispstat.toNat.testBit k) :
    io.vcountSetting = io'.vcountSetting := by
  unfold vcountSetting
  apply Half.eq_of_testBit
  intro k hk
  rw [UInt16.toNat_shiftRight, UInt16.toNat_shiftRight]
  show (io.dispstat.toNat >>> 8).testBit k = (io'.dispstat.toNat >>> 8).testBit k
  rw [Nat.testBit_shiftRight, Nat.testBit_shiftRight]
  by_cases hlt : 8 + k < 16
  · exact h (8 + k) hlt (Nat.le_add_right 8 k)
  · rw [Half.testBit_of_le _ (Nat.le_of_not_lt hlt), Half.testBit_of_le _ (Nat.le_of_not_lt hlt)]

theorem IoRegisters.vblankIrqEnabled_eq_testBit (io : IoRegisters) :
    io.vblankIrqEnabled = io.dispstat.toNat.testBit 3 := Half.and_bne_zero io.dispstat rfl

theorem IoRegisters.vcountIrqEnabled_eq_testBit (io : IoRegisters) :
    io.vcountIrqEnabled = io.dispstat.toNat.testBit 5 := Half.and_bne_zero io.dispstat rfl

namespace Console

variable (timing : FrameTiming) (m : Memory)

/-! ## 2. The beginning of a line -/

/-- The line asks for the interrupt. -/
def Raises (line : Half) : Interrupt → Prop
  | .vBlank => line = timing.visibleScanlines ∧ m.io.vblankIrqEnabled = true
  | .vCount => line = m.io.vcountSetting ∧ m.io.vcountIrqEnabled = true
  | _ => False

/-- The registers other than the interrupt registers, as a line leaves them at its beginning. -/
def lineStatus (io : IoRegisters) (line : Half) : IoRegisters :=
  ((io.setVcount line).setVblank (timing.visibleScanlines ≤ line)).setMatch
    (line == io.vcountSetting)

theorem testBit_dispstat_lineStatus (io : IoRegisters) (line : Half) {k : Nat} (hk : k < 16) :
    (lineStatus timing io line).dispstat.toNat.testBit k =
      if k = 2 then line == io.vcountSetting
      else if k = 0 then decide (timing.visibleScanlines ≤ line)
      else io.dispstat.toNat.testBit k := by
  unfold lineStatus
  refine (IoRegisters.testBit_dispstat_setStatus _ (j := 2) rfl _ hk).trans ?_
  congr 1
  exact IoRegisters.testBit_dispstat_setStatus _ (j := 0) rfl _ hk

theorem vcountSetting_setVblank (io : IoRegisters) (line : Half) (on : Bool) :
    ((io.setVcount line).setVblank on).vcountSetting = io.vcountSetting := by
  apply IoRegisters.vcountSetting_eq
  intro k hk h8
  refine (IoRegisters.testBit_dispstat_setStatus _ (j := 0) rfl on hk).trans ?_
  rw [if_neg (by omega)]
  rfl

theorem beginLine_eq (line : Half) :
    beginLine timing m line =
      let m' : Memory := { m with io := lineStatus timing m.io line }
      let m' := if line == timing.visibleScanlines && m.io.vblankIrqEnabled then m'.request .vBlank
        else m'
      if line == m.io.vcountSetting && m.io.vcountIrqEnabled then m'.request .vCount else m' := by
  -- The status is set before the interrupts are asked for, and touches no bit that enables one.
  have hvblank : (lineStatus timing m.io line).vblankIrqEnabled = m.io.vblankIrqEnabled := by
    rw [IoRegisters.vblankIrqEnabled_eq_testBit, IoRegisters.vblankIrqEnabled_eq_testBit,
      testBit_dispstat_lineStatus timing _ _ (by decide)]
    rfl
  have hvcount : (lineStatus timing m.io line).vcountIrqEnabled = m.io.vcountIrqEnabled := by
    rw [IoRegisters.vcountIrqEnabled_eq_testBit, IoRegisters.vcountIrqEnabled_eq_testBit,
      testBit_dispstat_lineStatus timing _ _ (by decide)]
    rfl
  unfold beginLine
  dsimp only
  rw [vcountSetting_setVblank, ← lineStatus, hvblank, hvcount]

theorem io_beginLine (line : Half) : (beginLine timing m line).io = lineStatus timing m.io line := by
  rw [beginLine_eq]
  dsimp only
  split <;> split <;> rfl

theorem enable_master_beginLine (line : Half) :
    (beginLine timing m line).interrupts.enable = m.interrupts.enable ∧
      (beginLine timing m line).interrupts.master = m.interrupts.master := by
  rw [beginLine_eq]
  dsimp only
  split <;> split <;> exact ⟨rfl, rfl⟩

theorem raises_iff (line : Half) {k : Nat} :
    (∃ s, Raises timing m line s ∧ s.bit = k) ↔
      (Raises timing m line .vCount ∧ Interrupt.bit .vCount = k) ∨
        (Raises timing m line .vBlank ∧ Interrupt.bit .vBlank = k) := by
  constructor
  · rintro ⟨s, hs, hk⟩
    cases s with
    | vBlank => exact .inr ⟨hs, hk⟩
    | vCount => exact .inl ⟨hs, hk⟩
    | hBlank | timer0 | timer1 | timer2 | timer3 | serial | dma0 | dma1 | dma2 | dma3 | keypad
    | gamePak => exact hs.elim
  · rintro (⟨hs, hk⟩ | ⟨hs, hk⟩)
    · exact ⟨.vCount, hs, hk⟩
    · exact ⟨.vBlank, hs, hk⟩

theorem testBit_flags_requestIf (b : Bool) (s : Interrupt) {k : Nat} (hk : k < 16) :
    (if b then m.request s else m).interrupts.flags.toNat.testBit k = true ↔
      (b = true ∧ s.bit = k) ∨ m.interrupts.flags.toNat.testBit k = true := by
  cases b with
  | false => simp
  | true =>
    rw [if_pos rfl, Memory.testBit_flags_request m s hk]
    simp

/-- A line asks for what it has to and does nothing else to IF. -/
theorem testBit_flags_beginLine (line : Half) {k : Nat} (hk : k < 16) :
    (beginLine timing m line).interrupts.flags.toNat.testBit k = true ↔
      (∃ s, Raises timing m line s ∧ s.bit = k) ∨ m.interrupts.flags.toNat.testBit k = true := by
  have hvblank : (line == timing.visibleScanlines && m.io.vblankIrqEnabled) = true ↔
      Raises timing m line .vBlank := by
    rw [Bool.and_eq_true, beq_iff_eq]
    rfl
  have hvcount : (line == m.io.vcountSetting && m.io.vcountIrqEnabled) = true ↔
      Raises timing m line .vCount := by
    rw [Bool.and_eq_true, beq_iff_eq]
    rfl
  rw [beginLine_eq]
  dsimp only
  rw [testBit_flags_requestIf _ _ _ hk, testBit_flags_requestIf _ _ _ hk, hvblank, hvcount,
    raises_iff, or_assoc]

/-! ## 3. Events -/

/-- The event asks for the interrupt whose bit is `k`. -/
def Event.Asks (k : Nat) (m : Memory) (e : Event) : Prop :=
  ∃ line s, e = .line line ∧ Raises timing m line s ∧ s.bit = k

/-- The event is a write that acknowledges bit `k` of IF. -/
def Event.Clears (k : Nat) (e : Event) : Prop :=
  ∃ a v, e = .access (.write a v) ∧ InterruptController.Acknowledges k a v

theorem testBit_flags_happen (e : Event) {k : Nat} (hk : k < 16) :
    (happen timing m e).interrupts.flags.toNat.testBit k = true ↔
      e.Asks timing k m ∨
        (m.interrupts.flags.toNat.testBit k = true ∧ ¬ e.Clears k) := by
  cases e with
  | keys mask => simp [Event.Asks, Event.Clears, happen, Memory.latchKeys]
  | line line =>
    have hasks : (Event.line line).Asks timing k m ↔
        ∃ s, Raises timing m line s ∧ s.bit = k := by simp [Event.Asks]
    -- Lines ask and never clear; accesses may clear and never ask.
    have hclears : ¬ (Event.line line).Clears k := by simp [Event.Clears]
    rw [hasks, and_iff_left hclears]
    exact testBit_flags_beginLine timing m line hk
  | access a =>
    have hasks : ¬ (Event.access a).Asks timing k m := by simp [Event.Asks]
    rw [or_iff_right hasks]
    cases a with
    | read a v =>
      show (m.read8 a).2.interrupts.flags.toNat.testBit k = true ↔ _
      simp [(Memory.registers_read8 m a).2, Event.Clears]
    | write a v =>
      have hclears : (Event.access (.write a v)).Clears k ↔
          InterruptController.Acknowledges k a v := by simp [Event.Clears]
      show (m.write8 a v).interrupts.flags.toNat.testBit k = true ↔ _
      rw [hclears, Memory.interrupts_write8]
      exact InterruptController.testBit_flags_written m.interrupts a v hk

/-- From the third on, only a write changes a bit of the display status. -/
theorem testBit_dispstat_happen (e : Event) {k : Nat} (h3 : 3 ≤ k) (hk : k < 16) :
    (happen timing m e).io.dispstat.toNat.testBit k =
      match e with
      | .access (.write a v) =>
        if a = IoRegisters.statusAddress k then v.toNat.testBit (k % 8)
        else m.io.dispstat.toNat.testBit k
      | _ => m.io.dispstat.toNat.testBit k := by
  cases e with
  | keys mask => rfl
  | line line =>
    show (beginLine timing m line).io.dispstat.toNat.testBit k = _
    rw [io_beginLine, testBit_dispstat_lineStatus timing _ _ hk, if_neg (by omega),
      if_neg (by omega)]
  | access a =>
    cases a with
    | read a v =>
      show (m.read8 a).2.io.dispstat.toNat.testBit k = _
      rw [(Memory.registers_read8 m a).1]
    | write a v =>
      refine (Memory.testBit_dispstat_write8 m a v hk).trans ?_
      simp only [h3, true_and]

/-- What belongs to the machine is the same in both: the line counter, the keys and the three low
bits of the display status. -/
structure SameStatus (io io' : IoRegisters) : Prop where
  vcount : io.vcount = io'.vcount
  keyinput : io.keyinput = io'.keyinput
  dispstat : ∀ k < 3, io.dispstat.toNat.testBit k = io'.dispstat.toNat.testBit k

theorem sameStatus_access (a : Access) : SameStatus (Bus.access m a).io m.io := by
  cases a with
  | read a v =>
    have hio : (Bus.access m (.read a v)).io = m.io := (Memory.registers_read8 m a).1
    rw [hio]
    exact ⟨rfl, rfl, fun _ _ => rfl⟩
  | write a v =>
    have hkept := Memory.vcount_keyinput_write8 m a v
    refine ⟨hkept.1, hkept.2, fun k hk => ?_⟩
    refine (Memory.testBit_dispstat_write8 m a v (by omega)).trans ?_
    rw [if_neg (by omega)]

/-- No traffic changes it. -/
theorem sameStatus_foldl_access (as : List Access) :
    SameStatus (as.foldl Bus.access m).io m.io := by
  induction as generalizing m with
  | nil => exact ⟨rfl, rfl, fun _ _ => rfl⟩
  | cons a as ih =>
    have hfirst := sameStatus_access m a
    have hrest := ih (Bus.access m a)
    exact ⟨hrest.vcount.trans hfirst.vcount, hrest.keyinput.trans hfirst.keyinput,
      fun k hk => (hrest.dispstat k hk).trans (hfirst.dispstat k hk)⟩

end Console

end Handheld
