import Handheld.Bus.FlatRam
import Handheld.Proofs.Transition
import Handheld.Proofs.Word.Field

/-!
# Who changes the control bits

Below the top byte of the status word stand the mode, T, F, I and the reserved bits.  A step changes
one of them only by entering an exception, by a write to the status word that selects its field, by
the return from an exception, or, in case of T, by an exchange of the instruction set.  So once an
exception has masked interrupts, they stay masked until the program itself lets them in again.
-/

namespace Handheld

/-! ## 1. Bits under a mask -/

namespace Arm

/-- The mask of one field selector is one byte. -/
theorem testBit_byteMask {j : Word} (hj : j = 0 ∨ j = 1 ∨ j = 2 ∨ j = 3) (on : Bool) {i : Nat}
    (hi : i < 32) :
    (if on then 0xFF <<< (8 * j) else 0).toNat.testBit i = (on && decide (i / 8 = j.toNat)) := by
  have hbyte : ((0xFF : Word) <<< (8 * j)).toNat.testBit i = decide (i / 8 = j.toNat) := by
    revert i
    rcases hj with rfl | rfl | rfl | rfl <;> decide
  cases on with
  | false => simp
  | true => exact hbyte

/-- A bit is covered if the selector of its byte is set. -/
theorem testBit_statusMask (op : Word) {i : Nat} (hi : i < 32) :
    (statusMask op).toNat.testBit i = op.toNat.testBit (16 + i / 8) := by
  unfold statusMask
  dsimp only
  rw [UInt32.toNat_or, UInt32.toNat_or, UInt32.toNat_or, Nat.testBit_or, Nat.testBit_or,
    Nat.testBit_or, testBit_byteMask (by decide) _ hi, testBit_byteMask (by decide) _ hi,
    testBit_byteMask (by decide) _ hi, testBit_byteMask (by decide) _ hi,
    Word.bit_eq_testBit (by decide), Word.bit_eq_testBit (by decide),
    Word.bit_eq_testBit (by decide), Word.bit_eq_testBit (by decide)]
  -- One of the four bytes holds the bit.
  have hbyte : i / 8 = 0 ∨ i / 8 = 1 ∨ i / 8 = 2 ∨ i / 8 = 3 := by omega
  rcases hbyte with h | h | h | h <;> simp [h]

end Arm

namespace Cpu

variable {β : Type} [Bus β] {c c' : Cpu} {bus : β}

/-! ## 2. One step -/

/-- The next step writes the current status word, in a mode other than User and with the field
selected that holds bit `i`. -/
def WritesControl (c : Cpu) (bus : β) (i : Nat) : Prop :=
  c.mode? ≠ some .user ∧
    ∃ op, WritesStatus c bus false op ∧ op.toNat.testBit (16 + i / 8) = true

theorem cpsr_writeStatus_saved (c : Cpu) (mask v : Word) :
    (Arm.writeStatus c true mask v).cpsr = c.cpsr := by
  unfold Arm.writeStatus
  simp only [if_true]
  split
  · exact cpsr_setSpsr c _
  · rfl

/-- A write to the current status word spares the bits that its mask does not cover, and in User
mode all below the flags. -/
theorem testBit_writeStatus {i : Nat} (hi : i < 24) {mask : Word}
    (h : c.mode? = some .user ∨ mask.toNat.testBit i = false) (v : Word) :
    (Arm.writeStatus c false mask v).cpsr.bits.toNat.testBit i = c.cpsr.bits.toNat.testBit i := by
  have hflags : ∀ i < 24, Psr.flagsMask.toNat.testBit i = false := by decide
  show (c.cpsr.bits.overlay _ v).toNat.testBit i = _
  apply Word.testBit_overlay_of_clear (by omega)
  split
  next => rw [UInt32.toNat_and, Nat.testBit_and, hflags i hi, Bool.and_false]
  next huser => exact h.resolve_left huser

theorem Transition.control_bit (h : Transition c bus c') {i : Nat} (hi : i < 24) :
    c'.cpsr.bits.toNat.testBit i = c.cpsr.bits.toNat.testBit i ∨ (∃ e, entry? c bus = some e) ∨
      WritesControl c bus i ∨ ReturnsFromException c bus ∨ (i = 5 ∧ Exchanges c bus) := by
  cases h with
  | enter next h => exact .inr (.inl ⟨_, h⟩)
  | ordinary h =>
    -- Only the four condition flags are computed, and they lie above.
    have hcontrol : ∀ i < 24, (~~~Psr.conditionFlags).toNat.testBit i = true := by decide
    exact .inl (Word.testBit_eq_of_and_eq h.control (hcontrol i hi))
  | exchange thumb target h =>
    by_cases h5 : i = 5
    · exact .inr (.inr (.inr (.inr ⟨h5, h⟩)))
    · have hother : ∀ i < 24, i ≠ 5 → (~~~Psr.thumbState).toNat.testBit i = true := by decide
      have hkeep := Psr.and_assign_of_disjoint (m := Psr.thumbState) (n := ~~~Psr.thumbState)
        (by decide) c.cpsr thumb
      exact .inl (Word.testBit_eq_of_and_eq hkeep (hother i hi h5))
  | @writeStatus saved op next v hop =>
    cases saved with
    | true => exact .inl (by rw [cpsr_writeStatus_saved, cpsr_setReg])
    | false =>
      by_cases hspared : c.mode? = some .user ∨ op.toNat.testBit (16 + i / 8) = false
      · rw [← Arm.testBit_statusMask op (by omega)] at hspared
        exact .inl (testBit_writeStatus (c := c.setReg .pc next) hi hspared v)
      · obtain ⟨huser, hselected⟩ := not_or.1 hspared
        exact .inr (.inr (.inl ⟨huser, op, hop, Bool.not_eq_false _ ▸ hselected⟩))
  | restore target h => exact .inr (.inr (.inr (.inl h)))

theorem control_bit_step (c : Cpu) (bus : β) {i : Nat} (hi : i < 24) :
    (step c bus).2.1.cpsr.bits.toNat.testBit i = c.cpsr.bits.toNat.testBit i ∨
      (∃ e, entry? c bus = some e) ∨ WritesControl c bus i ∨ ReturnsFromException c bus ∨
      (i = 5 ∧ Exchanges c bus) :=
  (transition_perform c bus).control_bit hi

theorem ExecutesThumb.not_executesArm {op op' : Word} (h : ExecutesThumb c bus op) :
    ¬ ExecutesArm c bus op' := by
  intro h'
  have hthumb := h.thumb
  rw [h'.arm] at hthumb
  cases hthumb

/-- Of the 16-bit instructions, the software interrupt apart, only the exchange reaches a control
bit, and that is T. -/
theorem control_bit_step_thumb {op : Word} (hop : ExecutesThumb c bus op)
    (hswi : Thumb.decode op ≠ .softwareInterrupt) {i : Nat} (hi : i < 24) :
    (step c bus).2.1.cpsr.bits.toNat.testBit i = c.cpsr.bits.toNat.testBit i ∨
      (i = 5 ∧ ∃ target, Thumb.decode op = .branchExchange target) := by
  rcases control_bit_step c bus hi with hsame | ⟨e, hentry⟩ | ⟨-, op', ⟨harm, -⟩, -⟩ |
    ⟨-, op', -, -, -, harm, -⟩ | ⟨h5, ⟨op', -, harm, -⟩ | ⟨op', target, hop', hexchange⟩⟩
  · exact .inl hsame
  · rw [hop.entry?_eq, if_neg hswi] at hentry
    cases hentry
  -- Status words are written and exchanged for saved ones by 32-bit instructions.
  · exact absurd harm hop.not_executesArm
  · exact absurd harm hop.not_executesArm
  · exact absurd harm hop.not_executesArm
  · have hsame : op' = op := hop'.fetched.symm.trans hop.fetched
    rw [hsame] at hexchange
    exact .inr ⟨h5, target, hexchange⟩

/-! ## 3. Interrupts stay masked -/

/-- The next step lets interrupts in again: by a write to the status word or by a return. -/
structure Unmasks (c : Cpu) (bus : β) : Prop where
  masked : c.flag Psr.irqDisable = true
  unmasked : (step c bus).2.1.flag Psr.irqDisable = false
  deliberate : WritesControl c bus 7 ∨ ReturnsFromException c bus

theorem flag_irqDisable_eq (c : Cpu) :
    c.flag Psr.irqDisable = c.cpsr.bits.toNat.testBit 7 :=
  Word.and_bne_zero c.cpsr.bits (by decide)

theorem masked_step (h : c.flag Psr.irqDisable = true) :
    (step c bus).2.1.flag Psr.irqDisable = true ∨ Unmasks c bus := by
  cases hafter : (step c bus).2.1.flag Psr.irqDisable with
  | true => exact .inl rfl
  | false =>
    right
    refine ⟨h, hafter, ?_⟩
    rcases control_bit_step c bus (show 7 < 24 by decide) with
      hsame | ⟨e, hentry⟩ | hwrite | hreturn | ⟨h5, -⟩
    · rw [← flag_irqDisable_eq, ← flag_irqDisable_eq, hafter, h] at hsame
      cases hsame
    · -- An exception masks them itself.
      rw [(atHandler_step hentry).masked] at hafter
      cases hafter
    · exact .inl hwrite
    · exact .inr hreturn
    · exact absurd h5 (by decide)

/-- A run among devices: between two steps anything may happen to the bus and its interrupt line. -/
structure Execution (β : Type) [Bus β] where
  state : Nat → Cpu
  bus : Nat → β
  next : ∀ n, state (n + 1) = (step (state n) (bus n)).2.1

namespace Execution

/-- The run on a bus that is left alone. -/
def ofSteps (c : Cpu) (bus : β) : Execution β where
  state n := (steps n c bus).2.1
  bus n := (steps n c bus).2.2
  next n := congrArg Prod.fst (steps_succ_snd_last n c bus)

/-- An exception has just been entered: from outside, or by the step before. -/
def Entered (x : Execution β) (m : Nat) : Prop :=
  (∃ d e, x.state m = enter d e) ∨ ∃ k e, m = k + 1 ∧ entry? (x.state k) (x.bus k) = some e

variable {x : Execution β} {m n : Nat}

theorem Entered.masked (h : x.Entered m) : (x.state m).flag Psr.irqDisable = true := by
  rcases h with ⟨d, e, hd⟩ | ⟨k, e, rfl, hentry⟩
  · rw [hd]
    exact flag_irqDisable_enter d e
  · rw [x.next]
    exact (atHandler_step hentry).masked

/-- Masked interrupts stay masked up to a step that lets them in. -/
theorem masked_of_masked (h : (x.state m).flag Psr.irqDisable = true) (hmn : m ≤ n) :
    (x.state n).flag Psr.irqDisable = true ∨
      ∃ k, m ≤ k ∧ k < n ∧ Unmasks (x.state k) (x.bus k) := by
  induction n, hmn using Nat.le_induction with
  | base => exact .inl h
  | succ n hmn ih =>
    rcases ih with hmasked | ⟨k, hmk, hkn, hk⟩
    · rw [x.next]
      exact (masked_step hmasked).imp_right fun hn => ⟨n, hmn, Nat.lt_succ_self n, hn⟩
    · exact .inr ⟨k, hmk, Nat.lt_succ_of_lt hkn, hk⟩

end Execution

/-- What changes a control bit.  In one step: entering an exception, a write to the status word out
of User mode that selects the bit's field, the return from an exception, and for T the exchange of
the instruction set; of the 16-bit instructions other than the software interrupt only the last.  In
a run: no interrupt is taken after an exception before a write or a return has let it in. -/
theorem control_bits_changed_by (β : Type) [Bus β] :
    (∀ (c : Cpu) (bus : β), ∀ i < 24,
      (step c bus).2.1.cpsr.bits.toNat.testBit i = c.cpsr.bits.toNat.testBit i ∨
        (∃ e, entry? c bus = some e) ∨ WritesControl c bus i ∨ ReturnsFromException c bus ∨
        (i = 5 ∧ Exchanges c bus)) ∧
    (∀ (c : Cpu) (bus : β) (op : Word), ExecutesThumb c bus op →
      Thumb.decode op ≠ .softwareInterrupt → ∀ i < 24,
        (step c bus).2.1.cpsr.bits.toNat.testBit i = c.cpsr.bits.toNat.testBit i ∨
          (i = 5 ∧ ∃ target, Thumb.decode op = .branchExchange target)) ∧
    ∀ (x : Execution β) (m n : Nat), x.Entered m → m ≤ n →
      takesIrq (x.state n) (x.bus n) = true →
      ∃ k, m ≤ k ∧ k < n ∧ Unmasks (x.state k) (x.bus k) := by
  refine ⟨fun c bus i hi => control_bit_step c bus hi,
    fun c bus op hop hswi i hi => control_bit_step_thumb hop hswi hi,
    fun x m n hentered hmn hirq => ?_⟩
  refine (Execution.masked_of_masked hentered.masked hmn).resolve_left fun hmasked => ?_
  unfold takesIrq at hirq
  rw [hmasked] at hirq
  cases hirq

/-- `BX LR` leaves 16-bit state and the mode stays.  With the line held high, the handler is entered
with interrupts masked, its `MSR CPSR_c, #0x12` lets them in, and it is entered again. -/
theorem control_bits_changed_by_msr :
    let exchange : FlatRam := ⟨⟨#[0x70, 0x47]⟩, false, by decide⟩
    let thumb := initial.setThumb true
    let ram : FlatRam := ⟨⟨Array.replicate 24 0 ++ #[0x12, 0xF0, 0x21, 0xE3]⟩, true, by decide⟩
    let x := Execution.ofSteps initial ram
    (step thumb exchange).2.1.cpsr.thumb = false ∧
      (step thumb exchange).2.1.cpsr.bits.toNat.testBit 4 = true ∧
      takesIrq (x.state 0) (x.bus 0) = true ∧ takesIrq (x.state 1) (x.bus 1) = false ∧
      takesIrq (x.state 2) (x.bus 2) = true ∧ WritesControl (x.state 1) (x.bus 1) 7 := by
  intro exchange thumb ram x
  obtain ⟨-, hthumb, hrun⟩ := control_bits_changed_by FlatRam
  have hmode := (hthumb thumb exchange 0x4770 ⟨by decide, by decide, by decide⟩ (by decide) 4
    (by decide)).resolve_right fun ⟨h5, _⟩ => absurd h5 (by decide)
  have hirq : takesIrq (x.state 2) (x.bus 2) = true := by decide
  have hentered : x.Entered 1 := .inr ⟨0, .irq, rfl, by decide⟩
  obtain ⟨k, hlow, hhigh, hk⟩ := hrun x 1 2 hentered (by decide) hirq
  obtain rfl : k = 1 := by omega
  refine ⟨by decide, hmode.trans (by decide), by decide, by decide, hirq,
    hk.deliberate.resolve_right ?_⟩
  -- What is fetched is no data processing.
  rintro ⟨-, op, alu, left, right, hop, hdecode, -⟩
  have hword : (Bus.read32 (x.bus 1) ((x.state 1).pc &&& ~~~3)).1 = 0xE321F012 := by decide
  have hmsr : Arm.decode 0xE321F012 = .writeStatus false 0xFF (.constant 0x012) := by decide
  rw [hop.fetched.symm.trans hword, hmsr] at hdecode
  cases hdecode

end Cpu

end Handheld
