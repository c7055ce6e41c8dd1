import Handheld.Bus.FlatRam
import Handheld.Bus.Recorded
import Handheld.Proofs.Entry
import Handheld.Proofs.UserMode.Instruction

/-!
# User mode is closed

A program in User mode cannot tell what is privileged, cannot change it, and leaves the mode by
entering an exception only.
-/

namespace Handheld.Cpu

variable {β : Type} [Bus β] {c : Cpu} {bus : β}

/-! ## 1. Steps -/

theorem entry?_withBanks (saved : Vector Word 5) (banked : Vector StackLink 6) :
    entry? (c.withBanks saved banked) bus = entry? c bus := rfl

/-- What is privileged passes through a step unread and unwritten. -/
theorem step_withBanks (huser : c.mode? = some .user) (h : entry? c bus = none)
    (saved : Vector Word 5) (banked : Vector StackLink 6) :
    step (c.withBanks saved banked) bus =
      ((step c bus).1, (step c bus).2.1.withBanks saved banked, (step c bus).2.2) := by
  have hperform : perform (c.withBanks saved banked) bus =
      ((perform c bus).1, (perform c bus).2.1.withBanks saved banked, (perform c bus).2.2) := by
    -- Both sides fetch the same opcode, since nothing privileged decides what is fetched.
    rcases quiet_cases h with ⟨op, hop, hi⟩ | ⟨op, hop, hi⟩ | hskip
    · have hop' : ExecutesThumb (c.withBanks saved banked) bus op := ⟨hop.1, hop.2, hop.3⟩
      rw [hop.perform_eq, hop'.perform_eq]
      exact congrArg (Prod.mk 1)
        (Thumb.execute_withBanks (c := c.setReg .pc ((c.pc &&& ~~~1) + 2)) hi _ _)
    · have hop' : ExecutesArm (c.withBanks saved banked) bus op := ⟨hop.1, hop.2, hop.3, hop.4⟩
      rw [hop.perform_eq, hop'.perform_eq]
      exact congrArg (Prod.mk (Arm.decode op).cost)
        (Arm.execute_withBanks_of_user (c := c.setReg .pc ((c.pc &&& ~~~3) + 4)) hi huser _ _)
    · have hskip' : SkipsArm (c.withBanks saved banked) bus := ⟨hskip.1, hskip.2, hskip.3⟩
      rw [hskip.perform_eq, hskip'.perform_eq]
      rfl
  unfold step
  rw [hperform]
  rfl

/-! ## 2. The control bits -/

/-- The bits of the status word that User mode cannot change: all but T and the top byte. -/
def controlMask : Word := 0x00FFFFDF

theorem Quiet.controlMask_eq {c c' : Cpu} (h : c.Quiet c') (huser : c.mode? = some .user) :
    c'.cpsr.bits &&& controlMask = c.cpsr.bits &&& controlMask := by
  cases h with
  | ordinary h => exact Psr.and_eq_of_control_eq h.control (by decide)
  | exchange thumb target => exact Psr.and_assign_of_disjoint (by decide) _ _
  | writeStatus ofSaved mask v =>
    rw [writeStatus_of_user huser]
    cases ofSaved with
    | true => rfl
    | false => exact overlay_flags_and (by decide) c.cpsr.bits mask v
  | restore target => rw [restoreCpsr_setReg_of_user huser, cpsr_setReg]

theorem controlMask_step (huser : c.mode? = some .user) (h : entry? c bus = none) :
    (step c bus).2.1.cpsr.bits &&& controlMask = c.cpsr.bits &&& controlMask := by
  obtain ⟨next, hquiet⟩ := quiet_perform h
  exact hquiet.controlMask_eq huser

theorem mode?_of_controlMask_eq {c d : Cpu}
    (h : d.cpsr.bits &&& controlMask = c.cpsr.bits &&& controlMask) : d.mode? = c.mode? := by
  -- The mode field is among those bits.
  apply Psr.mode?_eq_of_modeBits_eq
  show d.cpsr.bits &&& 0x1F = c.cpsr.bits &&& 0x1F
  have hmask : controlMask &&& 0x1F = 0x1F := by decide
  rw [← hmask, ← UInt32.and_assoc, ← UInt32.and_assoc, h]

/-! ## 3. Runs -/

/-- None of the first `n` steps enters an exception. -/
def Undisturbed (n : Nat) (c : Cpu) (bus : β) : Prop :=
  ∀ k < n, entry? (steps k c bus).2.1 (steps k c bus).2.2 = none

instance (n : Nat) (c : Cpu) (bus : β) : Decidable (Undisturbed n c bus) := by
  unfold Undisturbed
  infer_instance

theorem Undisturbed.mono {m n : Nat} (h : Undisturbed n c bus) (hmn : m ≤ n) :
    Undisturbed m c bus := fun k hk => h k (Nat.lt_of_lt_of_le hk hmn)

theorem Undisturbed.tail {n : Nat} (h : Undisturbed (n + 1) c bus) :
    Undisturbed n (step c bus).2.1 (step c bus).2.2 := by
  intro k hk
  have hnext := h (k + 1) (Nat.succ_lt_succ hk)
  rw [steps_succ_snd] at hnext
  exact hnext

theorem controlMask_steps {n : Nat} (huser : c.mode? = some .user) (h : Undisturbed n c bus) :
    (steps n c bus).2.1.cpsr.bits &&& controlMask = c.cpsr.bits &&& controlMask := by
  induction n with
  | zero => rfl
  | succ n ih =>
    have hkeep := ih (h.mono (Nat.le_succ n))
    have huser' := (mode?_of_controlMask_eq hkeep).trans huser
    rw [steps_succ_snd_last, controlMask_step huser' (h n (Nat.lt_succ_self n)), hkeep]

theorem mode?_steps {n : Nat} (huser : c.mode? = some .user) (h : Undisturbed n c bus) :
    (steps n c bus).2.1.mode? = some .user :=
  (mode?_of_controlMask_eq (controlMask_steps huser h)).trans huser

/-- What is privileged passes through a run as through a step. -/
theorem steps_withBanks {n : Nat} (huser : c.mode? = some .user) (h : Undisturbed n c bus)
    (saved : Vector Word 5) (banked : Vector StackLink 6) :
    steps n (c.withBanks saved banked) bus =
      ((steps n c bus).1, (steps n c bus).2.1.withBanks saved banked, (steps n c bus).2.2) := by
  unfold steps
  -- The first step is taken off, so the total and the state vary.
  generalize (0 : Ticks) = total
  induction n generalizing total c bus with
  | zero => rfl
  | succ n ih =>
    have hquiet : entry? c bus = none := h 0 (Nat.succ_pos n)
    have huser' := (mode?_of_controlMask_eq (controlMask_step huser hquiet)).trans huser
    have hstep := step_withBanks huser hquiet saved banked
    unfold stepsFrom
    rw [hstep]
    exact ih huser' h.tail (total + (step c bus).1)

theorem saved_steps {n : Nat} (huser : c.mode? = some .user) (h : Undisturbed n c bus) :
    (steps n c bus).2.1.saved = c.saved :=
  -- Replacing the saved words by themselves says that they are still there afterwards.
  congrArg (fun r => r.2.1.saved) (steps_withBanks huser h c.saved c.banked)

theorem banked_steps {n : Nat} (huser : c.mode? = some .user) (h : Undisturbed n c bus) :
    (steps n c bus).2.1.banked = c.banked :=
  congrArg (fun r => r.2.1.banked) (steps_withBanks huser h c.saved c.banked)

/-! ## 4. Two runs -/

/-- What a program in User mode works with: its registers, the status word, the slot of its own bank
and the cycle counter. -/
structure UserView where
  live : Vector Word 16
  cpsr : Psr
  slot : StackLink
  cycles : Ticks
deriving DecidableEq

def userView (c : Cpu) : UserView := ⟨c.live, c.cpsr, c.banked[0], c.cycles⟩

/-- States with one view differ in what is privileged only. -/
theorem eq_withBanks_of_userView {c d : Cpu} (h : d.userView = c.userView) :
    d = c.withBanks d.saved d.banked := by
  have hlive : d.live = c.live := congrArg UserView.live h
  have hcpsr : d.cpsr = c.cpsr := congrArg UserView.cpsr h
  have hcycles : d.cycles = c.cycles := congrArg UserView.cycles h
  unfold withBanks
  rw [← hlive, ← hcpsr, ← hcycles]

/-- What holds of two states, reached from `c` and `d` at the totals and on the buses given, while
neither program has left User mode. -/
structure Indistinguishable (c d : Cpu) (r r' : Ticks × Cpu × β) : Prop where
  ticks : r'.1 = r.1
  bus : r'.2.2 = r.2.2
  view : r'.2.1.userView = r.2.1.userView
  user : r.2.1.mode? = some .user
  control : r.2.1.cpsr.bits &&& controlMask = c.cpsr.bits &&& controlMask
  saved : r.2.1.saved = c.saved ∧ r'.2.1.saved = d.saved
  banked : r.2.1.banked = c.banked ∧ r'.2.1.banked = d.banked

/-- A run from a state with the same view is the same run with other privileged state. -/
theorem steps_of_userView {d : Cpu} {n : Nat} (huser : c.mode? = some .user)
    (hview : d.userView = c.userView) (h : Undisturbed n c bus) :
    steps n d bus =
      ((steps n c bus).1, (steps n c bus).2.1.withBanks d.saved d.banked, (steps n c bus).2.2) := by
  have hruns := steps_withBanks huser h d.saved d.banked
  rw [← eq_withBanks_of_userView hview] at hruns
  exact hruns

theorem indistinguishable_steps {d : Cpu} {n : Nat} (huser : c.mode? = some .user)
    (hview : d.userView = c.userView) (h : Undisturbed n c bus) :
    Indistinguishable c d (steps n c bus) (steps n d bus) := by
  have hslot : d.banked[0] = c.banked[0] := congrArg UserView.slot hview
  rw [steps_of_userView huser hview h]
  exact {
    ticks := rfl
    bus := rfl
    view := by
      unfold userView
      rw [banked_steps huser h, ← hslot]
      rfl
    user := mode?_steps huser h
    control := controlMask_steps huser h
    saved := ⟨saved_steps huser h, rfl⟩
    banked := ⟨banked_steps huser h, rfl⟩ }

/-- Two programs in User mode that only privileged state tells apart, on recorded buses.  Up to the
first exception they cost the same, access memory in the same way and change nothing beyond their
view; and an exception, when it comes, comes to both and starts its handler. -/
theorem userMode_isolated {c d : Cpu} {bus : β} {n : Nat} (huser : c.mode? = some .user)
    (hview : d.userView = c.userView) (h : Undisturbed n c (Recorded.start bus)) :
    let run (k : Nat) := steps k c (Recorded.start bus)
    let run' (k : Nat) := steps k d (Recorded.start bus)
    (∀ k ≤ n, Indistinguishable c d (run k) (run' k)) ∧
    (∀ k < n, (step (run' k).2.1 (run' k).2.2).1 = (step (run k).2.1 (run k).2.2).1) ∧
    entry? (run' n).2.1 (run' n).2.2 = entry? (run n).2.1 (run n).2.2 ∧
    ∀ e, entry? (run n).2.1 (run n).2.2 = some e →
      AtHandler e (run (n + 1)).2.1 ∧ AtHandler e (run' (n + 1)).2.1 := by
  intro run run'
  have hruns (k : Nat) (hk : k ≤ n) :
      run' k = ((run k).1, (run k).2.1.withBanks d.saved d.banked, (run k).2.2) :=
    steps_of_userView huser hview (h.mono hk)
  have hentry : entry? (run' n).2.1 (run' n).2.2 = entry? (run n).2.1 (run n).2.2 := by
    rw [hruns n (Nat.le_refl n)]
    exact entry?_withBanks d.saved d.banked
  refine ⟨fun k hk => indistinguishable_steps huser hview (h.mono hk), fun k hk => ?_, hentry,
    fun e he => ⟨?_, ?_⟩⟩
  · have huser' : (run k).2.1.mode? = some .user := mode?_steps huser (h.mono (Nat.le_of_lt hk))
    rw [hruns k (Nat.le_of_lt hk), step_withBanks huser' (h k hk)]
  · show AtHandler e (steps (n + 1) c _).2.1
    rw [steps_succ_snd_last]
    exact atHandler_step he
  · show AtHandler e (steps (n + 1) d _).2.1
    rw [steps_succ_snd_last]
    exact atHandler_step (hentry.trans he)

/-- `MSR CPSR_fc, #0x1F`, `MRS r0, SPSR` and `SWI`, with two values of a saved status word behind:
the mode stays, `r0` reads the current status word both times, and both end up at one handler. -/
theorem userMode_isolated_msr :
    let ram : FlatRam :=
      ⟨⟨#[0x1F, 0xF0, 0x29, 0xE3, 0x00, 0x00, 0x4F, 0xE1, 0x00, 0x00, 0x00, 0xEF]⟩, false,
        by decide⟩
    let c := { initial with cpsr := ⟨Mode.user.bits⟩ }
    let d := { c with saved := Vector.replicate 5 0xDEADBEEF }
    let run (c : Cpu) (n : Nat) := (steps n c (Recorded.start ram)).2.1
    Undisturbed 2 c (Recorded.start ram) ∧ (run c 2).reg 0 = 0x10 ∧
      (run d 2).userView = (run c 2).userView ∧ (run d 2).mode? = some .user ∧
      (run d 3).pc = 0x08 := by
  intro ram c d run
  have hquiet : Undisturbed 2 c (Recorded.start ram) := by decide
  have huser : c.mode? = some .user := by decide
  have hview : d.userView = c.userView := rfl
  obtain ⟨hruns, -, -, hentry⟩ := userMode_isolated huser hview hquiet
  have hlast := hruns 2 (Nat.le_refl 2)
  have hcpsr : (run d 2).cpsr = (run c 2).cpsr := congrArg UserView.cpsr hlast.view
  have hmode : (run d 2).mode? = some .user := by
    show (run d 2).cpsr.mode? = some .user
    rw [hcpsr]
    exact hlast.user
  have hhandler : AtHandler .softwareInterrupt (run d 3) := (hentry _ (by decide)).2
  exact ⟨hquiet, by decide, hlast.view, hmode, hhandler.pc⟩

end Handheld.Cpu
