import Handheld.Bus.FlatRam
import Handheld.Bus.Recorded
import Handheld.Observe.Cpu
import Handheld.Proofs.Isolation
import Handheld.Proofs.Unbanked

/-!
# The stale slot

While a bank is live its stored pair is out of date.  No operation reads it: a mode switch to
another bank overwrites it, and a switch within the bank leaves the live registers where they are.
So a state with another pair in that slot goes through the same operations in the same way, and when
the bank is left the difference is gone.
-/

namespace Handheld

namespace Cpu

/-! ## 1. Another pair in the slot -/

/-- The states are equal but for the stored pair of the bank that is live in both. -/
structure SameButSlot (c d : Cpu) : Prop where
  live : d.live = c.live
  cpsr : d.cpsr = c.cpsr
  saved : d.saved = c.saved
  cycles : d.cycles = c.cycles
  banked : ∀ b ≠ c.cpsr.bank, d.banked.get b = c.banked.get b

theorem SameButSlot.refl (c : Cpu) : SameButSlot c c := ⟨rfl, rfl, rfl, rfl, fun _ _ => rfl⟩

/-- The same state with another stored pair. -/
def withSlot (c : Cpu) (b : Bank) (p : StackLink) : Cpu :=
  { c with banked := c.banked.setIfInBounds b.val p }

/-- What is left of another stored pair in the state after an operation: nothing, unless the bank is
still live. -/
def withStale (c : Cpu) (b : Bank) (p : StackLink) : Cpu :=
  if c.cpsr.bank = b then c.withSlot b p else c

variable {c d : Cpu} {b : Bank} {p : StackLink}

@[simp] theorem cpsr_withSlot : (c.withSlot b p).cpsr = c.cpsr := rfl

theorem withStale_of_live (h : c.cpsr.bank = b) : c.withStale b p = c.withSlot b p := if_pos h

theorem withStale_of_ne (h : c.cpsr.bank ≠ b) : c.withStale b p = c := if_neg h

theorem sameButSlot_withSlot (c : Cpu) (p : StackLink) :
    SameButSlot c (c.withSlot c.cpsr.bank p) where
  live := rfl
  cpsr := rfl
  saved := rfl
  cycles := rfl
  banked b hb := by
    have hne : c.cpsr.bank.val ≠ b.val := fun heq => hb (Fin.ext heq.symm)
    exact Vector.getElem_setIfInBounds_ne b.isLt hne

theorem SameButSlot.eq_withSlot (h : SameButSlot c d) :
    d = c.withSlot c.cpsr.bank (d.banked.get c.cpsr.bank) := by
  have hbanked :
      d.banked = c.banked.setIfInBounds c.cpsr.bank.val (d.banked.get c.cpsr.bank) := by
    -- Slot by slot: the stale one is written over, the others agree.
    ext1 i hi
    by_cases heq : c.cpsr.bank.val = i
    · subst heq
      rw [Vector.getElem_setIfInBounds_self]
      rfl
    · rw [Vector.getElem_setIfInBounds_ne hi heq]
      exact h.banked ⟨i, hi⟩ fun hb => heq (congrArg Fin.val hb).symm
  obtain ⟨live, cpsr, saved, banked, cycles⟩ := d
  obtain ⟨rfl, rfl, rfl, rfl, -⟩ := h
  unfold withSlot
  rw [← hbanked]

theorem pair_withSlot (hb : c.cpsr.bank = b) (b' : Bank) :
    (c.withSlot b p).pair b' = c.pair b' := by
  subst hb
  -- The pair of the live bank is read from the registers, any other from a slot that is the same.
  by_cases h : b' = c.cpsr.bank
  · subst h
    unfold pair
    rw [cpsr_withSlot, if_pos rfl, if_pos rfl]
    rfl
  · unfold pair
    rw [cpsr_withSlot, if_neg h, if_neg h]
    exact (sameButSlot_withSlot c p).banked b' h

/-! ## 2. Operations on the registers -/

section Slots

variable {α : Type} {n i j : Nat} (xs : Vector α n) (x y : α)

theorem set_setIfInBounds_self (hi : i < n) :
    (xs.setIfInBounds i x).set i y hi = xs.set i y hi := by
  ext k hk
  simp only [Vector.getElem_set, Vector.getElem_setIfInBounds]
  split <;> rfl

theorem set_setIfInBounds_of_ne (hj : j < n) (h : i ≠ j) :
    (xs.setIfInBounds i x).set j y hj = (xs.set j y hj).setIfInBounds i x := by
  ext k hk
  simp only [Vector.getElem_set, Vector.getElem_setIfInBounds]
  -- No place is both.
  split
  next heq => rw [if_neg fun hik => h (hik.trans heq.symm)]
  next => rfl

end Slots

theorem activate_withSlot (hb : c.cpsr.bank = b) (b' : Bank) :
    (c.withSlot b p).activate b' = if b' = b then c.withSlot b p else c.activate b' := by
  subst hb
  by_cases h : b' = c.cpsr.bank
  · rw [if_pos h]
    exact activate_live (c := c.withSlot _ p) h
  · have hne : c.cpsr.bank.val ≠ b'.val := fun heq => h (Fin.ext heq.symm)
    have hplain : c.activate b' = _ := if_neg h
    have hstale : (c.withSlot c.cpsr.bank p).activate b' = _ := if_neg h
    rw [if_neg h, hplain, hstale]
    -- What becomes live is another pair, and the live pair overwrites the slot.
    simp [withSlot, setReg, reg, hne, set_setIfInBounds_self]

-- Both ways to change the mode make a bank live and set a status word that names it.
theorem activate_status_withSlot (hb : c.cpsr.bank = b) {q : Psr} {b' : Bank} (hq : q.bank = b') :
    { (c.withSlot b p).activate b' with cpsr := q } =
      withStale { c.activate b' with cpsr := q } b p := by
  rw [activate_withSlot hb]
  by_cases h : b' = b
  · rw [if_pos h, activate_live (h.trans hb.symm), withStale_of_live (hq.trans h)]
    rfl
  · rw [if_neg h, withStale_of_ne fun hlive => h (hq.symm.trans hlive)]

theorem switchMode_withSlot (hb : c.cpsr.bank = b) (m : Mode) :
    (c.withSlot b p).switchMode m = (c.switchMode m).withStale b p := by
  rw [switchMode_eq, switchMode_eq]
  exact activate_status_withSlot hb (Psr.bank_withModeBits c.cpsr m)

theorem writeCpsr_withSlot (hb : c.cpsr.bank = b) (v : Word) :
    (c.withSlot b p).writeCpsr v = (c.writeCpsr v).withStale b p :=
  activate_status_withSlot hb rfl

theorem restoreCpsr_withSlot (hb : c.cpsr.bank = b) :
    (c.withSlot b p).restoreCpsr = c.restoreCpsr.withStale b p := by
  have hspsr : (c.withSlot b p).spsr? = c.spsr? := rfl
  unfold restoreCpsr
  rw [hspsr]
  split
  · exact writeCpsr_withSlot hb _
  · exact (withStale_of_live hb).symm

theorem setSpsr_withSlot (c : Cpu) (v : Word) :
    (c.withSlot b p).setSpsr v = (c.setSpsr v).withSlot b p := by
  unfold setSpsr
  rw [cpsr_withSlot]
  split <;> rfl

theorem setBankedSp_withSlot (hb : c.cpsr.bank = b) (m : Mode) (v : Word) :
    (c.withSlot b p).setBankedSp m v = (c.setBankedSp m v).withSlot b p := by
  subst hb
  unfold setBankedSp
  rw [cpsr_withSlot]
  by_cases h : m.bank = c.cpsr.bank
  · rw [if_pos h, if_pos h]
    rfl
  · -- The bank that is written has a slot of its own, so the two writes pass each other.
    have hne : c.cpsr.bank.val ≠ m.bank.val := fun heq => h (Fin.ext heq.symm)
    rw [if_neg h, if_neg h]
    simp [withSlot, hne, set_setIfInBounds_of_ne]

theorem bank_setBankedSp (c : Cpu) (m : Mode) (v : Word) :
    (c.setBankedSp m v).cpsr.bank = c.cpsr.bank := by
  unfold setBankedSp
  split <;> rfl

theorem onCpu_withSlot (hb : c.cpsr.bank = b) (op : RegisterOp) :
    op.onCpu (c.withSlot b p) = (op.onCpu c).withStale b p := by
  cases op with
  | switchMode m => exact switchMode_withSlot hb m
  | writeCpsr v => exact writeCpsr_withSlot hb v
  | restoreCpsr => exact restoreCpsr_withSlot hb
  -- The others leave the bank live, and its slot with it.
  | setSpsr v =>
    have hlive : (c.setSpsr v).cpsr.bank = b := by rw [cpsr_setSpsr, hb]
    exact (setSpsr_withSlot c v).trans (withStale_of_live hlive).symm
  | setBankedSp m v =>
    have hlive : (c.setBankedSp m v).cpsr.bank = b := by rw [bank_setBankedSp, hb]
    exact (setBankedSp_withSlot hb m v).trans (withStale_of_live hlive).symm
  | setReg r v => exact (withStale_of_live (c := c.setReg r v) hb).symm

theorem enter_withSlot (hb : c.cpsr.bank = b) (e : Exception) :
    (c.withSlot b p).enter e = (c.enter e).withStale b p := by
  have hswitch := bank_switchMode c e.mode
  have henter := bank_enter c e
  unfold enter at henter ⊢
  dsimp only at henter ⊢
  rw [switchMode_withSlot hb]
  -- The switch decides whether the slot is still there, and the rest of the entry is blind to it.
  by_cases h : e.mode.bank = b
  · rw [withStale_of_live (hswitch.trans h), setSpsr_withSlot, withStale_of_live (henter.trans h)]
    rfl
  · rw [withStale_of_ne (hswitch.trans_ne h), withStale_of_ne (henter.trans_ne h)]
    rfl

/-! ## 3. Instructions -/

theorem KeepsControl.withBanks_eq {c' : Cpu} (h : c.KeepsControl c') (hb : c.cpsr.bank = b) :
    c'.withBanks c.saved (c.withSlot b p).banked = c'.withStale b p := by
  rw [withStale_of_live (h.bank_eq.trans hb)]
  unfold withBanks withSlot
  rw [h.banked, ← h.saved]

theorem exchange_withSlot (hb : c.cpsr.bank = b) (thumb : Bool) (target : Word) :
    ((c.withSlot b p).setThumb thumb).setReg .pc target =
      ((c.setThumb thumb).setReg .pc target).withStale b p := by
  have hlive : ((c.setThumb thumb).setReg .pc target).cpsr.bank = b :=
    (Psr.bank_assign (by decide) c.cpsr thumb).trans hb
  rw [withStale_of_live hlive]
  rfl

theorem writeStatus_withSlot (hb : c.cpsr.bank = b) (saved : Bool) (mask v : Word) :
    Arm.writeStatus (c.withSlot b p) saved mask v =
      (Arm.writeStatus c saved mask v).withStale b p := by
  have hspsr : (c.withSlot b p).spsr? = c.spsr? := rfl
  unfold Arm.writeStatus
  cases saved with
  | false => exact writeCpsr_withSlot hb _
  | true =>
    simp only [if_true]
    rw [hspsr]
    split
    · rw [setSpsr_withSlot, withStale_of_live (by rw [cpsr_setSpsr, hb])]
    · exact (withStale_of_live hb).symm

variable {β : Type} [Bus β]

theorem execute_arm_withSlot (hb : c.cpsr.bank = b) (i : Arm.Instruction) (bus : β)
    (address : Word) :
    Arm.execute i (c.withSlot b p) bus address =
      ((Arm.execute i c bus address).1.withStale b p, (Arm.execute i c bus address).2) := by
  by_cases hordinary : i.isOrdinary = true
  · -- Another pair in the slot is a case of other pairs in all of them.
    have hbanks : Arm.execute i (c.withBanks c.saved (c.withSlot b p).banked) bus address = _ :=
      Arm.execute_withBanks hordinary rfl bus address
    rw [(Arm.keepsControl_execute hordinary c bus address).withBanks_eq hb] at hbanks
    exact hbanks
  · rcases Arm.Instruction.of_not_isOrdinary hordinary with
      ⟨target, rfl⟩ | rfl | ⟨saved, mask, v, rfl⟩ | ⟨op, left, right, hop, rfl⟩
    · exact congrArg (·, bus) (exchange_withSlot hb _ _)
    · exact congrArg (·, bus) (enter_withSlot hb .softwareInterrupt)
    · have hvalue : v.value (c.withSlot b p) address = v.value c address := by cases v <;> rfl
      unfold Arm.execute
      dsimp only
      rw [hvalue, writeStatus_withSlot hb]
    · -- The operands are live registers, and the status word comes back as by a host.
      have hvalue (pc : Word) : right.value (c.withSlot b p) pc = right.value c pc := by
        cases right <;> rfl
      unfold Arm.execute
      dsimp only
      rw [Arm.dataProcessing_return hop, Arm.dataProcessing_return hop, hvalue]
      exact congrArg (·, bus) (restoreCpsr_withSlot (c := c.setReg .pc _) hb)

theorem execute_thumb_withSlot (hb : c.cpsr.bank = b) (i : Thumb.Instruction) (bus : β)
    (address : Word) :
    Thumb.execute i (c.withSlot b p) bus address =
      ((Thumb.execute i c bus address).1.withStale b p, (Thumb.execute i c bus address).2) := by
  by_cases hordinary : i.isOrdinary = true
  · have hswi : i ≠ .softwareInterrupt := by
      rintro rfl
      cases hordinary
    have hbanks : Thumb.execute i (c.withBanks c.saved (c.withSlot b p).banked) bus address = _ :=
      Thumb.execute_withBanks hswi bus address
    rw [(Thumb.keepsControl_execute hordinary c bus address).withBanks_eq hb] at hbanks
    exact hbanks
  · rcases Thumb.Instruction.of_not_isOrdinary hordinary with ⟨target, rfl⟩ | rfl
    · exact congrArg (·, bus) (exchange_withSlot hb _ _)
    · exact congrArg (·, bus) (enter_withSlot hb .softwareInterrupt)

/-! ## 4. Steps -/

theorem perform_withSlot (hb : c.cpsr.bank = b) (bus : β) :
    perform (c.withSlot b p) bus =
      ((perform c bus).1, (perform c bus).2.1.withStale b p, (perform c bus).2.2) := by
  -- Nothing in the slot decides what is fetched.
  rcases step_forms c bus with hirq | ⟨op, hop⟩ | ⟨op, hop⟩ | hskip
  · have hirq' : takesIrq (c.withSlot b p) bus = true := hirq
    rw [perform_irq hirq, perform_irq hirq', enter_withSlot hb]
  · have hop' : ExecutesThumb (c.withSlot b p) bus op := ⟨hop.1, hop.2, hop.3⟩
    rw [hop.perform_eq, hop'.perform_eq]
    exact congrArg (Prod.mk 1) (execute_thumb_withSlot (c := c.setReg .pc _) hb _ _ _)
  · have hop' : ExecutesArm (c.withSlot b p) bus op := ⟨hop.1, hop.2, hop.3, hop.4⟩
    rw [hop.perform_eq, hop'.perform_eq]
    exact congrArg (Prod.mk _) (execute_arm_withSlot (c := c.setReg .pc _) hb _ _ _)
  · have hskip' : SkipsArm (c.withSlot b p) bus := ⟨hskip.1, hskip.2, hskip.3⟩
    rw [hskip.perform_eq, hskip'.perform_eq, withStale_of_live (c := c.setReg .pc _) hb]
    rfl

theorem step_withSlot (hb : c.cpsr.bank = b) (bus : β) :
    step (c.withSlot b p) bus =
      ((step c bus).1, (step c bus).2.1.withStale b p, (step c bus).2.2) := by
  unfold step
  rw [perform_withSlot hb]
  dsimp only
  -- The cycle counter is in no slot.
  unfold withStale
  split <;> rfl

end Cpu

/-! ## 5. Histories -/

/-- What a host can do with a processor on a bus: let it step, interrupt it, change its registers,
or look at it. -/
inductive HostOp where
  | step
  | enter (e : Exception)
  | change (op : RegisterOp)
  | bankedSp (m : Mode)
  | query (path : String)

namespace HostOp

variable {β : Type} [Bus β] {c : Cpu} {b : Bank} {p : StackLink}

/-- The value that the operation returns, if it returns one, and the state after it. -/
def apply (c : Cpu) (bus : β) : HostOp → Option Value × Cpu × β
  | step =>
    let (cost, c, bus) := c.step bus
    (some (.count cost.count), c, bus)
  | enter e => (none, c.enter e, bus)
  | change op => (none, op.onCpu c, bus)
  | bankedSp m => (some (.word (c.bankedSp m)), c, bus)
  | query path => (c.query path, c, bus)

/-- The values that operations return one after the other, and the state after them. -/
def run : List HostOp → Cpu → β → List (Option Value) × Cpu × β
  | [], c, bus => ([], c, bus)
  | op :: ops, c, bus =>
    let (v, c, bus) := op.apply c bus
    let (vs, c, bus) := run ops c bus
    (v :: vs, c, bus)

theorem apply_withSlot (hb : c.cpsr.bank = b) (op : HostOp) (bus : β) :
    op.apply (c.withSlot b p) bus =
      ((op.apply c bus).1, (op.apply c bus).2.1.withStale b p, (op.apply c bus).2.2) := by
  cases op with
  | step =>
    unfold apply
    rw [Cpu.step_withSlot hb]
  | enter e => exact congrArg (fun d => (none, d, bus)) (Cpu.enter_withSlot hb e)
  | change op => exact congrArg (fun d => (none, d, bus)) (Cpu.onCpu_withSlot hb op)
  | bankedSp m =>
    have hsp : (c.withSlot b p).bankedSp m = c.bankedSp m :=
      congrArg StackLink.sp (Cpu.pair_withSlot hb m.bank)
    unfold apply
    dsimp only
    rw [hsp, Cpu.withStale_of_live hb]
  | query path =>
    unfold apply
    dsimp only
    rw [Cpu.withStale_of_live hb]
    rfl

/-- Bank `b` is live before, between and after the operations. -/
def Stays (b : Bank) (ops : List HostOp) (c : Cpu) (bus : β) : Prop :=
  ∀ m ≤ ops.length, (run (ops.take m) c bus).2.1.cpsr.bank = b

theorem Stays.cons {op : HostOp} {ops : List HostOp} {bus : β} (hb : c.cpsr.bank = b)
    (h : Stays b ops (op.apply c bus).2.1 (op.apply c bus).2.2) : Stays b (op :: ops) c bus := by
  intro m hm
  cases m with
  | zero => exact hb
  | succ m => exact h m (Nat.le_of_succ_le_succ hm)

/-- Another pair in the slot goes through the operations unseen.  It is there at the end at most if
its bank has been live all along. -/
theorem run_withSlot (hb : c.cpsr.bank = b) (ops : List HostOp) (bus : β) :
    run ops (c.withSlot b p) bus = run ops c bus ∨
      (Stays b ops c bus ∧ run ops (c.withSlot b p) bus =
        ((run ops c bus).1, (run ops c bus).2.1.withSlot b p, (run ops c bus).2.2)) := by
  induction ops generalizing c bus with
  | nil => exact .inr ⟨fun m _ => by rw [List.take_nil]; exact hb, rfl⟩
  | cons op ops ih =>
    unfold run
    rw [apply_withSlot hb op bus]
    dsimp only
    by_cases hnext : (op.apply c bus).2.1.cpsr.bank = b
    · rw [Cpu.withStale_of_live hnext]
      rcases ih hnext (op.apply c bus).2.2 with h | ⟨hstays, h⟩
      · rw [h]
        exact .inl rfl
      · rw [h]
        exact .inr ⟨hstays.cons hb, rfl⟩
    · -- The bank is left by this operation, and from here on the two states are one.
      rw [Cpu.withStale_of_ne hnext]
      exact .inl rfl

/-- The stored pair of the live bank is never observed.  From states that differ in it alone and one
bus, any operations return the same values, access the bus in the same way and lead to states that
again differ in it alone, and in nothing once the bank has been left. -/
theorem stale_slot_unobserved {d : Cpu} (h : Cpu.SameButSlot c d) (bus : β) (ops : List HostOp) :
    let r := run ops c (Recorded.start bus)
    let r' := run ops d (Recorded.start bus)
    r'.1 = r.1 ∧ r'.2.2 = r.2.2 ∧ Cpu.SameButSlot r.2.1 r'.2.1 ∧
      ∀ m ≤ ops.length,
        (run (ops.take m) c (Recorded.start bus)).2.1.cpsr.bank ≠ c.cpsr.bank →
        r'.2.1 = r.2.1 := by
  intro r r'
  have hruns := run_withSlot (p := d.banked.get c.cpsr.bank) (rfl : c.cpsr.bank = c.cpsr.bank) ops
    (Recorded.start bus)
  rw [← h.eq_withSlot] at hruns
  change r' = r ∨ (_ ∧ r' = (r.1, r.2.1.withSlot _ _, r.2.2)) at hruns
  rcases hruns with heq | ⟨hstays, heq⟩
  · rw [heq]
    exact ⟨rfl, rfl, .refl _, fun _ _ _ => rfl⟩
  · rw [heq]
    have hlive : r.2.1.cpsr.bank = c.cpsr.bank := by
      have hlast := hstays ops.length (Nat.le_refl _)
      rw [List.take_length] at hlast
      exact hlast
    have hsame := Cpu.sameButSlot_withSlot r.2.1 (d.banked.get c.cpsr.bank)
    rw [hlive] at hsame
    exact ⟨rfl, rfl, hsame, fun m hm hleft => absurd (hstays m hm) hleft⟩

/-- In System mode with an old pair behind: the stack pointer is asked for, the mode field becomes
an unassigned pattern, an interrupt is entered and left, and `PUSH {SP}` is executed. -/
theorem stale_slot_unobserved_push :
    let ram : FlatRam := ⟨⟨#[0x00, 0x20, 0x2D, 0xE9]⟩, false, by decide⟩
    let c := Cpu.initial.setReg .sp 0x03007F00
    let d := c.withSlot 0 ⟨0xDEADBEEF, 0xDEADBEEF⟩
    let ops := [bankedSp .system, change (.writeCpsr 0x15), enter .irq, bankedSp .user,
      change .restoreCpsr, step, query "sp"]
    d ≠ c ∧ (run ops d (Recorded.start ram)).2 = (run ops c (Recorded.start ram)).2 ∧
      (run ops d (Recorded.start ram)).1 =
        [some (.word 0x03007F00), none, none, some (.word 0x03007F00), none, some (.count 1),
          some (.word 0x03007EFC)] := by
  intro ram c d ops
  have hslot : Cpu.SameButSlot c d := ⟨rfl, rfl, rfl, rfl, by decide⟩
  obtain ⟨hvalues, hbus, -, hleft⟩ := stale_slot_unobserved hslot ram ops
  have hequal := hleft 3 (by decide) (by decide)
  exact ⟨by decide, Prod.ext hequal hbus, hvalues.trans (by decide +kernel)⟩

end HostOp

end Handheld
