import Handheld.Arm.Execute
import Handheld.Bus.Recorded
import Handheld.Thumb.Execute
import Mathlib.Tactic.Choose

/-!
# Dialogues with a bus

An instruction reaches the memory by single bytes only: it reads one and goes on with what it got,
or it writes one.  Written down as such a dialogue, it does the same on every bus.  So a record of
the accesses can be kept beside any run without changing it, and played back to the bus alone.
-/

namespace Handheld

/-! ## 1. Dialogues -/

/-- Reads and writes in order, what follows a read depending on the byte read, and a result. -/
inductive Dialogue (α : Type) where
  | done (result : α)
  | read (address : Word) (next : Byte → Dialogue α)
  | write (address : Word) (v : Byte) (next : Dialogue α)

/-- Make an access once more. -/
def Bus.access {β : Type} [Bus β] (bus : β) : Access → β
  | .read address _ => (Bus.read8 bus address).2
  | .write address v => Bus.write8 bus address v

namespace Dialogue

variable {α γ β : Type} [Bus β]

/-- Hold a dialogue with a bus. -/
def on : Dialogue α → β → α × β
  | done a, bus => (a, bus)
  | read address next, bus => (next (Bus.read8 bus address).1).on (Bus.read8 bus address).2
  | write address v next, bus => next.on (Bus.write8 bus address v)

/-- The accesses of a dialogue with a bus, the earliest first. -/
def accesses : Dialogue α → β → List Access
  | done _, _ => []
  | read address next, bus =>
    .read address (Bus.read8 bus address).1 ::
      (next (Bus.read8 bus address).1).accesses (Bus.read8 bus address).2
  | write address v next, bus => .write address v :: next.accesses (Bus.write8 bus address v)

/-- Go on with what came out of a dialogue. -/
def bind : Dialogue α → (α → Dialogue γ) → Dialogue γ
  | done a, f => f a
  | read address next, f => read address fun v => (next v).bind f
  | write address v next, f => write address v (next.bind f)

theorem on_bind (d : Dialogue α) (f : α → Dialogue γ) (bus : β) :
    (d.bind f).on bus = (f (d.on bus).1).on (d.on bus).2 := by
  induction d generalizing bus with
  | done a => rfl
  | read address next ih => exact ih _ _
  | write address v next ih => exact ih _

/-- A record changes nothing and gets the accesses. -/
theorem on_recorded (d : Dialogue α) (bus : β) (log : List Access) :
    d.on (⟨bus, log⟩ : Recorded β) =
      ((d.on bus).1, ⟨(d.on bus).2, (d.accesses bus).reverse ++ log⟩) := by
  -- The record grows at its front, so what it held before stays at the end.
  induction d generalizing bus log with
  | done a => rfl
  | read address next ih =>
    unfold accesses
    rw [List.reverse_cons, List.append_assoc]
    exact ih _ _ _
  | write address v next ih =>
    unfold accesses
    rw [List.reverse_cons, List.append_assoc]
    exact ih _ _

/-- The accesses alone lead the bus where the dialogue does. -/
theorem foldl_accesses (d : Dialogue α) (bus : β) :
    (d.accesses bus).foldl Bus.access bus = (d.on bus).2 := by
  induction d generalizing bus with
  | done a => rfl
  | read address next ih => exact ih _ _
  | write address v next ih => exact ih _

end Dialogue

/-! ## 2. Functions on every bus -/

/-- The function holds one and the same dialogue with whatever bus it is given. -/
def IsDialogue {α : Type} (f : ∀ {β : Type} [Bus β], β → α × β) : Prop :=
  ∃ d : Dialogue α, ∀ {β : Type} [Bus β] (bus : β), f bus = d.on bus

namespace IsDialogue

variable {α γ : Type}

theorem done (a : α) : IsDialogue fun bus => (a, bus) := ⟨.done a, fun _ => rfl⟩

theorem read8 (address : Word) : IsDialogue fun bus => Bus.read8 bus address :=
  ⟨.read address .done, fun _ => rfl⟩

theorem write8 (a : α) (address : Word) (v : Byte) :
    IsDialogue fun bus => (a, Bus.write8 bus address v) :=
  ⟨.write address v (.done a), fun _ => rfl⟩

theorem bind {f : ∀ {β : Type} [Bus β], β → α × β} {g : α → ∀ {β : Type} [Bus β], β → γ × β}
    (hf : IsDialogue f) (hg : ∀ a, IsDialogue (g a)) :
    IsDialogue fun bus => g (f bus).1 (f bus).2 := by
  obtain ⟨d, hd⟩ := hf
  -- What follows is a dialogue for each result of the first, and the same on every bus.
  choose e he using hg
  refine ⟨d.bind e, fun bus => ?_⟩
  rw [Dialogue.on_bind, ← he, ← hd]

theorem map {f : ∀ {β : Type} [Bus β], β → α × β} (g : α → γ) (hf : IsDialogue f) :
    IsDialogue fun bus => (g (f bus).1, (f bus).2) :=
  hf.bind fun a => done (g a)

theorem read16 (address : Word) : IsDialogue fun bus => Bus.read16 bus address :=
  (read8 _).bind fun lo => (read8 _).map fun hi => Half.ofBytes lo hi

theorem read32 (address : Word) : IsDialogue fun bus => Bus.read32 bus address :=
  (read8 _).bind fun b₀ => (read8 _).bind fun b₁ => (read8 _).bind fun b₂ => (read8 _).map fun b₃ =>
    Word.ofBytes b₀ b₁ b₂ b₃

theorem readRotated (address : Word) : IsDialogue fun bus => Bus.readRotated bus address :=
  (read32 address).map fun w => w.rotateRight ((address &&& 3) * 8)

theorem write16 (a : α) (address : Word) (v : Half) :
    IsDialogue fun bus => (a, Bus.write16 bus address v) :=
  (write8 () _ _).bind fun _ => write8 a _ _

theorem write32 (a : α) (address v : Word) :
    IsDialogue fun bus => (a, Bus.write32 bus address v) :=
  (write8 () _ _).bind fun _ => (write8 () _ _).bind fun _ => (write8 () _ _).bind fun _ =>
    write8 a _ _

theorem writeWords (a : α) (address : Word) (ws : List Word) :
    IsDialogue fun bus => (a, Bus.writeWords bus address ws) := by
  induction ws generalizing address with
  | nil => exact done a
  | cons w ws ih => exact (write32 () address w).bind fun _ => ih (address + 4)

theorem readWords (address : Word) (n : Nat) :
    IsDialogue fun bus => Bus.readWords bus address n := by
  induction n generalizing address with
  | zero => exact done []
  | succ n ih => exact (read32 address).bind fun w => (ih (address + 4)).map fun ws => w :: ws

theorem load (kind : Load) (address : Word) : IsDialogue fun bus => kind.read bus address := by
  cases kind with
  | word => exact readRotated address
  | byte => exact (read8 address).map fun v => v.toUInt32
  | half => exact (read16 address).map fun v => v.toUInt32
  | signedByte =>
    have h := (read8 address).map fun v => Word.signExtend 8 v.toUInt32
    exact h
  | signedHalf =>
    have h := (read16 address).map fun v => Word.signExtend 16 v.toUInt32
    exact h

theorem store (a : α) (kind : Store) (address v : Word) :
    IsDialogue fun bus => (a, kind.write bus address v) := by
  cases kind with
  | word => exact write32 a address v
  | byte => exact write8 a address v.toUInt8
  | half => exact write16 a address v.toUInt16

end IsDialogue

/-! ## 3. Instructions -/

namespace Arm

open IsDialogue

theorem isDialogue_transfer (t : Transfer) (c : Cpu) (address : Word) :
    IsDialogue fun bus => t.execute c bus address := by
  unfold Transfer.execute
  cases t.move with
  | load kind => exact (load kind _).map fun v => Cpu.setReg _ t.data v
  | store kind => exact store _ kind _ _
  | loadPair =>
    exact (read32 _).bind fun lo => (read32 _).map fun hi =>
      (Cpu.setReg _ t.data.even lo).setReg t.data.odd hi
  | storePair => exact (write32 () _ _).bind fun _ => write32 _ _ _

theorem isDialogue_swap (c : Cpu) (byte : Bool) (dest source base : Reg) :
    IsDialogue fun bus => swap c bus byte dest source base := by
  unfold swap
  cases byte with
  | true => exact (read8 _).bind fun old => write8 (c.setReg dest old.toUInt32) _ _
  | false => exact (readRotated _).bind fun old => write32 (c.setReg dest old) _ _

theorem isDialogue_execute (i : Instruction) (c : Cpu) (address : Word) :
    IsDialogue fun bus => execute i c bus address := by
  cases i with
  | push regs => exact writeWords _ _ _
  | pop regs => exact (readWords _ _).map fun vs => Cpu.setRegs _ regs vs
  | transfer t => exact isDialogue_transfer t c address
  | swap byte dest source base => exact isDialogue_swap c byte dest source base
  | branchExchange _ | branch _ _ | softwareInterrupt | multiply _ _ _ _ _ _
  | multiplyLong _ _ _ _ _ _ _ | readStatus _ _ | writeStatus _ _ _
  | dataProcessing _ _ _ _ _ | ignored => exact done _

end Arm

namespace Thumb

open IsDialogue

theorem isDialogue_pop (c : Cpu) (regs : List Reg) (withPc : Bool) :
    IsDialogue fun bus => pop c bus regs withPc := by
  unfold pop
  cases withPc with
  | true =>
    exact (readWords _ _).bind fun vs => (read32 _).map fun v =>
      ((c.setRegs regs vs).setReg .pc (v &&& ~~~1)).setReg .sp _
  | false => exact (readWords _ _).map fun vs => (c.setRegs regs vs).setReg .sp _

theorem isDialogue_loadMultiple (c : Cpu) (base : Reg) (regs : List Reg) :
    IsDialogue fun bus => loadMultiple c bus base regs := by
  unfold loadMultiple
  by_cases h : regs.contains base = true
  · simp only [h, if_true]
    exact (readWords _ _).map fun vs => c.setRegs regs vs
  · simp only [h]
    exact (readWords _ _).map fun vs => (c.setRegs regs vs).setReg base _

theorem isDialogue_execute (i : Instruction) (c : Cpu) (address : Word) :
    IsDialogue fun bus => execute i c bus address := by
  cases i with
  | loadLiteral dest offset => exact (read32 _).map fun v => c.setReg dest v
  | load kind dest base offset => exact (IsDialogue.load kind _).map fun v => c.setReg dest v
  | store kind data base offset => exact store c kind _ _
  | push regs => exact writeWords _ _ _
  | pop regs withPc => exact isDialogue_pop c regs withPc
  | storeMultiple base regs => exact writeWords _ _ _
  | loadMultiple base regs => exact isDialogue_loadMultiple c base regs
  | shift _ _ _ _ | add _ _ _ | subtract _ _ _ | withConstant _ _ _ | alu _ _ _ | addAny _ _
  | compareAny _ _ | moveAny _ _ | branchExchange _ | addressOf _ _ _ | moveStack _
  | softwareInterrupt | branchIf _ _ | branch _ | callHigh _ | callLow _ | ignored =>
    exact done _

end Thumb

end Handheld
