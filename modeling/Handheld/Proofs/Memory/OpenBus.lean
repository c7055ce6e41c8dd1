import Handheld.Proofs.Memory.Blocks
import Handheld.Proofs.Memory.Cells
import Handheld.Proofs.Memory.DataLines
import Handheld.Proofs.Memory.RegisterBytes
import Handheld.Proofs.Traffic

/-!
# What is left on the data lines

Whatever is done to the memory, the data lines hold the byte that was last read at an address where
something answers.  Writes do not move them, and nothing that a host does.
-/

namespace Handheld

/-! ## 1. Where something answers -/

/-- Something answers at the address: there is memory, or a byte of a register. -/
def isMapped (a : Word) : Bool :=
  match Cell.ofAddress? a with
  | some (.io i) => (ByteRule.ofOffset? i).isSome
  | some _ => true
  | none => false

namespace Memory

variable (m : Memory)

/-- Whether something answers does not depend on the state of the memory. -/
theorem isSome_mapped? (a : Word) : (m.mapped? a).isSome = isMapped a := by
  unfold mapped? isMapped
  cases Cell.ofAddress? a with
  | none => rfl
  | some c =>
    cases c with
    | io i =>
      show (m.lookupIo _).isSome = (ByteRule.ofOffset? i).isSome
      rw [lookupIo_eq, ByteRule.ofOffset?_eq, Option.isSome_map, Option.isSome_map]
    | bios _ | ewram _ | iwram _ | palette _ | vram _ | oam _ | rom _ | sram _ => rfl

theorem mapped?_eq_none {a : Word} (h : isMapped a = false) : m.mapped? a = none := by
  rw [← m.isSome_mapped?, Option.isSome_eq_false_iff] at h
  exact Option.isNone_iff_eq_none.1 h

end Memory

/-! ## 2. Programs -/

/-- What a program does to a bus: an access of some width, or steps of a processor. -/
inductive BusOp where
  | read (w : Width) (address : Word)
  | write (w : Width) (address : Word) (v : w.Value)
  | steps (n : Nat) (c : Cpu)

namespace BusOp

variable {β : Type} [Bus β]

def run (bus : β) : BusOp → β
  | read w address => (w.read bus address).2
  | write w address v => w.write bus address v
  | steps n c => (Cpu.steps n c bus).2.2

theorem traceable_run (op : BusOp) : Traceable fun bus => ((), op.run bus) := by
  cases op with
  | read w address =>
    apply Traceable.of_isDialogue
    cases w with
    | byte => exact (IsDialogue.read8 address).map fun _ => ()
    | half => exact (IsDialogue.read16 address).map fun _ => ()
    | word => exact (IsDialogue.read32 address).map fun _ => ()
  | write w address v =>
    apply Traceable.of_isDialogue
    cases w with
    | byte => exact IsDialogue.write8 () address v
    | half => exact IsDialogue.write16 () address v
    | word => exact IsDialogue.write32 () address v
  | steps n c => exact (Cpu.traceable_steps n c).bind fun _ => Traceable.done ()

/-- The bytes that the operation reads and writes, the earliest first. -/
def accesses (bus : β) (op : BusOp) : List Access := (op.run (Recorded.start bus)).accesses

end BusOp

/-! ## 3. Histories -/

/-- The byte that a read got, if something answered it. -/
def Access.heard? : Access → Option Byte
  | read a v => if isMapped a then some v else none
  | write _ _ => none

/-- The byte that the last read got that something answered, or zero. -/
def lastHeard (log : List Access) : Byte := (log.filterMap Access.heard?).getLast?.getD 0

theorem lastHeard_concat (log : List Access) (x : Access) :
    lastHeard (log ++ [x]) = x.heard?.getD (lastHeard log) := by
  unfold lastHeard
  rw [List.filterMap_append]
  cases h : x.heard? with
  | none => simp [h]
  | some v => simp [h]

namespace Memory

/-- What is done to the memory: by a program, or by the host, which looks at it, loads start-up code,
raises interrupts and shows the keys. -/
inductive Action where
  | program (op : BusOp)
  | peek (address : Word)
  | paletteEntry (index : Nat)
  | loadBios (image : ByteArray)
  | request (s : Interrupt)
  | latchKeys (mask : Option Half)

namespace Action

/-- Looking changes nothing, nor does start-up code that is too large. -/
def apply (m : Memory) : Action → Memory
  | program op => op.run m
  | peek _ | paletteEntry _ => m
  | loadBios image => (m.loadBios image).toOption.getD m
  | request s => m.request s
  | latchKeys mask => m.latchKeys mask

def accesses (m : Memory) : Action → List Access
  | program op => op.accesses m
  | peek _ | paletteEntry _ | loadBios _ | request _ | latchKeys _ => []

end Action

/-- The bytes that are read and written in a history, the earliest first. -/
def traffic (m : Memory) : List Action → List Access
  | [] => []
  | x :: xs => x.accesses m ++ traffic (x.apply m) xs

/-! ## 4. The data lines -/

variable {m : Memory} {log : List Access}

/-- An access that is recorded leaves on the lines what the record says. -/
theorem openBus_access (r : Recorded Memory) (x : Access)
    (h : r.bus.openBus = lastHeard (log ++ r.accesses)) :
    (Bus.access r x).bus.openBus = lastHeard (log ++ (Bus.access r x).accesses) := by
  obtain ⟨m, latest⟩ := r
  cases x with
  | read a v =>
    show (m.read8 a).2.openBus = lastHeard (log ++ (Access.read a (m.read8 a).1 :: latest).reverse)
    rw [List.reverse_cons, ← List.append_assoc, lastHeard_concat, m.read8_eq]
    show m.peek8 a = (if isMapped a then some (m.peek8 a) else none).getD _
    -- Where nothing answers, the read leaves the lines as they were.
    split
    next => rfl
    next hmapped =>
      unfold peek8
      rw [m.mapped?_eq_none (Bool.eq_false_iff.2 hmapped)]
      exact h
  | write a v =>
    show (m.write8 a v).openBus = lastHeard (log ++ (Access.write a v :: latest).reverse)
    rw [List.reverse_cons, ← List.append_assoc, lastHeard_concat, m.openBus_write8]
    exact h

theorem openBus_apply (h : m.openBus = lastHeard log) (x : Action) :
    (x.apply m).openBus = lastHeard (log ++ x.accesses m) := by
  have hquiet : m.openBus = lastHeard (log ++ []) := by rw [List.append_nil, h]
  cases x with
  | program op =>
    -- The record of the operation goes on where the log ends.
    have hstart : (Recorded.start m).bus.openBus = lastHeard (log ++ (Recorded.start m).accesses) :=
      hquiet
    have hend := op.traceable_run.preserves openBus_access hstart
    rwa [op.traceable_run.bus_start m] at hend
  | peek _ | paletteEntry _ | request _ | latchKeys _ => exact hquiet
  | loadBios image =>
    show ((m.loadBios image).toOption.getD m).openBus = lastHeard (log ++ [])
    rw [← hquiet]
    unfold loadBios
    split <;> rfl

theorem openBus_foldl (h : m.openBus = lastHeard log) (xs : List Action) :
    (xs.foldl Action.apply m).openBus = lastHeard (log ++ traffic m xs) := by
  -- The log grows by the accesses of each action in turn.
  induction xs generalizing m log with
  | nil =>
    show m.openBus = lastHeard (log ++ [])
    rw [List.append_nil, h]
  | cons x xs ih =>
    show (xs.foldl Action.apply (x.apply m)).openBus =
      lastHeard (log ++ (x.accesses m ++ traffic (x.apply m) xs))
    rw [← List.append_assoc]
    exact ih (openBus_apply h x)

/-! ## 5. Reads where nothing answers -/

theorem read8_of_unmapped (m : Memory) {a : Word} (h : isMapped a = false) :
    (m.read8 a).1 = m.openBus := by
  unfold read8
  rw [m.mapped?_eq_none h]

theorem mapped?_address_of_isMapped (m : Memory) (w : Width) (a : Word) {i : Nat} (hi : i < w.size)
    (h : isMapped (w.address a i) = true) :
    m.mapped? (w.address a i) = some (w.byteOf (w.read m a).1 i) := by
  rw [← m.isSome_mapped?] at h
  obtain ⟨v, hv⟩ := Option.isSome_iff_exists.1 h
  rw [m.byteOf_read a w hi, m.heard_of_mapped (w.align a) hv, hv]

/-- A byte of a read that nothing answers repeats the one before it. -/
theorem byteOf_read_repeats (m : Memory) (w : Width) (a : Word) {i j : Nat} (hij : j ≤ i)
    (hi : i < w.size) (h : ∀ k, j < k → k ≤ i → isMapped (w.address a k) = false) :
    w.byteOf (w.read m a).1 i = w.byteOf (w.read m a).1 j := by
  rw [m.byteOf_read a w hi, m.byteOf_read a w (Nat.lt_of_le_of_lt hij hi)]
  apply m.heard_of_unmapped (w.align a) (Nat.succ_le_succ hij)
  intro k hjk hki
  exact m.mapped?_eq_none (h k hjk (Nat.le_of_lt_succ hki))

/-- The bytes of a read before the first that something answers are what was on the lines. -/
theorem byteOf_read_of_unmapped (m : Memory) (w : Width) (a : Word) {i : Nat} (hi : i < w.size)
    (h : ∀ k ≤ i, isMapped (w.address a k) = false) :
    w.byteOf (w.read m a).1 i = m.openBus := by
  rw [m.byteOf_read a w hi]
  apply m.heard_of_unmapped (w.align a) (Nat.zero_le _)
  intro k _ hki
  exact m.mapped?_eq_none (h k (Nat.le_of_lt_succ hki))

/-- After any history of a new memory the data lines hold the byte of the last read that something
answered.  A byte that nothing answers reads as the answered one before it in the same access, or as
what the data lines hold; a look shows what a read would get, and leaves everything as it is. -/
theorem openBus_of_history (rom : Rom) (history : List Action) :
    let m := history.foldl Action.apply (ofRom rom)
    m.openBus = lastHeard (traffic (ofRom rom) history) ∧
    (∀ a, isMapped a = false → (Bus.read8 m a).1 = m.openBus) ∧
    (∀ (w : Width) (a : Word) (i : Nat), i < w.size →
      let byte := w.byteOf (w.read m a).1
      (isMapped (w.address a i) = true → m.mapped? (w.address a i) = some (byte i)) ∧
      (∀ j ≤ i, (∀ k, j < k → k ≤ i → isMapped (w.address a k) = false) → byte i = byte j) ∧
      ((∀ k ≤ i, isMapped (w.address a k) = false) → byte i = m.openBus)) ∧
    (∀ a, m.peek8 a = (Bus.read8 m a).1 ∧ (Action.peek a).apply m = m) := by
  intro m
  have hnew : (ofRom rom).openBus = lastHeard [] := rfl
  refine ⟨openBus_foldl hnew history, fun a h => m.read8_of_unmapped h, fun w a i hi => ?_,
    fun a => ⟨(congrArg Prod.fst (m.read8_eq a)).symm, rfl⟩⟩
  exact ⟨m.mapped?_address_of_isMapped w a hi, fun j hij h => m.byteOf_read_repeats w a hij hi h,
    m.byteOf_read_of_unmapped w a hi⟩

/-- Nothing is above the display control: the upper half of the word repeats its high byte. -/
example :
    let m := Bus.write16 (ofRom ⟨⟨#[0, 0, 0, 0]⟩, by decide, by decide⟩) 0x04000000 0x1234
    (Bus.read32 m 0x04000000).1 = 0x12121234 := by decide

end Memory

end Handheld
