import Handheld.Psr
import Handheld.Ticks

/-!
# The processor's state

Sixteen live registers, the current status word, five saved status words, and six banks of stack
pointer and link register.  Only `r13` and `r14` are banked.  The bank of the current mode is live:
its stored pair is out of date until a mode switch writes it back.  `Cpu.pair` is the view in which
that does not show: every bank has one pair, the live one or the stored one.
-/

namespace Handheld

/-- The stack pointer and link register of a bank. -/
structure StackLink where
  sp : Word
  lr : Word
deriving DecidableEq, Repr

structure Cpu where
  /-- The live registers; `r15` is the address of the next fetch. -/
  live : Vector Word 16
  cpsr : Psr
  /-- The saved status words: FIQ, IRQ, Supervisor, Abort, Undefined. -/
  saved : Vector Word 5
  /-- The stored pairs: User/System, FIQ, IRQ, Supervisor, Abort, Undefined. -/
  banked : Vector StackLink 6
  /-- Cycles executed since reset. -/
  cycles : Ticks
deriving DecidableEq

namespace Cpu

/-- System mode, 32-bit instructions, interrupts enabled, everything else zero. -/
def initial : Cpu where
  live := Vector.replicate 16 0
  cpsr := ⟨Mode.system.bits⟩
  saved := Vector.replicate 5 0
  banked := Vector.replicate 6 ⟨0, 0⟩
  cycles := 0

/-! ## 1. Live registers and flags -/

@[inline] def reg (c : Cpu) (r : Reg) : Word := c.live[r]

/-- Replace a live register.  A program counter is aligned by the next fetch, not here. -/
@[inline] def setReg (c : Cpu) (r : Reg) (v : Word) : Cpu :=
  { c with live := c.live.set r.val v r.isLt }

/-- Replace several live registers, later ones winning. -/
def setRegs (c : Cpu) : List Reg → List Word → Cpu
  | r :: rs, v :: vs => setRegs (c.setReg r v) rs vs
  | _, _ => c

@[simp] theorem reg_setReg_self (c : Cpu) (r : Reg) (v : Word) : (c.setReg r v).reg r = v := by
  simp [reg, setReg]

theorem reg_setReg_ne (c : Cpu) {r s : Reg} (v : Word) (h : r ≠ s) :
    (c.setReg r v).reg s = c.reg s := by
  have : r.val ≠ s.val := fun e => h (Fin.ext e)
  simp [reg, setReg, this]

theorem reg_setReg (c : Cpu) (r s : Reg) (v : Word) :
    (c.setReg r v).reg s = if r = s then v else c.reg s := by
  split
  next h => rw [h, reg_setReg_self]
  next h => rw [reg_setReg_ne c v h]

theorem setReg_comm {r s : Reg} (h : r ≠ s) (c : Cpu) (v w : Word) :
    (c.setReg r v).setReg s w = (c.setReg s w).setReg r v := by
  have hval : r.val ≠ s.val := fun e => h (Fin.ext e)
  unfold setReg
  simp only [Vector.set_comm _ _ hval]

@[simp] theorem cpsr_setReg (c : Cpu) (r : Reg) (v : Word) : (c.setReg r v).cpsr = c.cpsr := rfl

@[simp] theorem saved_setReg (c : Cpu) (r : Reg) (v : Word) : (c.setReg r v).saved = c.saved := rfl

@[simp] theorem banked_setReg (c : Cpu) (r : Reg) (v : Word) :
    (c.setReg r v).banked = c.banked := rfl

@[simp] theorem cycles_setReg (c : Cpu) (r : Reg) (v : Word) :
    (c.setReg r v).cycles = c.cycles := rfl

def pc (c : Cpu) : Word := c.reg .pc

/-- A register read as an operand, where the program counter reads as `pc`. -/
@[inline] def operand (c : Cpu) (r : Reg) (pc : Word) : Word := if r = .pc then pc else c.reg r

theorem operand_of_ne {r : Reg} (h : r ≠ .pc) (c : Cpu) (pc : Word) : c.operand r pc = c.reg r :=
  if_neg h

def flag (c : Cpu) (mask : Word) : Bool := c.cpsr.test mask

/-- Set or clear bits of the current status word, with no change of bank. -/
def setFlag (c : Cpu) (mask : Word) (on : Bool) : Cpu := { c with cpsr := c.cpsr.assign mask on }

/-- Choose between 16-bit and 32-bit instructions. -/
def setThumb (c : Cpu) (on : Bool) : Cpu := c.setFlag Psr.thumbState on

/-- Replace the mode field, with no change of bank. -/
def setModeBits (c : Cpu) (bits : Word) : Cpu := { c with cpsr := c.cpsr.withModeBits bits }

/-- The current mode, if the mode field holds an assigned pattern. -/
def mode? (c : Cpu) : Option Mode := c.cpsr.mode?

/-! ## 2. Banks -/

/-- The stack pointer and link register of a bank, wherever they are kept at the moment. -/
def pair (c : Cpu) (b : Bank) : StackLink :=
  if b = c.cpsr.bank then ⟨c.reg .sp, c.reg .lr⟩ else c.banked[b]

/-- Make the pair of a bank live, storing the pair that was live before.  The status word is left
for the caller to change. -/
def activate (c : Cpu) (b : Bank) : Cpu :=
  if b = c.cpsr.bank then c
  else
    let next := c.banked[b]
    let stored := c.banked.set c.cpsr.bank.val ⟨c.reg .sp, c.reg .lr⟩ c.cpsr.bank.isLt
    { (c.setReg .sp next.sp).setReg .lr next.lr with banked := stored }

/-- Making a bank live moves pairs about and changes none, once the status word names the bank. -/
theorem pair_activate (c : Cpu) {p : Psr} {b : Bank} (h : p.bank = b) (b' : Bank) :
    pair { c.activate b with cpsr := p } b' = c.pair b' := by
  subst h
  unfold pair activate
  by_cases same : p.bank = c.cpsr.bank
  · simp [same, reg]
  · by_cases live : b' = p.bank
    · subst live
      rw [if_pos rfl, if_neg same, if_neg same]
      show StackLink.mk (((c.setReg .sp _).setReg .lr _).reg .sp)
        (((c.setReg .sp _).setReg .lr _).reg .lr) = _
      rw [reg_setReg_ne _ _ (by decide), reg_setReg_self, reg_setReg_self]
    · by_cases old : b' = c.cpsr.bank
      · subst old
        simp [live, same, reg]
      · have : c.cpsr.bank.val ≠ b'.val := fun e => old (Fin.ext e.symm)
        simp [live, old, same, this]

/-- Change the mode, and with it the bank. -/
def switchMode (c : Cpu) (m : Mode) : Cpu := (c.activate m.bank).setModeBits m.bits

/-- Replace the current status word, and change the bank with the mode field.  A field with an
unassigned pattern is kept as it is. -/
def writeCpsr (c : Cpu) (v : Word) : Cpu := { c.activate (Psr.bank ⟨v⟩) with cpsr := ⟨v⟩ }

def bankedSp (c : Cpu) (m : Mode) : Word := (c.pair m.bank).sp

def setBankedSp (c : Cpu) (m : Mode) (v : Word) : Cpu :=
  if m.bank = c.cpsr.bank then c.setReg .sp v
  else { c with banked := c.banked.set m.bank.val { c.banked[m.bank] with sp := v } m.bank.isLt }

/-! ## 3. Saved status words -/

/-- The saved status word that goes with a bank. -/
def savedOf? (c : Cpu) (b : Bank) : Option Word := b.savedSlot?.map (c.saved[·])

/-- The saved status word of the current mode. -/
def spsr? (c : Cpu) : Option Word := c.savedOf? c.cpsr.bank

/-- Set the saved status word of the current mode, if it has one. -/
def setSpsr (c : Cpu) (v : Word) : Cpu :=
  match c.cpsr.bank.savedSlot? with
  | some slot => { c with saved := c.saved.set slot.val v slot.isLt }
  | none => c

/-- Replace the current status word by the saved one of the current mode, if it has one. -/
def restoreCpsr (c : Cpu) : Cpu :=
  match c.spsr? with
  | some saved => c.writeCpsr saved
  | none => c

/-! ## 4. Reset -/

/-- The stack pointer of User and System after start-up. -/
def systemStack : Word := 0x03007F00

/-- The stack pointer of IRQ mode after start-up. -/
def irqStack : Word := 0x03007FA0

/-- The stack pointer of Supervisor mode after start-up. -/
def supervisorStack : Word := 0x03007FE0

/-- Start over at `entry`, aligned to the instruction set chosen, with the stacks in place. -/
def reset (entry : Word) (thumb : Bool) : Cpu :=
  let c := initial.setReg .sp systemStack
  let c := (c.setBankedSp .irq irqStack).setBankedSp .supervisor supervisorStack
  (c.setReg .pc (if thumb then entry &&& ~~~1 else entry &&& ~~~3)).setThumb thumb

end Cpu

end Handheld
