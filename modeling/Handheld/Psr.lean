import Handheld.Alu

/-!
# Program status words

```text
 31 30 29 28  27 ... 8   7   6   5   4 ... 0
  N  Z  C  V  reserved   I   F   T   mode
```

The mode field selects one of seven modes.  User and System share a bank of stack pointer and link
register; each of the other five modes has its own, and a saved status word besides.
-/

namespace Handheld

/-- One of the six banks of stack pointer and link register; bank 0 is that of User and System. -/
abbrev Bank := Fin 6

/-- One of the five saved status words: FIQ, IRQ, Supervisor, Abort, Undefined. -/
abbrev SavedSlot := Fin 5

/-- The saved status word that goes with a bank; bank 0 has none. -/
def Bank.savedSlot? (b : Bank) : Option SavedSlot := if h : b = 0 then none else some (b.pred h)

inductive Mode where
  | user
  | fiq
  | irq
  | supervisor
  | abort
  | undefined
  | system
deriving DecidableEq, Repr

namespace Mode

def bits : Mode → Word
  | user => 0x10
  | fiq => 0x11
  | irq => 0x12
  | supervisor => 0x13
  | abort => 0x17
  | undefined => 0x1B
  | system => 0x1F

/-- The mode that the low five bits stand for, if the pattern is assigned. -/
def ofBits? (w : Word) : Option Mode :=
  match w &&& 0x1F with
  | 0x10 => some user
  | 0x11 => some fiq
  | 0x12 => some irq
  | 0x13 => some supervisor
  | 0x17 => some abort
  | 0x1B => some undefined
  | 0x1F => some system
  | _ => none

def bank : Mode → Bank
  | user => 0
  | fiq => 1
  | irq => 2
  | supervisor => 3
  | abort => 4
  | undefined => 5
  | system => 0

def isException (m : Mode) : Bool := m.bank != 0

/-- The three-letter name used in register dumps. -/
def name : Mode → String
  | user => "usr"
  | fiq => "fiq"
  | irq => "irq"
  | supervisor => "svc"
  | abort => "abt"
  | undefined => "und"
  | system => "sys"

theorem ofBits?_bits (m : Mode) : ofBits? m.bits = some m := by cases m <;> rfl

end Mode

structure Psr where
  bits : Word
deriving DecidableEq, Repr

namespace Psr

/-! ## 1. Masks -/

/-- N: bit 31 of a result. -/
def negative : Word := 0x80000000

/-- Z: a result was zero. -/
def zero : Word := 0x40000000

/-- C: carry out of the adder, no borrow, or the carry of the shifter. -/
def carry : Word := 0x20000000

/-- V: signed overflow. -/
def overflow : Word := 0x10000000

/-- I: the interrupt line is ignored. -/
def irqDisable : Word := 0x80

/-- F: fast interrupts are ignored. -/
def fiqDisable : Word := 0x40

/-- T: the processor fetches 16-bit instructions. -/
def thumbState : Word := 0x20

def modeMask : Word := 0x1F

/-- The top byte, the only part that User mode may write. -/
def flagsMask : Word := 0xFF000000

/-! ## 2. Fields -/

def test (p : Psr) (mask : Word) : Bool := p.bits &&& mask != 0

def assign (p : Psr) (mask : Word) (on : Bool) : Psr :=
  ⟨if on then p.bits ||| mask else p.bits &&& ~~~mask⟩

def modeBits (p : Psr) : Word := p.bits &&& modeMask

/-- The mode, if the field holds an assigned pattern. -/
def mode? (p : Psr) : Option Mode := Mode.ofBits? p.bits

/-- The mode field replaced by the low five bits of `bits`. -/
def withModeBits (p : Psr) (bits : Word) : Psr := ⟨p.bits.overlay modeMask bits⟩

/-- The bank that is live; unassigned patterns use that of User and System. -/
def bank (p : Psr) : Bank := (p.mode?.map Mode.bank).getD 0

def thumb (p : Psr) : Bool := p.test thumbState

/-! ## 3. Results -/

def withSign (p : Psr) (v : Word) : Psr := (p.assign negative (v.bit 31)).assign zero (v == 0)

def withSign64 (p : Psr) (v : UInt64) : Psr :=
  (p.assign negative (v &&& 0x8000000000000000 != 0)).assign zero (v == 0)

def withResult (p : Psr) (r : AluResult) : Psr :=
  ((p.withSign r.value).assign carry r.carry).assign overflow r.overflow

end Psr

end Handheld
