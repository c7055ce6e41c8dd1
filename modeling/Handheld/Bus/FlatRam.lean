import Handheld.Bus

/-!
# Flat memory

The simplest bus: a block of bytes that repeats over the whole address space, and an interrupt line
driven from outside.
-/

namespace Handheld

/-- A block of at least one byte, and the level of the interrupt line. -/
structure FlatRam where
  bytes : ByteArray
  irq : Bool
  nonempty : 0 < bytes.size

namespace FlatRam

/-- `size` zero bytes (one if `size` is zero) with the interrupt line low. -/
def zeros (size : Nat) : FlatRam where
  bytes := ⟨Array.replicate (max size 1) 0⟩
  irq := false
  nonempty := by
    show 0 < (Array.replicate (max size 1) (0 : Byte)).size
    rw [Array.size_replicate]
    omega

/-- The index that an address reaches: the block repeats. -/
def index (ram : FlatRam) (address : Word) : Fin ram.bytes.size :=
  ⟨address.toNat % ram.bytes.size, Nat.mod_lt _ ram.nonempty⟩

def peek (ram : FlatRam) (address : Word) : Byte := ram.bytes[ram.index address]

def poke (ram : FlatRam) (address : Word) (v : Byte) : FlatRam where
  bytes := ram.bytes.set (address.toNat % ram.bytes.size) v (Nat.mod_lt _ ram.nonempty)
  irq := ram.irq
  nonempty := by
    have h := ram.nonempty
    simp only [ByteArray.size, ByteArray.data_set, Array.size_set] at *
    exact h

def setIrq (ram : FlatRam) (level : Bool) : FlatRam := { ram with irq := level }

instance : Bus FlatRam where
  read8 ram address := (ram.peek address, ram)
  write8 := poke
  irqPending ram := ram.irq

end FlatRam

end Handheld
