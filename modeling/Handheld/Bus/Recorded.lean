import Handheld.Bus

/-!
# A bus that keeps a record

`Recorded β` behaves as the bus `β` and remembers every byte that crosses it.  Two programs that
leave the same record cannot be told apart from the memory side.
-/

namespace Handheld

inductive Access where
  | read (address : Word) (value : Byte)
  | write (address : Word) (value : Byte)
deriving DecidableEq, Repr

/-- A bus together with the accesses made so far, the latest first. -/
structure Recorded (β : Type) where
  bus : β
  latest : List Access

namespace Recorded

variable {β : Type}

def start (bus : β) : Recorded β := ⟨bus, []⟩

def accesses (r : Recorded β) : List Access := r.latest.reverse

def writes (r : Recorded β) : List (Word × Byte) :=
  r.accesses.filterMap fun
    | .read _ _ => none
    | .write address value => some (address, value)

instance [Bus β] : Bus (Recorded β) where
  read8 r address :=
    let (v, bus) := Bus.read8 r.bus address
    (v, ⟨bus, .read address v :: r.latest⟩)
  write8 r address v := ⟨Bus.write8 r.bus address v, .write address v :: r.latest⟩
  irqPending r := Bus.irqPending r.bus

end Recorded

end Handheld
