import Handheld.Psr

/-!
# Conditions

The four-bit condition of an ARM instruction or a Thumb branch, decided on the flags.
-/

namespace Handheld

/-- A condition on the flags, in the order of its encoding. -/
inductive Condition where
  | eq
  | ne
  | cs
  | cc
  | mi
  | pl
  | vs
  | vc
  | hi
  | ls
  | ge
  | lt
  | gt
  | le
  | al
  | nv
deriving DecidableEq, Repr

namespace Condition

def ofBits (bits : Word) : Condition :=
  match bits &&& 0xF with
  | 0x0 => eq
  | 0x1 => ne
  | 0x2 => cs
  | 0x3 => cc
  | 0x4 => mi
  | 0x5 => pl
  | 0x6 => vs
  | 0x7 => vc
  | 0x8 => hi
  | 0x9 => ls
  | 0xA => ge
  | 0xB => lt
  | 0xC => gt
  | 0xD => le
  | 0xE => al
  | _ => nv

/-- Whether the flags satisfy the condition.  The reserved last one never holds. -/
def holds (cond : Condition) (p : Psr) : Bool :=
  let n := p.test Psr.negative
  let z := p.test Psr.zero
  let c := p.test Psr.carry
  let v := p.test Psr.overflow
  match cond with
  | eq => z
  | ne => !z
  | cs => c
  | cc => !c
  | mi => n
  | pl => !n
  | vs => v
  | vc => !v
  | hi => c && !z
  | ls => !c || z
  | ge => n == v
  | lt => n != v
  | gt => !z && n == v
  | le => z || n != v
  | al => true
  | nv => false

end Condition

end Handheld
