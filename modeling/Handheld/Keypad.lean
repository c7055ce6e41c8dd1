import Handheld.Word

/-!
# The keypad

Ten buttons, reported as a mask in which a clear bit means a button that is held.
-/

namespace Handheld

/-- A button, in the order of the bits of the key mask. -/
inductive Button where
  | a
  | b
  | select
  | start
  | right
  | left
  | up
  | down
  | r
  | l
deriving DecidableEq, Repr

namespace Button

def all : List Button := [a, b, select, start, right, left, up, down, r, l]

def bit (k : Button) : Nat := k.ctorIdx

def mask (k : Button) : Half := 1 <<< UInt16.ofNat k.bit

end Button

structure Keypad where
  /-- A clear bit for every button that is held. -/
  mask : Half
deriving DecidableEq, Repr

namespace Keypad

/-- The mask with no button held. -/
def releasedMask : Half := 0x03FF

def released : Keypad := ⟨releasedMask⟩

def press (k : Keypad) (button : Button) : Keypad := ⟨k.mask &&& ~~~button.mask⟩

def release (k : Keypad) (button : Button) : Keypad := ⟨k.mask ||| button.mask⟩

def isPressed (k : Keypad) (button : Button) : Bool := k.mask &&& button.mask == 0

end Keypad

end Handheld
