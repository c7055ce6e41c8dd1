import Handheld.Console

/-!
# A desk of peripherals

The peripherals a host attaches without building its own: keys from a prepared script or from a
keypad, a renderer, and a screen that keeps the frames it is shown.
-/

namespace Handheld

inductive KeySource where
  /-- Nowhere: the program sees no key held. -/
  | none
  /-- Masks to be read one after the other; the last one stays. -/
  | script (masks : List Half)
  | keypad (keys : Keypad)

namespace KeySource

def read : KeySource → Option Half × KeySource
  | none => (.none, none)
  | script [] => (some Keypad.releasedMask, script [])
  | script [mask] => (some mask, script [mask])
  | script (mask :: rest) => (some mask, script rest)
  | keypad keys => (some keys.mask, keypad keys)

def isScript : KeySource → Bool
  | script _ => true
  | _ => false

end KeySource

/-- The peripherals that are attached, and what they have seen. -/
structure Desk where
  keys : KeySource
  /-- How often a script has been read since the last one was attached. -/
  scriptReads : Nat
  renderer : Option Renderer
  /-- The frames shown, the latest first, if a screen is attached. -/
  screen : Option (List Frame)

namespace Desk

def empty : Desk := ⟨.none, 0, none, none⟩

def attachScript (d : Desk) (masks : List Half) : Desk :=
  { d with keys := .script masks, scriptReads := 0 }

def attachKeypad (d : Desk) (keys : Keypad) : Desk := { d with keys := .keypad keys }

def detachKeys (d : Desk) : Desk := { d with keys := .none }

def attachRenderer (d : Desk) (r : Renderer) : Desk := { d with renderer := some r }

def attachScreen (d : Desk) : Desk := { d with screen := some [] }

/-- Read the keys, counting the reads of a script. -/
def readKeys (d : Desk) : Option Half × Desk :=
  let (mask, keys) := d.keys.read
  (mask, { d with keys, scriptReads := d.scriptReads + if d.keys.isScript then 1 else 0 })

/-- Draw with the renderer; without one the frame stays. -/
def render (m : Memory) (frame : Frame) (d : Desk) : Frame × Desk :=
  match d.renderer with
  | some r => (r m frame, d)
  | none => (frame, d)

/-- Show a frame on the screen, if there is one. -/
def present (frame : Frame) (d : Desk) : Desk :=
  { d with screen := d.screen.map (frame :: ·) }

def peripherals : Peripherals Desk := ⟨readKeys, render, present⟩

end Desk

end Handheld
