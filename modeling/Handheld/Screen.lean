import Handheld.Memory

/-!
# Frames and colours

A frame is 240 by 160 pixels, row by row, each a word of opaque red, green and blue.  A renderer
draws a frame from what it sees in memory.
-/

namespace Handheld

@[reducible] def screenWidth : Nat := 240

@[reducible] def screenHeight : Nat := 160

@[reducible] def framePixels : Nat := screenWidth * screenHeight

abbrev Frame := Vector Word framePixels

def Frame.blank : Frame := Vector.replicate framePixels 0

/-- Copy a frame to the front of a buffer, unless the buffer is too small. -/
def Frame.copyTo (frame : Frame) (buffer : Array Word) : Except Fault (Array Word) :=
  if buffer.size < framePixels then .error (.frameTooSmall framePixels buffer.size)
  else .ok (frame.toArray ++ buffer.extract framePixels buffer.size)

/-- Five bits of colour widened to eight, so that full stays full. -/
def widen5 (c : Word) : Word := (c <<< 3) ||| (c >>> 2)

/-- The opaque pixel for a palette colour, which has five bits each of red, green and blue from the
low end upwards. -/
def argb (colour : Half) : Word :=
  let c : Word := colour.toUInt32
  let red := widen5 (c.field 0 5)
  let green := widen5 (c.field 5 5)
  let blue := widen5 (c.field 10 5)
  (0xFF000000 : Word) ||| (red <<< 16 ||| green <<< 8 ||| blue)

/-- Draws a frame from memory, over the frame before. -/
abbrev Renderer := Memory → Frame → Frame

/-- Fill the frame with the first palette colour. -/
def Renderer.backdrop : Renderer := fun m _ => Vector.replicate framePixels (argb (m.paletteEntry 0))

end Handheld
