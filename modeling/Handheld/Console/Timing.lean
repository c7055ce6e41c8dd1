import Handheld.Word

/-!
# Frame timing

A frame is a number of lines, the first of which are drawn; the cycles of the frame are shared out
equally, rounding down.
-/

namespace Handheld

/-- How many lines a frame has, how many of them are drawn, and how many cycles it takes. -/
structure FrameTiming where
  scanlines : UInt16
  visibleScanlines : UInt16
  cyclesPerFrame : Word
deriving DecidableEq, Repr

namespace FrameTiming

/-- The timing of the console's display: 228 lines of 1232 cycles. -/
def standard : FrameTiming where
  scanlines := 228
  visibleScanlines := 160
  cyclesPerFrame := 280896

def cyclesPerLine (t : FrameTiming) : Word := t.cyclesPerFrame / (max t.scanlines 1).toUInt32

def lines (t : FrameTiming) : List Half := (List.range t.scanlines.toNat).map UInt16.ofNat

end FrameTiming

end Handheld
