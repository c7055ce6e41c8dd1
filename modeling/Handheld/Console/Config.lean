import Handheld.Console.Timing

/-!
# Configuration

What is inserted into the console, where it starts, and how its frames are timed.
-/

namespace Handheld

structure Config where
  rom : ByteArray
  /-- The start-up code, if there is any. -/
  bios : Option ByteArray
  /-- Start in the cartridge rather than in the start-up code. -/
  skipBios : Bool
  /-- Start at this address instead. -/
  entryPoint : Option Word
  /-- Start with 16-bit instructions. -/
  startInThumb : Bool
  timing : FrameTiming

namespace Config

/-- Where the cartridge begins. -/
def romEntry : Word := 0x08000000

/-- An empty cartridge, entered at its start, with the timing of the display. -/
def standard : Config where
  rom := ByteArray.empty
  bios := none
  skipBios := true
  entryPoint := none
  startInThumb := false
  timing := FrameTiming.standard

def entry (c : Config) : Word := c.entryPoint.getD (if c.skipBios then romEntry else 0)

end Config

end Handheld
