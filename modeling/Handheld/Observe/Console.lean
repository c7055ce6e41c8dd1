import Handheld.Console
import Handheld.Observe.Cpu

/-!
# Looking at the console

The processor's paths, with or without `cpu.` in front, the I/O registers, single bytes of memory,
and the console's own counters.
-/

namespace Handheld.Console

def queryPaths : List String :=
  ["cpu.<arm7tdmi_paths>", "io.dispcnt", "io.dispstat", "io.vcount", "io.keyinput", "io.ie",
    "io.if", "io.ime", "memory.<address>", "frame_count", "open_bus"]

def queryIo (m : Memory) (name : String) : Option Value :=
  match name with
  | "dispcnt" => some (.half m.io.dispcnt)
  | "dispstat" => some (.half m.io.dispstat)
  | "vcount" => some (.half m.io.vcount)
  | "keyinput" => some (.half m.io.keyinput)
  | "ie" => some (.half m.interrupts.enable)
  | "if" => some (.half m.interrupts.flags)
  | "ime" => some (.half m.interrupts.master)
  | _ => none

def queryMemory (m : Memory) (address : String) : Option Value :=
  (AddressText.parse? address).map fun a => .byte (m.peek8 a)

/-- The property that a path names. -/
def query (console : Console) (path : String) : Option Value :=
  match after? "cpu." path with
  | some rest => console.cpu.query rest
  | none =>
  match after? "io." path with
  | some rest => queryIo console.memory rest
  | none =>
  match after? "memory." path with
  | some rest => queryMemory console.memory rest
  | none =>
  match path with
  | "frame_count" => some (.count console.frameCount)
  | "open_bus" => some (.byte console.memory.openBus)
  | _ => console.cpu.query path

end Handheld.Console
