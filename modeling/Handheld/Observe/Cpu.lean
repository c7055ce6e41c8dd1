import Handheld.Cpu
import Handheld.Observe

/-!
# Looking at the processor

Registers by number or by name, the status words, the flags and the cycle counter.
-/

namespace Handheld.Cpu

def registerPaths : List String :=
  ["r0", "r1", "r2", "r3", "r4", "r5", "r6", "r7", "r8", "r9", "r10", "r11", "r12", "r13", "r14",
    "r15"]

/-- Every path but the short names of the flags. -/
def queryPaths : List String :=
  ["pc", "sp", "lr", "cpsr", "spsr", "mode", "thumb", "flags.n", "flags.z", "flags.c", "flags.v",
    "flags.i", "flags.f", "cycles"] ++ registerPaths

/-- The register that a path names by number. -/
def registerOfPath? (path : String) : Option Reg := (registerPaths.finIdxOf? path).map (·.cast rfl)

/-- The property that a path names.  A mode without a saved status word shows none. -/
def query (c : Cpu) (path : String) : Option Value :=
  match path with
  | "pc" => some (.word c.pc)
  | "sp" => some (.word (c.reg .sp))
  | "lr" => some (.word (c.reg .lr))
  | "cpsr" => some (.word c.cpsr.bits)
  | "spsr" => c.spsr?.map .word
  | "mode" => some (.text ((c.mode?.map Mode.name).getD "invalid"))
  | "thumb" => some (.bool c.cpsr.thumb)
  | "flags.n" | "n" => some (.bool (c.flag Psr.negative))
  | "flags.z" | "z" => some (.bool (c.flag Psr.zero))
  | "flags.c" | "c" => some (.bool (c.flag Psr.carry))
  | "flags.v" | "v" => some (.bool (c.flag Psr.overflow))
  | "flags.i" | "i" => some (.bool (c.flag Psr.irqDisable))
  | "flags.f" | "f" => some (.bool (c.flag Psr.fiqDisable))
  | "cycles" => some (.count c.cycles.count)
  | _ => (registerOfPath? path).map fun r => .word (c.reg r)

end Handheld.Cpu
