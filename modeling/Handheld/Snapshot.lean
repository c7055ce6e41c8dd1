import Handheld.Console.Config
import Handheld.Cpu
import Handheld.Interrupt
import Handheld.Json.Codec

/-!
# Snapshots and configuration texts

The processor's state and the interrupt controller are saved as text and restored from it; every
field must be there.  Configuration and frame timing are read from texts that say only what differs
from the standard.  A text is a codec's; `toText` and `ofText?` go through the plain one.
-/

namespace Handheld

/-! ## 1. Processor -/

def StackLink.toJson (p : StackLink) : Json :=
  .array [.ofNat p.sp.toNat, .ofNat p.lr.toNat]

def StackLink.ofJson? (codec : Codec) (j : Json) : Option StackLink :=
  match codec.list? codec.word? j with
  | some [sp, lr] => some ⟨sp, lr⟩
  | _ => none

namespace Cpu

def fieldNames : List String := ["r", "cpsr", "spsr", "banked", "cycles"]

def toJson (c : Cpu) : Json :=
  let word (w : Word) : Json := .ofNat w.toNat
  .ofMembers
    [("r", .ofVector word c.live), ("cpsr", word c.cpsr.bits), ("spsr", .ofVector word c.saved),
      ("banked", .ofVector StackLink.toJson c.banked), ("cycles", .ofNat c.cycles.count.toNat)]

/-- The processor's state from a record with all its fields. -/
def ofJson? (codec : Codec) (j : Json) : Option Cpu := do
  match ← codec.record? fieldNames j with
  | [some r, some cpsr, some spsr, some banked, some cycles] =>
    return {
      live := ← codec.vector? 16 codec.word? r
      cpsr := ⟨← codec.word? cpsr⟩
      saved := ← codec.vector? 5 codec.word? spsr
      banked := ← codec.vector? 6 (StackLink.ofJson? codec) banked
      cycles := ⟨← codec.long? cycles⟩ }
  | _ => none

def write (codec : Codec) (c : Cpu) : String := codec.write c.toJson

def read? (codec : Codec) (text : String) : Option Cpu := codec.read? (ofJson? codec) text

def toText (c : Cpu) : String := c.write .plain

def ofText? (text : String) : Option Cpu := read? .plain text

end Cpu

/-! ## 2. Interrupt controller -/

namespace InterruptController

def fieldNames : List String := ["enable", "flags", "master"]

def toJson (ic : InterruptController) : Json :=
  .ofMembers
    [("enable", .ofNat ic.enable.toNat), ("flags", .ofNat ic.flags.toNat),
      ("master", .ofNat ic.master.toNat)]

def ofJson? (codec : Codec) (j : Json) : Option InterruptController := do
  match ← codec.record? fieldNames j with
  | [some enable, some flags, some master] =>
    return ⟨← codec.half? enable, ← codec.half? flags, ← codec.half? master⟩
  | _ => none

def write (codec : Codec) (ic : InterruptController) : String := codec.write ic.toJson

def read? (codec : Codec) (text : String) : Option InterruptController := codec.read? (ofJson? codec) text

def toText (ic : InterruptController) : String := ic.write .plain

def ofText? (text : String) : Option InterruptController := read? .plain text

end InterruptController

/-! ## 3. Frame timing -/

namespace FrameTiming

def fieldNames : List String := ["scanlines", "visible_scanlines", "cycles_per_frame"]

def toJson (t : FrameTiming) : Json :=
  .ofMembers
    [("scanlines", .ofNat t.scanlines.toNat), ("visible_scanlines", .ofNat t.visibleScanlines.toNat),
      ("cycles_per_frame", .ofNat t.cyclesPerFrame.toNat)]

/-- The timing from a record, whose missing fields are those of the display. -/
def ofJson? (codec : Codec) (j : Json) : Option FrameTiming := do
  match ← codec.record? fieldNames j with
  | [scanlines, visibleScanlines, cyclesPerFrame] =>
    return {
      scanlines := ← codec.field? codec.half? standard.scanlines scanlines
      visibleScanlines := ← codec.field? codec.half? standard.visibleScanlines visibleScanlines
      cyclesPerFrame := ← codec.field? codec.word? standard.cyclesPerFrame cyclesPerFrame }
  | _ => none

def toText (t : FrameTiming) : String := Codec.plain.write t.toJson

end FrameTiming

/-! ## 4. Configuration -/

def imageToJson (image : ByteArray) : Json :=
  .array (image.data.toList.map fun b => .ofNat b.toNat)

def imageOfJson? (codec : Codec) (j : Json) : Option ByteArray :=
  (codec.list? codec.byte? j).map fun bytes => ⟨bytes.toArray⟩

namespace Config

def fieldNames : List String :=
  ["rom_data", "bios", "skip_bios", "entry_point", "start_in_thumb", "timing"]

def toJson (c : Config) : Json :=
  .ofMembers
    [("rom_data", imageToJson c.rom), ("bios", (c.bios.map imageToJson).getD .null),
      ("skip_bios", .bool c.skipBios),
      ("entry_point", (c.entryPoint.map fun a => .ofNat a.toNat).getD .null),
      ("start_in_thumb", .bool c.startInThumb), ("timing", c.timing.toJson)]

/-- The configuration from a record, whose missing fields are the standard ones. -/
def ofJson? (codec : Codec) (j : Json) : Option Config := do
  match ← codec.record? fieldNames j with
  | [rom, bios, skipBios, entryPoint, startInThumb, timing] =>
    return {
      rom := ← codec.field? (imageOfJson? codec) standard.rom rom
      bios := ← codec.field? (codec.orNull? (imageOfJson? codec)) standard.bios bios
      skipBios := ← codec.field? codec.bool? standard.skipBios skipBios
      entryPoint := ← codec.field? (codec.orNull? codec.word?) standard.entryPoint entryPoint
      startInThumb := ← codec.field? codec.bool? standard.startInThumb startInThumb
      timing := ← codec.field? (FrameTiming.ofJson? codec) standard.timing timing }
  | _ => none

def write (codec : Codec) (c : Config) : String := codec.write c.toJson

def read? (codec : Codec) (text : String) : Option Config := codec.read? (ofJson? codec) text

def toText (c : Config) : String := c.write .plain

def ofText? (text : String) : Option Config := read? .plain text

end Config

end Handheld
