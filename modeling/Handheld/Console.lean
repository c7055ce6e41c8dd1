import Handheld.Console.Config
import Handheld.Cpu.Step
import Handheld.Screen

/-!
# The console

Processor, memory, timing and the last frame drawn.  Running a frame reads the keys, lets the
processor run line by line, draws and shows the frame.  At the start of a line the line counter and
the display status are set and the interrupts of the line are asked for; an instruction is never
split, so a line may run over by a few cycles.

What is attached to the console is a record of three functions on a state of their own, so that
keys, drawing and showing may be anything.
-/

namespace Handheld

/-- What is attached to a console: a source of keys, a renderer and a screen, on a state `σ`. -/
structure Peripherals (σ : Type) where
  /-- The key mask, if a source of keys is attached. -/
  readKeys : σ → Option Half × σ
  /-- Draw a frame over the one before. -/
  render : Memory → Frame → σ → Frame × σ
  present : Frame → σ → σ

structure Console where
  cpu : Cpu
  memory : Memory
  timing : FrameTiming
  frame : Frame
  frameCount : UInt64

namespace Console

/-- Build a console, unless an image is too large. -/
def ofConfig (config : Config) : Except Fault Console := do
  let memory ← Memory.ofImage config.rom
  let memory ←
    match config.bios with
    | some image => memory.loadBios image
    | none => pure memory
  return {
    cpu := Cpu.reset config.entry config.startInThumb
    memory
    timing := config.timing
    frame := Frame.blank
    frameCount := 0 }

/-- Begin a line: set the line counter and the display status, and ask for the interrupts that the
program has enabled for the line. -/
def beginLine (timing : FrameTiming) (m : Memory) (line : Half) : Memory :=
  let io := (m.io.setVcount line).setVblank (timing.visibleScanlines ≤ line)
  let matched := line == io.vcountSetting
  let io := io.setMatch matched
  let m := { m with io := io }
  let m := if line == timing.visibleScanlines && io.vblankIrqEnabled then m.request .vBlank else m
  if matched && io.vcountIrqEnabled then m.request .vCount else m

/-- Run one line: the cycles used and the state after it. -/
def runLine (timing : FrameTiming) (c : Cpu) (m : Memory) (line : Half) : Ticks × Cpu × Memory :=
  c.run (beginLine timing m line) (Ticks.ofWord timing.cyclesPerLine)

/-- Run lines in order, the cycles used added to `total`. -/
def runLines (timing : FrameTiming) (total : Ticks) (c : Cpu) (m : Memory) :
    List Half → Ticks × Cpu × Memory
  | [] => (total, c, m)
  | line :: rest =>
    let (used, c, m) := runLine timing c m line
    runLines timing (total + used) c m rest

/-- Run one frame: the cycles used, and the console and its peripherals after it. -/
def runFrame {σ : Type} (p : Peripherals σ) (console : Console) (s : σ) : Ticks × Console × σ :=
  let (keys, s) := p.readKeys s
  let ⟨cpu, memory, timing, frame, frameCount⟩ := console
  let (used, cpu, memory) := runLines timing 0 cpu (memory.latchKeys keys) timing.lines
  let (frame, s) := p.render memory frame s
  (used, ⟨cpu, memory, timing, frame, frameCount + 1⟩, p.present frame s)

end Console

end Handheld
