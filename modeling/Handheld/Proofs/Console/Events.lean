import Handheld.Proofs.Frame
import Handheld.Proofs.Memory.Registers
import Handheld.Proofs.Traffic

/-!
# What happens to the memory

A running console does three things to its memory: it latches the keys when a frame begins, it sets
status and asks for interrupts when a line begins, and within a line the processor makes accesses.
The history of a run lists these events, and the memory at any instruction boundary is what they
make of the memory at the start.
-/

namespace Handheld.Console

/-! ## 1. Events -/

inductive Event where
  | keys (mask : Option Half)
  | line (line : Half)
  | access (a : Access)
deriving DecidableEq, Repr

def happen (timing : FrameTiming) (m : Memory) : Event → Memory
  | .keys mask => m.latchKeys mask
  | .line line => beginLine timing m line
  | .access a => Bus.access m a

/-- The bytes that the program writes, each with its address. -/
def programWrites (es : List Event) : List (Word × Byte) :=
  es.filterMap fun
    | .access (.write a v) => some (a, v)
    | _ => none

theorem mem_programWrites {es : List Event} {w : Word × Byte} :
    w ∈ programWrites es ↔ .access (.write w.1 w.2) ∈ es := by
  unfold programWrites
  rw [List.mem_filterMap]
  constructor
  · rintro ⟨e, he, hw⟩
    split at hw
    next a v =>
      cases hw
      exact he
    next => cases hw
  · intro h
    exact ⟨_, h, rfl⟩

theorem programWrites_subset {es es' : List Event} (h : es ⊆ es') :
    programWrites es ⊆ programWrites es' := fun _ hw =>
  mem_programWrites.2 (h (mem_programWrites.1 hw))

theorem foldl_access (timing : FrameTiming) (m : Memory) (as : List Access) :
    (as.map Event.access).foldl (happen timing) m = as.foldl Bus.access m := by
  rw [List.foldl_map]
  rfl

/-! ## 2. A line and a frame -/

section Frame

variable (timing : FrameTiming) (c : Cpu) (m : Memory)

/-- How many instructions a line has time for. -/
def lineSteps (line : Half) : Nat :=
  Cpu.stepsUntil (c.cycles + lineBudget timing) (lineBudget timing).count.toNat c
    (beginLine timing m line)

theorem runLine_eq_steps (line : Half) :
    (runLine timing c m line).2 =
      (Cpu.steps (lineSteps timing c m line) c (beginLine timing m line)).2 :=
  Cpu.runUntil_eq_steps _ _ _ _

/-- The events of the first `n` steps of a line. -/
def lineEvents (line : Half) (n : Nat) : List Event :=
  .line line :: (Cpu.traffic n c (beginLine timing m line)).map .access

theorem foldl_lineEvents (line : Half) (n : Nat) :
    (lineEvents timing c m line n).foldl (happen timing) m =
      (Cpu.steps n c (beginLine timing m line)).2.2 := by
  refine (foldl_access timing (beginLine timing m line) _).trans ?_
  exact Cpu.foldl_traffic n c _

/-- The events of the first `k` lines of a frame. -/
def firstEvents : Nat → List Event
  | 0 => []
  | k + 1 =>
    let start := (firstLines timing c m k).2
    let line := UInt16.ofNat k
    firstEvents k ++
      lineEvents timing start.1 start.2 line (lineSteps timing start.1 start.2 line)

theorem foldl_firstEvents {k : Nat} (hk : k ≤ timing.scanlines.toNat) :
    (firstEvents timing c m k).foldl (happen timing) m = (firstLines timing c m k).2.2 := by
  induction k with
  | zero => rfl
  | succ k ih =>
    have hnext := congrArg (fun r => r.2.2) (firstLines_succ (Nat.lt_of_succ_le hk) c m)
    have hline := congrArg Prod.snd (runLine_eq_steps timing (firstLines timing c m k).2.1
      (firstLines timing c m k).2.2 (UInt16.ofNat k))
    -- The last line begins where the lines before it have led.
    rw [hnext]
    dsimp only
    rw [hline, ← foldl_lineEvents]
    unfold firstEvents
    rw [List.foldl_append, ih (Nat.le_of_succ_le hk)]

theorem mem_firstEvents_line {k : Nat} {line : Half} :
    .line line ∈ firstEvents timing c m k ↔ ∃ l < k, line = UInt16.ofNat l := by
  induction k with
  | zero => simp [firstEvents]
  | succ k ih =>
    have hlast : ∀ c' m' n, Event.line line ∈ lineEvents timing c' m' (UInt16.ofNat k) n ↔
        line = UInt16.ofNat k := by simp [lineEvents]
    unfold firstEvents
    dsimp only
    rw [List.mem_append, ih, hlast]
    constructor
    · rintro (⟨l, hl, h⟩ | h)
      · exact ⟨l, Nat.lt_succ_of_lt hl, h⟩
      · exact ⟨k, Nat.lt_succ_self k, h⟩
    · rintro ⟨l, hl, h⟩
      rcases Nat.lt_succ_iff_lt_or_eq.1 hl with hlt | rfl
      · exact .inl ⟨l, hlt, h⟩
      · exact .inr h

end Frame

variable {σ : Type} (p : Peripherals σ) (console : Console) (s : σ)

def frameEvents : List Event :=
  let keys := (p.readKeys s).1
  .keys keys :: firstEvents console.timing console.cpu (console.memory.latchKeys keys)
    console.timing.scanlines.toNat

theorem foldl_frameEvents :
    (frameEvents p console s).foldl (happen console.timing) console.memory =
      (runFrame p console s).2.1.memory := by
  refine (foldl_firstEvents console.timing console.cpu _ (Nat.le_refl _)).trans ?_
  rw [firstLines_all]
  rfl

theorem mem_frameEvents_line {line : Half} :
    .line line ∈ frameEvents p console s ↔ line < console.timing.scanlines := by
  have hkeys : Event.line line ≠ .keys (p.readKeys s).1 := by simp
  unfold frameEvents
  rw [List.mem_cons, or_iff_right hkeys, mem_firstEvents_line, UInt16.lt_iff_toNat_lt]
  constructor
  · rintro ⟨l, hl, rfl⟩
    rw [UInt16.toNat_ofNat_of_lt' (Nat.lt_trans hl (UInt16.toNat_lt _))]
    exact hl
  · intro h
    exact ⟨line.toNat, h, UInt16.ofNat_toNat.symm⟩

/-! ## 3. Frames in a row -/

/-- The console and what is attached to it after a number of frames. -/
def frames : Nat → Console × σ
  | 0 => (console, s)
  | f + 1 => (runFrame p (frames f).1 (frames f).2).2

theorem timing_frames (f : Nat) : (frames p console s f).1.timing = console.timing := by
  induction f with
  | zero => rfl
  | succ f ih => exact ih

/-- The keys read at the start of frame `f`. -/
def frameKeys (f : Nat) : Option Half := (p.readKeys (frames p console s f).2).1

/-- The processor and the memory when line `l` of frame `f` is about to begin. -/
def lineStart (f l : Nat) : Cpu × Memory :=
  let now := (frames p console s f).1
  (firstLines console.timing now.cpu (now.memory.latchKeys (frameKeys p console s f)) l).2

/-- The processor and the memory after `n` steps in line `l` of frame `f`. -/
def boundary (f l n : Nat) : Cpu × Memory :=
  let start := lineStart p console s f l
  (Cpu.steps n start.1 (beginLine console.timing start.2 (UInt16.ofNat l))).2

/-- The events of the first `f` frames. -/
def pastEvents : Nat → List Event
  | 0 => []
  | f + 1 => pastEvents f ++ frameEvents p (frames p console s f).1 (frames p console s f).2

/-- The events up to step `n` of line `l` of frame `f`. -/
def history (f l n : Nat) : List Event :=
  let now := (frames p console s f).1
  let start := lineStart p console s f l
  let keys := frameKeys p console s f
  pastEvents p console s f ++
    (.keys keys :: (firstEvents console.timing now.cpu (now.memory.latchKeys keys) l ++
      lineEvents console.timing start.1 start.2 (UInt16.ofNat l) n))

theorem foldl_pastEvents (f : Nat) :
    (pastEvents p console s f).foldl (happen console.timing) console.memory =
      (frames p console s f).1.memory := by
  induction f with
  | zero => rfl
  | succ f ih =>
    unfold pastEvents
    rw [List.foldl_append, ih, ← timing_frames p console s f]
    exact foldl_frameEvents p _ _

/-- The memory at a boundary is what the events so far have made of it. -/
theorem foldl_history (f : Nat) {l : Nat} (hl : l < console.timing.scanlines.toNat) (n : Nat) :
    (history p console s f l n).foldl (happen console.timing) console.memory =
      (boundary p console s f l n).2 := by
  unfold history
  rw [List.foldl_append, foldl_pastEvents, List.foldl_cons, List.foldl_append]
  show (lineEvents _ _ _ _ n).foldl _ ((firstEvents _ _ _ l).foldl _ (Memory.latchKeys _ _)) = _
  rw [foldl_firstEvents console.timing _ _ (Nat.le_of_lt hl)]
  exact foldl_lineEvents console.timing _ _ _ n

/-- The next line starts at a boundary of the line before it. -/
theorem lineStart_succ (f : Nat) {l : Nat} (hl : l < console.timing.scanlines.toNat) :
    lineStart p console s f (l + 1) =
      boundary p console s f l
        (lineSteps console.timing (lineStart p console s f l).1 (lineStart p console s f l).2
          (UInt16.ofNat l)) := by
  refine (congrArg Prod.snd (firstLines_succ hl _ _)).trans ?_
  exact runLine_eq_steps console.timing _ _ _

/-- A frame ends where its last line does. -/
theorem lineStart_scanlines (f : Nat) :
    (lineStart p console s f console.timing.scanlines.toNat).2 =
      (frames p console s (f + 1)).1.memory := by
  refine (congrArg (fun r => r.2.2) (firstLines_all console.timing _ _)).trans ?_
  rw [← timing_frames p console s f]
  rfl

/-! ## 4. A new console -/

/-- A console that was just built has cleared registers. -/
theorem registers_ofConfig {config : Config} {console : Console}
    (h : ofConfig config = .ok console) :
    console.memory.io = IoRegisters.initial ∧
      console.memory.interrupts = InterruptController.initial := by
  unfold ofConfig at h
  cases hrom : Memory.ofImage config.rom with
  | error e =>
    rw [hrom] at h
    cases h
  | ok m =>
    rw [hrom] at h
    obtain ⟨hio, hinterrupts⟩ := Memory.registers_ofImage hrom
    cases hbios : config.bios with
    | none =>
      rw [hbios] at h
      cases h
      exact ⟨hio, hinterrupts⟩
    | some image =>
      rw [hbios] at h
      cases hload : m.loadBios image with
      | error e =>
        simp only [hload, bind, Except.bind] at h
        cases h
      | ok m' =>
        simp only [hload, bind, Except.bind] at h
        cases h
        rw [← hio, ← hinterrupts]
        exact Memory.registers_loadBios hload

end Handheld.Console
