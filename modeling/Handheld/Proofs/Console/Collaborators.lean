import Handheld.Proofs.Console.Status

/-!
# What a frame asks of its peripherals

A frame reads the keys once before its first instruction, and after its last one it draws once and
shows what was drawn once.  Drawing and showing lead nowhere: with the same keys, processor and
memory go the same way whatever draws and shows, or if nothing does.
-/

namespace Handheld

/-! ## 1. Calls -/

/-- A source of keys, a renderer and a screen with states of their own.  Each may be missing. -/
def Peripherals.ofParts {ι ρ κ : Type} (source : Option (ι → Half × ι))
    (renderer : Option (Memory → Frame → ρ → Frame × ρ)) (screen : Option (Frame → κ → κ)) :
    Peripherals (ι × ρ × κ) where
  readKeys s :=
    match source with
    | some read => (some (read s.1).1, (read s.1).2, s.2)
    | none => (none, s)
  render memory frame s :=
    match renderer with
    | some draw => ((draw memory frame s.2.1).1, s.1, (draw memory frame s.2.1).2, s.2.2)
    | none => (frame, s)
  present frame s :=
    match screen with
    | some shows => (s.1, s.2.1, shows frame s.2.2)
    | none => s

/-- A buffer after an attempt to copy the frame into it. -/
def Frame.copied (frame : Frame) (buffer : Array Word) : Array Word :=
  match frame.copyTo buffer with
  | .ok buffer => buffer
  | .error _ => buffer

/-- A call of something attached to a console, with what went in and what came out. -/
inductive Call where
  | read (keys : Option Half)
  | render (memory : Memory) (before after : Frame)
  | present (frame : Frame)

/-- The same peripherals with a list of the calls made, the earliest first. -/
def Peripherals.logged {σ : Type} (p : Peripherals σ) : Peripherals (σ × List Call) where
  readKeys s :=
    let (keys, s') := p.readKeys s.1
    (keys, s', s.2 ++ [.read keys])
  render memory before s :=
    let (after, s') := p.render memory before s.1
    (after, s', s.2 ++ [.render memory before after])
  present frame s := (p.present frame s.1, s.2 ++ [.present frame])

namespace Frame

variable (frame : Frame) {buffer : Array Word}

theorem copyTo_of_le (h : framePixels ≤ buffer.size) :
    frame.copyTo buffer = .ok (frame.toArray ++ buffer.extract framePixels buffer.size) :=
  if_neg (Nat.not_lt.2 h)

theorem copyTo_of_lt (h : buffer.size < framePixels) :
    frame.copyTo buffer = .error (.frameTooSmall framePixels buffer.size) := if_pos h

theorem copied_of_le (h : framePixels ≤ buffer.size) :
    frame.copied buffer = frame.toArray ++ buffer.extract framePixels buffer.size := by
  unfold copied
  rw [copyTo_of_le frame h]

/-- A large enough buffer gets the frame at its front and stays as it was behind. -/
theorem getElem?_copied (h : framePixels ≤ buffer.size) (i : Nat) :
    (frame.copied buffer)[i]? = if i < framePixels then frame[i]? else buffer[i]? := by
  rw [copied_of_le frame h]
  split
  next hlt =>
    rw [Array.getElem?_append_left (by rwa [frame.size_toArray])]
    exact Vector.getElem?_toArray
  next hge =>
    rw [Array.getElem?_append_right (by rw [frame.size_toArray]; omega), frame.size_toArray,
      Array.getElem?_extract]
    have hsum : framePixels + (i - framePixels) = i := by omega
    rw [hsum]
    split
    next => rfl
    next hout => exact (Array.getElem?_eq_none (by omega)).symm

/-- A buffer that is too small stays as it was. -/
theorem copied_of_lt (h : buffer.size < framePixels) : frame.copied buffer = buffer := by
  unfold copied
  rw [copyTo_of_lt frame h]

end Frame

namespace Console

variable {σ : Type} (p : Peripherals σ) (console : Console) (s : σ)

/-- The calls of frame `f`: the keys are read, the frame is drawn over the one before from the
memory that the frame has led to, and what was drawn is shown. -/
def frameCalls (f : Nat) : List Call :=
  let now := (frames p console s f).1
  let next := (frames p console s (f + 1)).1
  [.read (frameKeys p console s f), .render next.memory now.frame next.frame, .present next.frame]

theorem runFrame_logged (log : List Call) :
    (runFrame p.logged console (s, log)).2 =
      let next := (runFrame p console s).2
      (next.1, next.2, log ++ [.read (p.readKeys s).1,
        .render next.1.memory console.frame next.1.frame, .present next.1.frame]) := by
  refine Prod.ext rfl (Prod.ext rfl ?_)
  show log ++ [_] ++ [_] ++ [_] = _
  rw [List.append_assoc, List.append_assoc]
  rfl

/-- The list changes nothing and gets the calls of each frame in turn. -/
theorem frames_logged (n : Nat) :
    frames p.logged console (s, []) n =
      ((frames p console s n).1, (frames p console s n).2,
        (List.range n).flatMap (frameCalls p console s)) := by
  induction n with
  | zero => rfl
  | succ n ih =>
    unfold frames
    rw [ih, runFrame_logged, List.range_succ, List.flatMap_append, List.flatMap_singleton]
    rfl

/-! ## 2. Moments of a frame -/

/-- What happens in a frame, down to single instructions. -/
inductive Moment where
  | read
  | line (line : Half)
  | instruction
  | render
  | present
deriving DecidableEq, Repr

/-- What a moment does to the console and its peripherals.  A frame counts when it is shown. -/
def act (p : Peripherals σ) (now : Console × σ) : Moment → Console × σ
  | .read =>
    let (keys, s) := p.readKeys now.2
    ({ now.1 with memory := now.1.memory.latchKeys keys }, s)
  | .line line => ({ now.1 with memory := beginLine now.1.timing now.1.memory line }, now.2)
  | .instruction =>
    let (_, cpu, memory) := now.1.cpu.step now.1.memory
    ({ now.1 with cpu, memory }, now.2)
  | .render =>
    let (frame, s) := p.render now.1.memory now.1.frame now.2
    ({ now.1 with frame }, s)
  | .present =>
    ({ now.1 with frameCount := now.1.frameCount + 1 }, p.present now.1.frame now.2)

/-- The first `k` lines of frame `f`, each with the instructions it has time for. -/
def lineMoments (f k : Nat) : List Moment :=
  (List.range k).flatMap fun l =>
    let start := lineStart p console s f l
    .line (UInt16.ofNat l) ::
      List.replicate (lineSteps console.timing start.1 start.2 (UInt16.ofNat l)) .instruction

/-- Frame `f` once its keys have been read, with the processor and the memory this far. -/
def within (f : Nat) (state : Cpu × Memory) : Console × σ :=
  ({ (frames p console s f).1 with cpu := state.1, memory := state.2 },
    (p.readKeys (frames p console s f).2).2)

theorem act_line (f : Nat) (state : Cpu × Memory) (line : Half) :
    act p (within p console s f state) (.line line) =
      within p console s f (state.1, beginLine console.timing state.2 line) := by
  unfold act within
  dsimp only
  rw [timing_frames]

theorem foldl_instructions (f n : Nat) (state : Cpu × Memory) :
    (List.replicate n Moment.instruction).foldl (act p) (within p console s f state) =
      within p console s f (Cpu.steps n state.1 state.2).2 := by
  induction n generalizing state with
  | zero => rfl
  | succ n ih =>
    rw [List.replicate_succ, List.foldl_cons, Cpu.steps_succ_snd]
    exact ih (state.1.step state.2).2

/-- After `k` lines it is time for line `k`. -/
theorem foldl_lineMoments (f : Nat) {k : Nat} (hk : k ≤ console.timing.scanlines.toNat) :
    (lineMoments p console s f k).foldl (act p) (act p (frames p console s f) .read) =
      within p console s f (lineStart p console s f k) := by
  unfold lineMoments
  induction k with
  | zero => rfl
  | succ k ih =>
    rw [List.range_succ, List.flatMap_append, List.flatMap_singleton, List.foldl_append,
      ih (Nat.le_of_succ_le hk), List.foldl_cons, act_line, foldl_instructions,
      lineStart_succ p console s f (Nat.lt_of_succ_le hk)]
    rfl

theorem frames_succ (f : Nat) :
    ((frames p console s (f + 1)).1.cpu, (frames p console s (f + 1)).1.memory) =
      (runLines console.timing 0 (frames p console s f).1.cpu
        ((frames p console s f).1.memory.latchKeys (frameKeys p console s f))
        console.timing.lines).2 := by
  rw [← timing_frames p console s f]
  rfl

/-- When the lines have run, processor and memory are as the frame leaves them. -/
theorem foldl_allLines (f : Nat) :
    (lineMoments p console s f console.timing.scanlines.toNat).foldl (act p)
        (act p (frames p console s f) .read) =
      within p console s f
        ((frames p console s (f + 1)).1.cpu, (frames p console s (f + 1)).1.memory) := by
  rw [foldl_lineMoments p console s f (Nat.le_refl _), frames_succ]
  exact congrArg (within p console s f) (congrArg Prod.snd (firstLines_all console.timing _ _))

/-- The moments of frame `f`: first the keys are read and last the frame is drawn and shown. -/
def frameMoments (f : Nat) : List Moment :=
  .read :: (lineMoments p console s f console.timing.scanlines.toNat ++ [.render, .present])

theorem foldl_frameMoments (f : Nat) :
    (frameMoments p console s f).foldl (act p) (frames p console s f) =
      frames p console s (f + 1) := by
  unfold frameMoments
  rw [List.foldl_cons, List.foldl_append, foldl_allLines]
  rfl

/-- Drawing finds the line counter at the last line. -/
theorem vcount_frames_succ (hlines : 1 ≤ console.timing.scanlines) (f : Nat) :
    (frames p console s (f + 1)).1.memory.io.vcount = console.timing.scanlines - 1 := by
  obtain ⟨k, hk⟩ : ∃ k, console.timing.scanlines.toNat = k + 1 :=
    Nat.exists_eq_add_one.2 (UInt16.le_iff_toNat_le.1 hlines)
  have hlast : k < console.timing.scanlines.toNat := by omega
  -- The counter is set when the last line begins, and no instruction of the line changes it.
  rw [← lineStart_scanlines, hk, lineStart_succ p console s f hlast,
    (sameStatus_boundary p console s f k _).vcount]
  show UInt16.ofNat k = _
  rw [← UInt16.toNat_inj, UInt16.toNat_sub_of_le _ _ hlines, hk]
  exact UInt16.toNat_ofNat_of_lt' (Nat.lt_trans hlast (UInt16.toNat_lt _))

theorem frameCount_frames (n : Nat) :
    (frames p console s n).1.frameCount = console.frameCount + UInt64.ofNat n := by
  induction n with
  | zero => exact (UInt64.add_zero console.frameCount).symm
  | succ n ih =>
    show (frames p console s n).1.frameCount + 1 = _
    rw [ih, UInt64.ofNat_add, UInt64.add_assoc]
    rfl

/-! ## 3. The same run without a picture -/

/-- Processor and memory depend on the keys only, whatever draws and shows. -/
theorem frames_agree {τ : Type} (p' : Peripherals τ) (s' : τ) {n : Nat}
    (hkeys : ∀ f < n, frameKeys p' console s' f = frameKeys p console s f) :
    (frames p' console s' n).1.cpu = (frames p console s n).1.cpu ∧
      (frames p' console s' n).1.memory = (frames p console s n).1.memory := by
  induction n with
  | zero => exact ⟨rfl, rfl⟩
  | succ n ih =>
    obtain ⟨hcpu, hmemory⟩ := ih fun f hf => hkeys f (Nat.lt_succ_of_lt hf)
    -- The next frame is made of processor, memory and keys.
    have hstate := frames_succ p' console s' n
    rw [hcpu, hmemory, hkeys n (Nat.lt_succ_self n), ← frames_succ] at hstate
    exact Prod.ext_iff.1 hstate

/-- They agree within a frame too. -/
theorem boundary_agree {τ : Type} (p' : Peripherals τ) (s' : τ) {f : Nat}
    (hkeys : ∀ g ≤ f, frameKeys p' console s' g = frameKeys p console s g) (l n : Nat) :
    boundary p' console s' f l n = boundary p console s f l n := by
  obtain ⟨hcpu, hmemory⟩ := frames_agree p console s p' s' fun g hg => hkeys g (Nat.le_of_lt hg)
  unfold boundary lineStart
  dsimp only
  rw [hcpu, hmemory, hkeys f (Nat.le_refl f)]

section Parts

variable {ι ρ κ : Type} (source : Option (ι → Half × ι))
  (renderer : Option (Memory → Frame → ρ → Frame × ρ)) (screen : Option (Frame → κ → κ))

/-- Of the parts only the source of keys leads on to the next keys. -/
theorem source_frames (i : ι) (r : ρ) (k : κ) (n : Nat) :
    (frames (.ofParts source renderer screen) console (i, r, k) n).2.1 =
      (fun i => (source.map fun read => (read i).2).getD i)^[n] i := by
  induction n with
  | zero => rfl
  | succ n ih =>
    rw [Function.iterate_succ_apply', ← ih]
    -- Whichever parts are there, drawing and showing leave the source alone.
    cases source <;> cases renderer <;> cases screen <;> rfl

theorem frameKeys_ofParts (i : ι) (r : ρ) (k : κ) (f : Nat) :
    frameKeys (.ofParts source renderer screen) console (i, r, k) f =
      source.map fun read =>
        (read ((fun i => (source.map fun read => (read i).2).getD i)^[f] i)).1 := by
  rw [← source_frames console source renderer screen i r k f]
  cases source <;> rfl

end Parts

/-! ## 4. Every frame, once and in order -/

/-- In `n` frames the keys are read, the frame is drawn and shown `n` times each: the keys before
the first instruction of the frame, drawing after the last one, with the line counter at the last
line, over the frame before, and what is shown is what was drawn.  The last frame can be copied out.
Nothing of this but the keys makes a difference to processor and memory. -/
theorem frames_collaborators (hlines : 1 ≤ console.timing.scanlines) (n : Nat) :
    frames p.logged console (s, []) n =
      ((frames p console s n).1, (frames p console s n).2,
        (List.range n).flatMap (frameCalls p console s)) ∧
    (∀ f, (frameMoments p console s f).foldl (act p) (frames p console s f) =
      frames p console s (f + 1)) ∧
    (∀ f, (frames p console s (f + 1)).1.memory.io.vcount = console.timing.scanlines - 1 ∧
      (frames p console s (f + 1)).1.frame.toArray.size = 38400) ∧
    (frames p console s n).1.frameCount = console.frameCount + UInt64.ofNat n ∧
    (∀ buffer : Array Word,
      let frame := (frames p console s n).1.frame
      (38400 ≤ buffer.size → frame.copyTo buffer = .ok (frame.copied buffer) ∧
        ∀ i, (frame.copied buffer)[i]? = if i < 38400 then frame[i]? else buffer[i]?) ∧
      (buffer.size < 38400 → frame.copyTo buffer = .error (.frameTooSmall 38400 buffer.size) ∧
        frame.copied buffer = buffer)) ∧
    (∀ (τ : Type) (p' : Peripherals τ) (s' : τ),
      (∀ f ≤ n, frameKeys p' console s' f = frameKeys p console s f) →
        (frames p' console s' n).1.cpu = (frames p console s n).1.cpu ∧
        (frames p' console s' n).1.memory = (frames p console s n).1.memory ∧
        ∀ l k, boundary p' console s' n l k = boundary p console s n l k) ∧
    (∀ (ι ρ κ : Type) (source : Option (ι → Half × ι))
      (renderer : Option (Memory → Frame → ρ → Frame × ρ)) (screen : Option (Frame → κ → κ))
      (i : ι) (r : ρ) (k : κ),
      let watched := frames (.ofParts source renderer screen) console (i, r, k) n
      let unwatched := frames (.ofParts source none none) console (i, r, k) n
      watched.1.cpu = unwatched.1.cpu ∧ watched.1.memory = unwatched.1.memory) := by
  refine ⟨frames_logged p console s n, foldl_frameMoments p console s,
    fun f => ⟨vcount_frames_succ p console s hlines f, Vector.size_toArray _⟩,
    frameCount_frames p console s n, fun buffer => ⟨fun h => ?_, fun h => ?_⟩,
    fun τ p' s' hkeys => ?_, fun ι ρ κ source renderer screen i r k => ?_⟩
  · exact ⟨Frame.copied_of_le _ h ▸ Frame.copyTo_of_le _ h, Frame.getElem?_copied _ h⟩
  · exact ⟨Frame.copyTo_of_lt _ h, Frame.copied_of_lt _ h⟩
  · obtain ⟨hcpu, hmemory⟩ := frames_agree p console s p' s' fun f hf => hkeys f (Nat.le_of_lt hf)
    exact ⟨hcpu, hmemory, boundary_agree p console s p' s' hkeys⟩
  · refine frames_agree _ console _ _ _ fun f _ => ?_
    rw [frameKeys_ofParts, frameKeys_ofParts]

/-- Two frames of two lines each. -/
theorem frames_collaborators_twoLines :
    let console : Console :=
      { cpu := Cpu.reset Config.romEntry false
        memory := Memory.ofRom ⟨⟨#[0xFE, 0xFF, 0xFF, 0xEA]⟩, by decide, by decide⟩
        timing := ⟨2, 1, 16⟩
        frame := Frame.blank
        frameCount := 0 }
    let keypad : Peripherals Unit := ⟨fun s => (some 0x03FE, s), fun _ f s => (f, s), fun _ s => s⟩
    1 ≤ console.timing.scanlines ∧
      (frames keypad.logged console ((), []) 2).2.2 =
        (List.range 2).flatMap (frameCalls keypad console ()) ∧
      (frames keypad console () 2).1.memory.io.vcount = 1 ∧
      (frames keypad console () 2).1.frameCount = 2 := by
  intro console keypad
  have hlines : 1 ≤ console.timing.scanlines := by decide
  obtain ⟨hcalls, -, hlast, hcount, -⟩ := frames_collaborators keypad console () hlines 2
  exact ⟨hlines, congrArg (fun r => r.2.2) hcalls, (hlast 1).1.trans (by decide), hcount⟩

end Console

end Handheld
