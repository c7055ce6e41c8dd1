import Handheld.Proofs.Arm.IndexedTransfer
import Handheld.Proofs.Footprint
import Handheld.Proofs.SameBut
import Handheld.Proofs.Stack

/-!
# What a memory instruction reaches

A load or store names what it may change: the registers it loads and the base it moves, and a run of
bytes for each access.  Everything else of the processor is left alone, the status words and the
stored pairs first of all, and no other byte is read or written.  This file takes down what each
instruction of the two sets names and proves that it does no more.
-/

namespace Handheld

/-- The live registers that an instruction may change, and the bytes that it reads and writes in the
order in which it does. -/
structure Reach where
  registers : List Reg
  memory : List Place
deriving DecidableEq, Repr

/-- On every bus a run from `c` changes no more of the processor, and its accesses are to these
places. -/
structure Reach.Bounds (x : Reach) (c : Cpu) (run : ∀ {β : Type} [Bus β], β → Cpu × β) : Prop where
  registers {β : Type} [Bus β] (bus : β) : c.SameBut x.registers (run bus).1
  memory {β : Type} [Bus β] (bus : β) :
    (run (Recorded.start bus)).2.accesses.map Access.place = x.memory

theorem Reach.Bounds.of_touches {x : Reach} {c : Cpu} {run : ∀ {β : Type} [Bus β], β → Cpu × β}
    (hregisters : ∀ {β : Type} [Bus β] (bus : β), c.SameBut x.registers (run bus).1)
    (hmemory : ∀ {β : Type} [Bus β] (r : Recorded β), r.Touches (run r).2 x.memory) :
    x.Bounds c run :=
  ⟨hregisters, fun bus => (hmemory (Recorded.start bus)).places_accesses⟩

variable {β : Type} [Bus β]

/-! ## 1. The 32-bit instructions -/

namespace Arm

namespace Transfer

/-- The bytes of a transfer to or from an address; a pair is two words in a row. -/
def places (t : Transfer) (target : Word) : List Place :=
  match t.move with
  | .load kind => kind.width.places .read target
  | .store kind => kind.width.places .write target
  | .loadPair => Place.words .read target 2
  | .storePair => Place.words .write target 2

/-- The base is written if it is written back, and so is what is loaded. -/
def written (t : Transfer) : List Reg := if t.writeBack then t.base :: t.loaded else t.loaded

theorem sameBut_execute (t : Transfer) (c : Cpu) (bus : β) (address : Word) :
    c.SameBut t.written (t.execute c bus address).1 := by
  rw [execute_eq_exchange]
  unfold written
  cases t.writeBack with
  | false => exact (Cpu.SameBut.refl _ c).setRegs (List.Subset.refl _) _
  | true =>
    exact ((Cpu.SameBut.refl _ c).setReg List.mem_cons_self _).setRegs (List.subset_cons_self _ _) _

theorem touches_execute (t : Transfer) (c : Cpu) (r : Recorded β) (address : Word) :
    r.Touches (t.execute c r address).2 (t.places (t.target c address)) := by
  unfold execute places
  cases t.move with
  | load kind => exact r.touches_load kind _
  | store kind => exact r.touches_store kind _ _
  | loadPair => exact r.touches_readWords _ 2
  | storePair =>
    exact r.touches_writeWords _ [c.operand t.data.even (address + 12),
      c.operand t.data.odd (address + 12)]

end Transfer

/-- What a memory instruction at `address` reaches from the state `c`. -/
def Instruction.reach? (i : Instruction) (c : Cpu) (address : Word) : Option Reach :=
  match i with
  | .transfer t => some ⟨t.written, t.places (t.target c address)⟩
  | .swap byte dest _ base =>
    let width : Width := if byte then .byte else .word
    some ⟨[dest], width.places .read (c.reg base) ++ width.places .write (c.reg base)⟩
  | .push regs =>
    some ⟨[.sp],
      Place.words .write (c.reg .sp - UInt32.ofNat (4 * regs.length)) regs.length⟩
  | .pop regs => some ⟨.sp :: regs, Place.words .read (c.reg .sp) regs.length⟩
  | _ => none

theorem sameBut_swap (c : Cpu) (bus : β) (byte : Bool) (dest source base : Reg) :
    c.SameBut [dest] (swap c bus byte dest source base).1 := by
  unfold swap
  cases byte <;> exact (Cpu.SameBut.refl _ c).setReg List.mem_cons_self _

/-- An instruction that reaches something reaches nothing else. -/
theorem bounds_execute {i : Instruction} {x : Reach} {c : Cpu} {address : Word}
    (h : i.reach? c address = some x) : x.Bounds c fun bus => execute i c bus address := by
  have hsame (rs : List Reg) : c.SameBut rs c := .refl rs c
  cases i with
  | transfer t =>
    cases h
    exact .of_touches (fun bus => t.sameBut_execute c bus address)
      fun r => t.touches_execute c r address
  | swap byte dest source base =>
    cases h
    refine .of_touches (fun bus => sameBut_swap c bus byte dest source base) fun r => ?_
    cases byte with
    | true => exact (r.touches_read .byte _).trans (Recorded.touches_write _ .byte _ _)
    | false => exact (r.touches_read .word _).trans (Recorded.touches_write _ .word _ _)
  | push regs =>
    cases h
    refine .of_touches (fun bus => (hsame _).setReg List.mem_cons_self _) fun r => ?_
    have hwrites := r.touches_writeWords (c.reg .sp - UInt32.ofNat (4 * regs.length))
      (regs.map fun r => c.operand r (address + 12))
    rwa [List.length_map] at hwrites
  | pop regs =>
    cases h
    exact .of_touches
      (fun bus => ((hsame _).setReg List.mem_cons_self _).setRegs (List.subset_cons_self _ _) _)
      fun r => r.touches_readWords _ _
  | _ => cases h

/-- The opcode moves data between registers and memory: a transfer, a swap, or the block move that
pushes or pops. -/
def IsMove (w : Word) : Prop :=
  IsTransfer w ∨ w &&& 0x0FB00FF0 = 0x01000090 ∨ w &&& 0x0FFF0000 = 0x092D0000 ∨
    w &&& 0x0FFF0000 = 0x08BD0000

theorem exists_reach {w : Word} (h : IsMove w) (c : Cpu) (address : Word) :
    ∃ x, (decode w).reach? c address = some x := by
  rcases h with h | h | h | h
  · obtain ⟨t, ⟨hw, -⟩, -⟩ := decode_unindexed h
    rw [hw]
    exact ⟨_, rfl⟩
  · rw [decode_eq_swap h]
    exact ⟨_, rfl⟩
  · rw [decode_push h]
    exact ⟨_, rfl⟩
  · rw [decode_pop h]
    exact ⟨_, rfl⟩

end Arm

/-! ## 2. The 16-bit instructions -/

namespace Thumb

/-- What a memory instruction at `address` reaches from the state `c`. -/
def Instruction.reach? (i : Instruction) (c : Cpu) (address : Word) : Option Reach :=
  match i with
  | .loadLiteral dest offset =>
    some ⟨[dest], Width.word.places .read (((address + 4) &&& ~~~3) + offset)⟩
  | .load kind dest base offset =>
    some ⟨[dest], kind.width.places .read (c.reg base + offset.value c)⟩
  | .store kind _ base offset =>
    some ⟨[], kind.width.places .write (c.reg base + offset.value c)⟩
  | .push regs =>
    some ⟨[.sp],
      Place.words .write (c.reg .sp - UInt32.ofNat (4 * regs.length)) regs.length⟩
  | .pop regs false => some ⟨.sp :: regs, Place.words .read (c.reg .sp) regs.length⟩
  | .pop regs true => some ⟨.sp :: .pc :: regs, Place.words .read (c.reg .sp) (regs.length + 1)⟩
  | .storeMultiple base regs => some ⟨[base], Place.words .write (c.reg base) regs.length⟩
  | .loadMultiple base regs => some ⟨base :: regs, Place.words .read (c.reg base) regs.length⟩
  | _ => none

theorem sameBut_loadMultiple (c : Cpu) (bus : β) (base : Reg) (regs : List Reg) :
    c.SameBut (base :: regs) (loadMultiple c bus base regs).1 := by
  have hloaded := (Cpu.SameBut.refl (base :: regs) c).setRegs (List.subset_cons_self _ _)
    (Bus.readWords bus (c.reg base) regs.length).1
  unfold loadMultiple
  cases hmem : regs.contains base with
  | true => exact hloaded
  | false => exact hloaded.setReg List.mem_cons_self _

theorem touches_loadMultiple (c : Cpu) (r : Recorded β) (base : Reg) (regs : List Reg) :
    r.Touches (loadMultiple c r base regs).2 (Place.words .read (c.reg base) regs.length) := by
  have hreads := r.touches_readWords (c.reg base) regs.length
  unfold loadMultiple
  cases hmem : regs.contains base <;> exact hreads

theorem sameBut_pop (c : Cpu) (bus : β) (regs : List Reg) :
    c.SameBut (.sp :: .pc :: regs) (pop c bus regs true).1 := by
  have hsub : regs ⊆ .sp :: .pc :: regs := fun _ hr => List.mem_cons_of_mem _ (.tail _ hr)
  exact (((Cpu.SameBut.refl _ c).setRegs hsub _).setReg (List.mem_cons_of_mem _ List.mem_cons_self)
    _).setReg List.mem_cons_self _

/-- The program counter is popped from the word beyond the others. -/
theorem touches_pop (c : Cpu) (r : Recorded β) (regs : List Reg) :
    r.Touches (pop c r regs true).2 (Place.words .read (c.reg .sp) (regs.length + 1)) := by
  have hreads := r.touches_readWords (c.reg .sp) (regs.length + 1)
  rwa [Bus.readWords_succ_last] at hreads

/-- An instruction that reaches something reaches nothing else. -/
theorem bounds_execute {i : Instruction} {x : Reach} {c : Cpu} {address : Word}
    (h : i.reach? c address = some x) : x.Bounds c fun bus => execute i c bus address := by
  have hsame (rs : List Reg) : c.SameBut rs c := .refl rs c
  cases i with
  | loadLiteral dest offset =>
    cases h
    exact .of_touches (fun bus => (hsame _).setReg List.mem_cons_self _)
      fun r => r.touches_read .word _
  | load kind dest base offset =>
    cases h
    exact .of_touches (fun bus => (hsame _).setReg List.mem_cons_self _)
      fun r => r.touches_load kind _
  | store kind data base offset =>
    cases h
    exact .of_touches (fun bus => hsame _) fun r => r.touches_store kind _ _
  | push regs =>
    cases h
    refine .of_touches (fun bus => (hsame _).setReg List.mem_cons_self _) fun r => ?_
    have hwrites := r.touches_writeWords (c.reg .sp - UInt32.ofNat (4 * regs.length))
      (regs.map c.reg)
    rwa [List.length_map] at hwrites
  | pop regs withPc =>
    cases withPc with
    | false =>
      cases h
      exact .of_touches
        (fun bus => ((hsame _).setRegs (List.subset_cons_self _ _) _).setReg List.mem_cons_self _)
        fun r => r.touches_readWords _ _
    | true =>
      cases h
      exact .of_touches (fun bus => sameBut_pop c bus regs) fun r => touches_pop c r regs
  | storeMultiple base regs =>
    cases h
    refine .of_touches (fun bus => (hsame _).setReg List.mem_cons_self _) fun r => ?_
    have hwrites := r.touches_writeWords (c.reg base) (regs.map c.reg)
    rwa [List.length_map] at hwrites
  | loadMultiple base regs =>
    cases h
    exact .of_touches (fun bus => sameBut_loadMultiple c bus base regs)
      fun r => touches_loadMultiple c r base regs
  | _ => cases h

theorem exists_reach {w : Word} (h : IsMove w) (c : Cpu) (address : Word) :
    ∃ x, (decode w).reach? c address = some x := by
  obtain ⟨i, hi⟩ := exists_moves h
  rw [hi.decode_eq]
  cases hi with
  | pop => cases w.bit 8 <;> exact ⟨_, rfl⟩
  | _ => exact ⟨_, rfl⟩

end Thumb

/-! ## 3. Both sets -/

/-- Every memory instruction of either set changes no register but those it loads and the base it
moves, and neither the status words nor a stored pair; it reads or writes the bytes of its access
from the aligned address on, and a swap reads them all before it writes them. -/
theorem execute_within_reach (op : Word) (c : Cpu) (address : Word) :
    (Arm.IsMove op → ∃ x, (Arm.decode op).reach? c address = some x ∧
      x.Bounds c fun bus => Arm.execute (Arm.decode op) c bus address) ∧
    (Thumb.IsMove op → ∃ x, (Thumb.decode op).reach? c address = some x ∧
      x.Bounds c fun bus => Thumb.execute (Thumb.decode op) c bus address) := by
  constructor
  · intro h
    obtain ⟨x, hx⟩ := Arm.exists_reach h c address
    exact ⟨x, hx, Arm.bounds_execute hx⟩
  · intro h
    obtain ⟨x, hx⟩ := Thumb.exists_reach h c address
    exact ⟨x, hx, Thumb.bounds_execute hx⟩

/-- `LDR r3, [r0, r1, LSR #1]` keeps the carry that its shift would clear and reads one word;
`SWPB r3, r3, [r0]` reads a byte and writes it; `POP {r0, pc}` reads two words. -/
theorem execute_within_reach_samples :
    let c := (Cpu.initial.setRegs [0, 1, .sp] [0x11, 4, 0x1E]).setFlag Psr.carry true
    let ram := FlatRam.zeros 64
    (Arm.decode 0xE79030A1).reach? c 0 = some ⟨[3], Width.word.places .read 0x13⟩ ∧
    c.SameBut [3] (Arm.execute (Arm.decode 0xE79030A1) c ram 0).1 ∧
    (Arm.execute (Arm.decode 0xE1403093) c (Recorded.start ram) 0).2.accesses.map Access.place =
      [.read 0x11, .write 0x11] ∧
    (Thumb.execute (Thumb.decode 0xBD01) c (Recorded.start ram) 0).2.accesses.map Access.place =
      Place.run .read 0x1C 8 := by
  intro c ram
  have hload : Arm.IsMove 0xE79030A1 := .inl (.inl ⟨by decide, .inr (by decide)⟩)
  have hswap : Arm.IsMove 0xE1403093 := .inr (.inl (by decide))
  have hpop : Thumb.IsMove 0xBD01 := .inr (.inr (.inr (.inr (.inr (.inl (by decide))))))
  obtain ⟨x, hx, hbounds⟩ := (execute_within_reach 0xE79030A1 c 0).1 hload
  obtain ⟨y, hy, hyBounds⟩ := (execute_within_reach 0xE1403093 c 0).1 hswap
  obtain ⟨z, hz, hzBounds⟩ := (execute_within_reach 0xBD01 c 0).2 hpop
  have hx' : x = ⟨[3], Width.word.places .read 0x13⟩ := Option.some.inj (hx.symm.trans (by decide))
  have hy' : y = ⟨[3], [.read 0x11, .write 0x11]⟩ := Option.some.inj (hy.symm.trans (by decide))
  have hz' : z = ⟨[.sp, .pc, 0], Place.run .read 0x1C 8⟩ :=
    Option.some.inj (hz.symm.trans (by decide))
  subst hx' hy' hz'
  exact ⟨hx, hbounds.registers ram, hyBounds.memory ram, hzBounds.memory ram⟩

end Handheld
