import Handheld.Proofs.Arm.TransferEncoding
import Handheld.Proofs.Steps
import Handheld.Proofs.Storage
import Handheld.Proofs.Thumb.Formats
import Mathlib.Data.Fintype.Card
import Mathlib.Tactic.IntervalCases

/-!
# Push and pop

A subroutine pushes the registers it is going to use, with the link register among them, and pops
them when it is done, the link register into the program counter.  The two instruction sets go about
it differently, but walk over the same words.  This file proves that the popped registers are as
they were when pushed, whatever the program has done in between, as long as the stack pointer is
back where the push left it and the words pushed are still there.
-/

namespace Handheld

namespace Cpu

variable {β : Type} [Bus β] {c d : Cpu} {bus : β} {regs : List Reg}

/-! ## 1. Steps that push and pop -/

/-- The next step pushes a list of registers, by `STMDB SP!` or by the 16-bit `PUSH`, which may add
the link register to low ones. -/
inductive Pushes (c : Cpu) (bus : β) : List Reg → Prop where
  | arm {w : Word} (h : ExecutesArm c bus w) (hw : w &&& 0x0FFF0000 = 0x092D0000) :
    Pushes c bus w.regList
  | thumb {w : Word} (h : ExecutesThumb c bus w) (hw : w &&& 0xFE00 = 0xB400) :
    Pushes c bus ((w.field 0 8).regList ++ if w.bit 8 then [.lr] else [])

/-- The next step pops a list of registers, by `LDMIA SP!` or by the 16-bit `POP`, which may add
the program counter to low ones. -/
inductive Pops (c : Cpu) (bus : β) : List Reg → Prop where
  | arm {w : Word} (h : ExecutesArm c bus w) (hw : w &&& 0x0FFF0000 = 0x08BD0000) :
    Pops c bus w.regList
  | thumb {w : Word} (h : ExecutesThumb c bus w) (hw : w &&& 0xFE00 = 0xBC00) :
    Pops c bus ((w.field 0 8).regList ++ if w.bit 8 then [.pc] else [])

/-- The lowest address of the stack after `n` more words. -/
def stackBelow (c : Cpu) (n : Nat) : Word := c.reg .sp - UInt32.ofNat (4 * n)

/-! ## 2. Push -/

/-- The list is in ascending order. -/
theorem Pushes.pairwise (h : Pushes c bus regs) : regs.Pairwise (· < ·) := by
  cases h with
  | arm h hop => exact Word.pairwise_regList _
  | @thumb op h hop =>
    cases op.bit 8 with
    | false =>
      rw [if_neg (by decide), List.append_nil]
      exact Word.pairwise_regList _
    | true => exact Word.pairwise_regList_append op (List.pairwise_singleton _ _) (by decide)

theorem Pushes.length_le (h : Pushes c bus regs) : regs.length ≤ 16 := by
  have hnodup : regs.Nodup := h.pairwise.imp fun hlt => ne_of_lt hlt
  exact hnodup.length_le_card

/-- A push fetches, moves the stack pointer and writes the registers in a row. -/
theorem Pushes.perform_eq (h : Pushes c bus regs) (hpc : .pc ∉ regs) :
    ∃ (w : Width) (a next : Word), (perform c bus).2 =
      ((c.setReg .pc next).setReg .sp (c.stackBelow regs.length),
        Bus.writeWords (w.read bus a).2 (c.stackBelow regs.length) (regs.map c.reg)) := by
  have hsp (next : Word) : (c.setReg .pc next).reg .sp = c.reg .sp :=
    reg_setReg_ne c next (by decide)
  have hreg (next : Word) : ∀ r ∈ regs, (c.setReg .pc next).reg r = c.reg r := fun r hr =>
    reg_setReg_ne c next fun heq => hpc (heq ▸ hr)
  cases h with
  | @arm op h hop =>
    refine ⟨.word, c.pc &&& ~~~3, (c.pc &&& ~~~3) + 4, ?_⟩
    rw [h.perform_eq, Arm.decode_push hop]
    show Arm.push _ _ _ _ = _
    have hvalues : op.regList.map (fun r => (c.setReg .pc ((c.pc &&& ~~~3) + 4)).operand r
        ((c.pc &&& ~~~3) + 12)) = op.regList.map c.reg :=
      List.map_congr_left fun r hr => by
        rw [operand_of_ne (fun heq => hpc (heq ▸ hr)), hreg _ r hr]
    unfold Arm.push stackBelow
    rw [hsp, hvalues]
    rfl
  | @thumb op h hop =>
    refine ⟨.half, c.pc &&& ~~~1, (c.pc &&& ~~~1) + 2, ?_⟩
    rw [h.perform_eq, Thumb.decode_push hop]
    show Thumb.push _ _ _ = _
    unfold Thumb.push stackBelow
    rw [hsp, List.map_congr_left (hreg _)]
    rfl

/-! ## 3. Pop -/

/-- The state `back` is that of `d` with the values `f` popped into the registers of a list. -/
structure Popped (d back : Cpu) (regs : List Reg) (f : Reg → Word) : Prop where
  listed : ∀ r ∈ regs, r ≠ .pc → back.reg r = f r
  target : .pc ∈ regs → back.reg .pc = if d.cpsr.thumb then f .pc &&& ~~~1 else f .pc
  sp : back.reg .sp = d.reg .sp + UInt32.ofNat (4 * regs.length)
  others : ∀ r, r ∉ regs → r ≠ .sp → r ≠ .pc → back.reg r = d.reg r
  cpsr : back.cpsr = d.cpsr
  saved : back.saved = d.saved
  banked : back.banked = d.banked

theorem popped_arm {f : Reg → Word} {next : Word} (hsp : .sp ∉ regs)
    (harm : d.cpsr.thumb = false) :
    Popped d (((d.setReg .pc next).setReg .sp
      (d.reg .sp + UInt32.ofNat (4 * regs.length))).setRegs regs (regs.map f)) regs f where
  listed _ hr _ := reg_setRegs_map hr _ f
  target hpc := by
    rw [reg_setRegs_map hpc, harm, if_neg (by decide)]
  sp := by rw [reg_setRegs_of_not_mem hsp, reg_setReg_self]
  others r hr hrsp hrpc := by
    rw [reg_setRegs_of_not_mem hr, reg_setReg_ne _ _ hrsp.symm, reg_setReg_ne _ _ hrpc.symm]
  cpsr := cpsr_setRegs _ _ _
  saved := saved_setRegs _ _ _
  banked := banked_setRegs _ _ _

theorem popped_thumb {low : List Reg} {f : Reg → Word} {next : Word}
    (hlow : ∀ r ∈ low, r.val < 8) :
    Popped d (((d.setReg .pc next).setRegs low (low.map f)).setReg .sp
      (d.reg .sp + UInt32.ofNat (4 * low.length))) low f where
  listed r hr _ := by
    have hsp : (.sp : Reg) ≠ r := fun heq => absurd (hlow r hr) (heq ▸ by decide)
    rw [reg_setReg_ne _ _ hsp, reg_setRegs_map hr]
  target hpc := absurd (hlow _ hpc) (by decide)
  sp := reg_setReg_self _ _ _
  others r hr hrsp hrpc := by
    rw [reg_setReg_ne _ _ hrsp.symm, reg_setRegs_of_not_mem hr, reg_setReg_ne _ _ hrpc.symm]
  cpsr := cpsr_setRegs _ _ _
  saved := saved_setRegs _ _ _
  banked := banked_setRegs _ _ _

theorem popped_thumb_pc {low : List Reg} {f : Reg → Word} {next : Word}
    (hlow : ∀ r ∈ low, r.val < 8) (hthumb : d.cpsr.thumb = true) :
    Popped d ((((d.setReg .pc next).setRegs low (low.map f)).setReg .pc (f .pc &&& ~~~1)).setReg .sp
      (d.reg .sp + UInt32.ofNat (4 * low.length) + 4)) (low ++ [.pc]) f where
  listed r hr hrpc := by
    have hr : r ∈ low := (List.mem_append.1 hr).resolve_right fun h => hrpc (List.mem_singleton.1 h)
    have hsp : (.sp : Reg) ≠ r := fun heq => absurd (hlow r hr) (heq ▸ by decide)
    rw [reg_setReg_ne _ _ hsp, reg_setReg_ne _ _ hrpc.symm, reg_setRegs_map hr]
  target _ := by rw [reg_setReg_ne _ _ (by decide), reg_setReg_self, hthumb, if_pos rfl]
  sp := by
    rw [reg_setReg_self, List.length_append, UInt32.add_assoc, List.length_singleton, Nat.mul_succ,
      UInt32.ofNat_add]
    rfl
  others r hr hrsp hrpc := by
    have hr : r ∉ low := fun h => hr (List.mem_append_left _ h)
    rw [reg_setReg_ne _ _ hrsp.symm, reg_setReg_ne _ _ hrpc.symm, reg_setRegs_of_not_mem hr,
      reg_setReg_ne _ _ hrpc.symm]
  cpsr := cpsr_setRegs _ _ _
  saved := saved_setRegs _ _ _
  banked := banked_setRegs _ _ _

/-- A pop finds what the words from the stack pointer on read as, one for each register. -/
theorem Pops.popped {P : β → Prop} {W : Word → Prop} (hstores : Bus.Stores P W) {f : Reg → Word}
    (h : Pops d bus regs) (hsp : .sp ∉ regs)
    (hW : ∀ i < regs.length, Bus.CoversWord W (d.reg .sp + UInt32.ofNat (4 * i)))
    (hwords : ∀ i, (hi : i < regs.length) →
      (Bus.read32 bus (d.reg .sp + UInt32.ofNat (4 * i))).1 = f regs[i]) :
    Popped d (step d bus).2.1 regs f := by
  suffices hperform : Popped d (perform d bus).2.1 regs f from
    ⟨hperform.listed, hperform.target, hperform.sp, hperform.others, hperform.cpsr, hperform.saved,
      hperform.banked⟩
  have hstart (next : Word) : (d.setReg .pc next).reg .sp = d.reg .sp :=
    reg_setReg_ne d next (by decide)
  -- The fetch does not change what is on the stack.
  have hread (w : Width) (a : Word) :
      (Bus.readWords (w.read bus a).2 (d.reg .sp) regs.length).1 = regs.map f :=
    hstores.readWords_eq_map hW fun i hi =>
      (hstores.read32_read w bus a (hW i hi)).trans (hwords i hi)
  cases h with
  | @arm op h hop =>
    have hvalues := hread .word (d.pc &&& ~~~3)
    change (Bus.readWords (Bus.read32 bus _).2 _ _).1 = _ at hvalues
    rw [h.perform_eq, Arm.decode_pop hop]
    show Popped d (Arm.pop _ _ _).1 _ f
    unfold Arm.pop
    dsimp only
    rw [hstart, hvalues]
    exact popped_arm hsp h.arm
  | @thumb op h hop =>
    have hvalues := hread .half (d.pc &&& ~~~1)
    change (Bus.readWords (Bus.read16 bus _).2 _ _).1 = _ at hvalues
    rw [h.perform_eq, Thumb.decode_pop hop]
    show Popped d (Thumb.pop _ _ _ _).1 _ f
    unfold Thumb.pop
    dsimp only
    cases hlink : op.bit 8 with
    | false =>
      rw [hlink, if_neg (by decide), List.append_nil] at hvalues
      rw [if_neg (by decide), if_neg (by decide), List.append_nil, hstart, hvalues]
      exact popped_thumb fun r => Word.val_lt_of_mem_regList_field
    | true =>
      rw [hlink, if_pos rfl, List.length_append, List.length_singleton, Bus.readWords_succ_last,
        List.map_append] at hvalues
      obtain ⟨hlow, htarget⟩ := List.append_inj' hvalues rfl
      rw [if_pos rfl, if_pos rfl, hstart, hlow, (List.cons.inj htarget).1]
      exact popped_thumb_pc (fun r => Word.val_lt_of_mem_regList_field) h.thumb

/-! ## 4. What was pushed comes back -/

/-- In `back` the registers of a list and the stack pointer are as in `c`; the other registers, the
program counter apart, and the status words and banks are as in `d`. -/
structure Restores (c d back : Cpu) (regs : List Reg) : Prop where
  listed : ∀ r ∈ regs, back.reg r = c.reg r
  sp : back.reg .sp = c.reg .sp
  others : ∀ r, r ∉ regs → r ≠ .sp → r ≠ .pc → back.reg r = d.reg r
  cpsr : back.cpsr = d.cpsr
  saved : back.saved = d.saved
  banked : back.banked = d.banked

/-- The list to pop on a return: the program counter in place of the link register. -/
def returning (regs : List Reg) : List Reg := regs.map fun r => if r = .lr then .pc else r

/-- The step from `c` pushes the registers in ascending order.  Whenever a later step pops with the
stack pointer where the push left it and the same words on the stack, a pop of the same registers
restores them, and one with the program counter in place of the link register returns to where that
pointed, in the instruction set that it is made in. -/
def PushIsUndone (c : Cpu) (bus : β) (regs : List Reg) : Prop :=
  let start := c.stackBelow regs.length
  let word (bus : β) (i : Nat) : Word := (Bus.read32 bus (start + UInt32.ofNat (4 * i))).1
  let pushed := (step c bus).2
  (regs.Pairwise (· < ·) ∧ pushed.1.reg .sp = start ∧
    ∀ i, (hi : i < regs.length) → word pushed.2 i = c.reg regs[i]) ∧
  ∀ (d : Cpu) (bus' : β) (popped : List Reg), Pops d bus' popped → d.reg .sp = start →
    (∀ i < regs.length, word bus' i = word pushed.2 i) →
    let back := (step d bus').2.1
    (popped = regs → Restores c d back regs) ∧
    (.lr ∈ regs → popped = returning regs →
      Restores c d back (regs.filter (· ≠ .lr)) ∧
        back.reg .pc = if d.cpsr.thumb then c.reg .lr &&& ~~~1 else c.reg .lr)

theorem Popped.restores {back : Cpu} (h : Popped d back regs c.reg) (hpc : .pc ∉ regs)
    (hstart : d.reg .sp = c.stackBelow regs.length) : Restores c d back regs where
  listed r hr := h.listed r hr fun heq => hpc (heq ▸ hr)
  sp := by
    rw [h.sp, hstart]
    exact UInt32.sub_add_cancel _ _
  others := h.others
  cpsr := h.cpsr
  saved := h.saved
  banked := h.banked

theorem mem_returning {r : Reg} (hr : r ≠ .pc) :
    r ∈ returning regs ↔ r ∈ regs.filter (· ≠ .lr) := by
  simp only [returning, List.mem_map, List.mem_filter, decide_eq_true_eq]
  constructor
  · rintro ⟨s, hs, rfl⟩
    by_cases hlr : s = .lr
    · rw [if_pos hlr] at hr
      exact absurd rfl hr
    · rw [if_neg hlr]
      exact ⟨hs, hlr⟩
  · rintro ⟨hmem, hlr⟩
    exact ⟨r, hmem, if_neg hlr⟩

theorem Popped.restores_returning {back : Cpu}
    (h : Popped d back (returning regs) fun r => if r = .pc then c.reg .lr else c.reg r)
    (hpc : .pc ∉ regs) (hlr : .lr ∈ regs) (hstart : d.reg .sp = c.stackBelow regs.length) :
    Restores c d back (regs.filter (· ≠ .lr)) ∧
      back.reg .pc = if d.cpsr.thumb then c.reg .lr &&& ~~~1 else c.reg .lr := by
  refine ⟨⟨fun r hr => ?_, ?_, fun r hr hrsp hrpc => ?_, h.cpsr, h.saved, h.banked⟩, ?_⟩
  · have hrpc : r ≠ .pc := fun heq => hpc (heq ▸ (List.mem_filter.1 hr).1)
    rw [h.listed r ((mem_returning hrpc).2 hr) hrpc, if_neg hrpc]
  · rw [h.sp, hstart, returning, List.length_map]
    exact UInt32.sub_add_cancel _ _
  · exact h.others r (mt (mem_returning hrpc).1 hr) hrsp hrpc
  · exact h.target (List.mem_map.2 ⟨.lr, hlr, if_pos rfl⟩)

theorem Pushes.isUndone {P : β → Prop} {W : Word → Prop} (hstores : Bus.Stores P W) (hbus : P bus)
    (h : Pushes c bus regs) (hsp : .sp ∉ regs) (hpc : .pc ∉ regs)
    (hW : ∀ i < regs.length,
      Bus.CoversWord W (c.stackBelow regs.length + UInt32.ofNat (4 * i))) :
    PushIsUndone c bus regs := by
  obtain ⟨w, a, next, hperform⟩ := h.perform_eq hpc
  have hlength := h.length_le
  have hmap : (regs.map c.reg).length = regs.length := List.length_map _
  have hlen : (regs.map c.reg).length ≤ 2 ^ 30 := by omega
  have hwords := (hstores.read32_writeWords (hstores.after_wide_read w hbus a) hlen
    (fun i hi => hW i (by omega))).1
  have hpushed : ∀ i, (hi : i < regs.length) → (Bus.read32 (step c bus).2.2
      (c.stackBelow regs.length + UInt32.ofNat (4 * i))).1 = c.reg regs[i] := fun i hi => by
    show (Bus.read32 (perform c bus).2.2 _).1 = _
    rw [hperform, hwords i (by omega), List.getElem_map]
  refine ⟨⟨h.pairwise, ?_, hpushed⟩, ?_⟩
  · show (perform c bus).2.1.reg .sp = _
    rw [hperform, reg_setReg_self]
  intro d bus' popped hpops hstart hsame back
  constructor
  · rintro rfl
    refine (hpops.popped hstores (f := c.reg) hsp ?_ ?_).restores hpc hstart
    · rw [hstart]
      exact hW
    · rw [hstart]
      exact fun i hi => (hsame i hi).trans (hpushed i hi)
  · rintro hlr rfl
    have hlength' : (returning regs).length = regs.length := List.length_map _
    refine (hpops.popped hstores ?_ ?_ ?_).restores_returning hpc hlr hstart
    · intro hmem
      exact hsp (List.mem_filter.1 ((mem_returning (by decide)).1 hmem)).1
    · rw [hlength', hstart]
      exact hW
    · intro i hi
      rw [hlength'] at hi
      have hreg : regs[i] ≠ .pc := fun heq => hpc (heq ▸ List.getElem_mem hi)
      rw [hstart]
      refine (hsame i hi).trans ((hpushed i hi).trans ?_)
      show _ = if (returning regs)[i] = .pc then c.reg .lr else c.reg (returning regs)[i]
      simp only [returning, List.getElem_map]
      by_cases hlink : regs[i] = .lr
      · rw [if_pos hlink, if_pos rfl, hlink]
      · rw [if_neg hlink, if_neg hreg]

/-- Pop undoes push, for every list without the stack pointer and the program counter and from every
stack pointer: on a flat memory whose size is a power of two and at least 64, and on the console's
memory if every word pushed goes to work RAM.  The stack pointer may have low bits set, and the
stack may go past the end of the address space. -/
theorem pop_undoes_push (c : Cpu) (regs : List Reg) (hsp : .sp ∉ regs) (hpc : .pc ∉ regs) :
    (∀ (ram : FlatRam) (k : Nat), ram.bytes.size = 2 ^ k → 64 ≤ ram.bytes.size →
      Pushes c ram regs → PushIsUndone c ram regs) ∧
    (∀ m : Memory, (∀ i < regs.length, ∃ r, (r = Region.ewram ∨ r = Region.iwram) ∧
        (c.stackBelow regs.length + UInt32.ofNat (4 * i)) >>> 24 ∈ r.topBytes) →
      Pushes c m regs → PushIsUndone c m regs) := by
  constructor
  · intro ram k hsize hfit h
    have hlength := h.length_le
    obtain ⟨W, hstores, hW⟩ := FlatRam.stores_words (c.stackBelow regs.length) (k := k)
      (n := regs.length) (by omega) (by omega)
    exact h.isUndone hstores hsize hsp hpc hW
  · intro m hram h
    have hlength := h.length_le
    obtain ⟨W, hstores, hW⟩ := Memory.stores_words (c.stackBelow regs.length) (n := regs.length)
      (by omega) fun i hi => by
        obtain ⟨r, hr, htop⟩ := hram i hi
        exact ⟨r, by rcases hr with rfl | rfl <;> rfl, htop⟩
    exact h.isUndone hstores trivial hsp hpc hW

/-- `PUSH {r4, lr}` below a stack pointer of six, undone by `POP {r4, pc}`, and the same in 16-bit
instructions on a cartridge, with the stack in fast RAM. -/
theorem pop_undoes_push_return :
    let ram : FlatRam := ⟨⟨Array.replicate 16 0 ++
      #[0x10, 0x40, 0x2D, 0xE9, 0x10, 0x80, 0xBD, 0xE8] ++ Array.replicate 40 0⟩, false, by decide⟩
    let c := initial.setRegs [4, .sp, .lr, .pc] [0xCAFE, 6, 0x101, 16]
    let d := (step c ram).2.1.setRegs [4, .lr] [0, 0]
    let back := (step d (step c ram).2.2).2.1
    let m := Memory.ofRom ⟨⟨#[0x10, 0xB5, 0x10, 0xBD]⟩, by decide, by decide⟩
    let c' := (initial.setRegs [4, .sp, .lr, .pc] [0xCAFE, 0x03000008, 0x101, 0x08000000]).setThumb
      true
    let d' := (step c' m).2.1.setRegs [4, .lr] [0, 0]
    let back' := (step d' (step c' m).2.2).2.1
    (.sp ∉ [4, Reg.lr] ∧ .pc ∉ [4, Reg.lr]) ∧
    (Pushes c ram [4, .lr] ∧ Pops d (step c ram).2.2 [4, .pc] ∧
      back.reg 4 = 0xCAFE ∧ back.reg .sp = 6 ∧ back.reg .pc = 0x101) ∧
    (Pushes c' m [4, .lr] ∧ Pops d' (step c' m).2.2 [4, .pc] ∧
      back'.reg 4 = 0xCAFE ∧ back'.reg .sp = 0x03000008 ∧ back'.reg .pc = 0x100) := by
  intro ram c d back m c' d' back'
  have hsp : (.sp : Reg) ∉ [4, .lr] := by decide
  have hpc : (.pc : Reg) ∉ [4, .lr] := by decide
  have hpush : Pushes c ram [4, .lr] :=
    .arm (w := 0xE92D4010) ⟨by decide, by decide, by decide, by decide⟩ (by decide)
  have hpop : Pops d (step c ram).2.2 [4, .pc] :=
    .arm (w := 0xE8BD8010) ⟨by decide +kernel, by decide +kernel, by decide +kernel,
      by decide +kernel⟩ (by decide)
  have hpush' : Pushes c' m [4, .lr] :=
    .thumb (w := 0xB510) ⟨by decide +kernel, by decide +kernel, by decide +kernel⟩ (by decide)
  have hpop' : Pops d' (step c' m).2.2 [4, .pc] :=
    .thumb (w := 0xBD10) ⟨by decide +kernel, by decide +kernel, by decide +kernel⟩ (by decide)
  have hram : ∀ i < [4, Reg.lr].length, ∃ r, (r = Region.ewram ∨ r = Region.iwram) ∧
      (c'.stackBelow 2 + UInt32.ofNat (4 * i)) >>> 24 ∈ r.topBytes := fun i hi =>
    ⟨.iwram, .inr rfl, by
      change i < 2 at hi
      interval_cases i <;> decide⟩
  obtain ⟨-, hundone⟩ := (pop_undoes_push c [4, .lr] hsp hpc).1 ram 6 (by decide) (by decide) hpush
  obtain ⟨hrestores, htarget⟩ := (hundone d _ [4, .pc] hpop (by decide +kernel) fun _ _ => rfl).2
    (by decide) rfl
  obtain ⟨-, hundone'⟩ := (pop_undoes_push c' [4, .lr] hsp hpc).2 m hram hpush'
  obtain ⟨hrestores', htarget'⟩ :=
    (hundone' d' _ [4, .pc] hpop' (by decide +kernel) fun _ _ => rfl).2 (by decide) rfl
  refine ⟨⟨hsp, hpc⟩, ⟨hpush, hpop, ?_, ?_, ?_⟩, hpush', hpop', ?_, ?_, ?_⟩
  · exact hrestores.listed 4 (by decide)
  · exact hrestores.sp
  · exact htarget.trans (by decide +kernel)
  · exact hrestores'.listed 4 (by decide)
  · exact hrestores'.sp
  · exact htarget'.trans (by decide +kernel)

end Cpu

end Handheld
