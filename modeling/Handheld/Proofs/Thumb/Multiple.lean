import Handheld.Proofs.Arm.RegList
import Handheld.Proofs.Steps
import Handheld.Proofs.Storage
import Handheld.Proofs.Thumb.Counterpart
import Handheld.Proofs.Thumb.Formats

/-!
# Multiple stores and loads

`STMIA` stores low registers upwards from a base register and moves the base beyond them; `LDMIA`
loads them again.  The base may be one of them: it is stored as it was before it moves, and a loaded
base wins over the moved one.  This file proves that the load undoes the store on a flat memory, and
that the store touches nothing else.
-/

namespace Handheld.Cpu

variable {c d : Cpu} {base : Reg} {regs : List Reg}

section Steps

variable {β : Type} [Bus β] {bus : β}

/-! ## 1. The two steps -/

/-- The next step is `STMIA base!, {regs}`. -/
inductive StoresUpwards (c : Cpu) (bus : β) : Reg → List Reg → Prop where
  | intro {w : Word} (h : ExecutesThumb c bus w) (hw : w &&& 0xF800 = 0xC000) :
    StoresUpwards c bus (w.lowReg 8) (w.field 0 8).regList

/-- The next step is `LDMIA base!, {regs}`. -/
inductive LoadsUpwards (c : Cpu) (bus : β) : Reg → List Reg → Prop where
  | intro {w : Word} (h : ExecutesThumb c bus w) (hw : w &&& 0xF800 = 0xC800) :
    LoadsUpwards c bus (w.lowReg 8) (w.field 0 8).regList

/-- The registers are low ones in ascending order, and the base is a low register. -/
structure IsLow (base : Reg) (regs : List Reg) : Prop where
  base_lt : base.val < 8
  pairwise : regs.Pairwise (· < ·)
  lt : ∀ r ∈ regs, r.val < 8
  length_le : regs.length ≤ 8

theorem isLow_fields (w : Word) : IsLow (w.lowReg 8) (w.field 0 8).regList where
  base_lt := Word.val_lowReg_lt w 8
  pairwise := Word.pairwise_regList _
  lt _ := Word.val_lt_of_mem_regList_field
  length_le := Word.length_regList_field_le w

theorem StoresUpwards.isLow (h : StoresUpwards c bus base regs) : IsLow base regs := by
  cases h with
  | intro h hw => exact isLow_fields _

theorem IsLow.reg_setReg_pc (h : IsLow base regs) (c : Cpu) (next : Word) :
    (c.setReg .pc next).reg base = c.reg base ∧
      ∀ r ∈ regs, (c.setReg .pc next).reg r = c.reg r := by
  constructor
  · exact reg_setReg_ne c next (Thumb.ne_pc_of_lt h.base_lt).symm
  · exact fun r hr => reg_setReg_ne c next (Thumb.ne_pc_of_lt (h.lt r hr)).symm

theorem StoresUpwards.perform_eq (h : StoresUpwards c bus base regs) :
    ∃ a next, (perform c bus).2 =
      ((c.setReg .pc next).setReg base (c.reg base + UInt32.ofNat (4 * regs.length)),
        Bus.writeWords (Bus.read16 bus a).2 (c.reg base) (regs.map c.reg)) := by
  obtain ⟨hbase, hregs⟩ := h.isLow.reg_setReg_pc c ((c.pc &&& ~~~1) + 2)
  cases h with
  | @intro w h hw =>
    have hstore : w.bit 11 = false := Word.bit_eq_of_and_eq hw (by decide)
    refine ⟨c.pc &&& ~~~1, (c.pc &&& ~~~1) + 2, ?_⟩
    rw [h.perform_eq, Thumb.decode_eq_multiple (Word.field_eq_of_and_eq hw 12 4 rfl), hstore,
      if_neg (by decide)]
    show Thumb.storeMultiple _ _ _ _ = _
    unfold Thumb.storeMultiple
    rw [hbase, List.map_congr_left hregs]

/-- A store moves the base beyond the words and changes no other register. -/
theorem StoresUpwards.step_eq (h : StoresUpwards c bus base regs) :
    let stored := (step c bus).2.1
    stored.reg base = c.reg base + UInt32.ofNat (4 * regs.length) ∧
      (∀ r, r ≠ base → r ≠ .pc → stored.reg r = c.reg r) ∧ stored.cpsr = c.cpsr := by
  obtain ⟨a, next, hperform⟩ := h.perform_eq
  intro stored
  have hreg (r : Reg) : stored.reg r = (perform c bus).2.1.reg r := rfl
  have hcpsr : stored.cpsr = (perform c bus).2.1.cpsr := rfl
  rw [hperform] at hreg hcpsr
  refine ⟨?_, fun r hbase hpc => ?_, hcpsr⟩
  · rw [hreg, reg_setReg_self]
  · rw [hreg, reg_setReg_ne _ _ hbase.symm, reg_setReg_ne _ _ hpc.symm]

theorem LoadsUpwards.perform_eq {P : β → Prop} {W : Word → Prop} (hstores : Bus.Stores P W)
    (h : LoadsUpwards d bus base regs) {f : Reg → Word}
    (hW : ∀ i < regs.length, Bus.CoversWord W (d.reg base + UInt32.ofNat (4 * i)))
    (hwords : ∀ i, (hi : i < regs.length) →
      (Bus.read32 bus (d.reg base + UInt32.ofNat (4 * i))).1 = f regs[i]) :
    ∃ next, (perform d bus).2.1 =
      if base ∈ regs then (d.setReg .pc next).setRegs regs (regs.map f)
      else ((d.setReg .pc next).setRegs regs (regs.map f)).setReg base
        (d.reg base + UInt32.ofNat (4 * regs.length)) := by
  -- The fetch does not change what is loaded.
  have hafter : ∀ i, (hi : i < regs.length) →
      (Bus.read32 (Bus.read16 bus (d.pc &&& ~~~1)).2 (d.reg base + UInt32.ofNat (4 * i))).1 =
        f regs[i] :=
    fun i hi => (hstores.read32_read .half bus _ (hW i hi)).trans (hwords i hi)
  have hvalues := hstores.readWords_eq_map hW hafter
  cases h with
  | @intro w h hw =>
    have hload : w.bit 11 = true := Word.bit_eq_of_and_eq hw (by decide)
    have hbase := ((isLow_fields w).reg_setReg_pc d ((d.pc &&& ~~~1) + 2)).1
    refine ⟨(d.pc &&& ~~~1) + 2, ?_⟩
    rw [h.perform_eq, Thumb.decode_eq_multiple (Word.field_eq_of_and_eq hw 12 4 rfl), hload,
      if_pos rfl]
    show (Thumb.loadMultiple _ _ _ _).1 = _
    unfold Thumb.loadMultiple
    dsimp only
    rw [hbase, hvalues]
    by_cases hmem : w.lowReg 8 ∈ (w.field 0 8).regList
    · rw [if_pos (List.contains_iff_mem.2 hmem), if_pos hmem]
    · rw [if_neg (mt List.contains_iff_mem.1 hmem), if_neg hmem]

/-- A load gives each register the word that goes with it; the base moves unless it is one of
them. -/
theorem LoadsUpwards.step_eq {P : β → Prop} {W : Word → Prop} (hstores : Bus.Stores P W)
    (h : LoadsUpwards d bus base regs) {f : Reg → Word}
    (hW : ∀ i < regs.length, Bus.CoversWord W (d.reg base + UInt32.ofNat (4 * i)))
    (hwords : ∀ i, (hi : i < regs.length) →
      (Bus.read32 bus (d.reg base + UInt32.ofNat (4 * i))).1 = f regs[i]) :
    let back := (step d bus).2.1
    (∀ r ∈ regs, back.reg r = f r) ∧
      (base ∉ regs → back.reg base = d.reg base + UInt32.ofNat (4 * regs.length)) ∧
      (∀ r, r ∉ regs → r ≠ base → r ≠ .pc → back.reg r = d.reg r) ∧ back.cpsr = d.cpsr := by
  obtain ⟨next, hperform⟩ := h.perform_eq hstores hW hwords
  intro back
  have hreg (r : Reg) : back.reg r = (perform d bus).2.1.reg r := rfl
  have hcpsr : back.cpsr = (perform d bus).2.1.cpsr := rfl
  rw [hperform] at hreg hcpsr
  by_cases hmem : base ∈ regs
  · simp only [if_pos hmem] at hreg hcpsr
    refine ⟨fun r hr => ?_, fun hbase => absurd hmem hbase, fun r hr _ hpc => ?_, ?_⟩
    · rw [hreg, reg_setRegs_map hr]
    · rw [hreg, reg_setRegs_of_not_mem hr, reg_setReg_ne _ _ hpc.symm]
    · rw [hcpsr, cpsr_setRegs, cpsr_setReg]
  · simp only [if_neg hmem] at hreg hcpsr
    refine ⟨fun r hr => ?_, fun _ => ?_, fun r hr hbase hpc => ?_, ?_⟩
    · have hne : base ≠ r := fun heq => hmem (heq ▸ hr)
      rw [hreg, reg_setReg_ne _ _ hne, reg_setRegs_map hr]
    · rw [hreg, reg_setReg_self]
    · rw [hreg, reg_setReg_ne _ _ hbase.symm, reg_setRegs_of_not_mem hr,
        reg_setReg_ne _ _ hpc.symm]
    · rw [hcpsr, cpsr_setReg, cpsr_setRegs, cpsr_setReg]

end Steps

/-! ## 2. The load undoes the store -/

theorem StoresUpwards.read32_step {ram : FlatRam} {k : Nat} {W : Word → Prop}
    (hstores : Bus.Stores (fun ram : FlatRam => ram.bytes.size = 2 ^ k) W)
    (hsize : ram.bytes.size = 2 ^ k) (h : StoresUpwards c ram base regs)
    (hW : ∀ i < regs.length, Bus.CoversWord W (c.reg base + UInt32.ofNat (4 * i))) :
    ∀ i, (hi : i < regs.length) →
      (Bus.read32 (step c ram).2.2 (c.reg base + UInt32.ofNat (4 * i))).1 = c.reg regs[i] := by
  obtain ⟨a, next, hperform⟩ := h.perform_eq
  have hlength := h.isLow.length_le
  have hmap : (regs.map c.reg).length = regs.length := List.length_map _
  have hlen : (regs.map c.reg).length ≤ 2 ^ 30 := by omega
  have hwords := (hstores.read32_writeWords (hstores.after_wide_read .half hsize a) hlen
    fun i hi => hW i (by omega)).1
  intro i hi
  show (Bus.read32 (perform c ram).2.2 _).1 = _
  rw [hperform]
  exact (hwords i (by omega)).trans (List.getElem_map _)

/-- On a flat memory whose size is a power of two and at least 32, a store of low registers puts
their values, the base's among them, into ascending words from the base on, and changes no other
byte; the base ends beyond the words.  A load of the same registers from the same base, with those
words as they were left, gives all of them their values back, and moves the base only if it is not
one of them.  Neither changes another register than the program counter, or the status word. -/
theorem load_undoes_store {ram : FlatRam} {k : Nat} (hsize : ram.bytes.size = 2 ^ k)
    (hfit : 32 ≤ ram.bytes.size) (h : StoresUpwards c ram base regs) :
    let start := c.reg base
    let beyond := start + UInt32.ofNat (4 * regs.length)
    let word (ram : FlatRam) (i : Nat) : Word := (Bus.read32 ram (start + UInt32.ofNat (4 * i))).1
    let stored := (step c ram).2
    (regs.Pairwise (· < ·) ∧ ∀ i, (hi : i < regs.length) → word stored.2 i = c.reg regs[i]) ∧
    (stored.2.bytes.size = ram.bytes.size ∧
      ∀ n : Nat, (∀ i < regs.length, ∀ j < 4,
        n ≠ ram.index (Width.word.address (start + UInt32.ofNat (4 * i)) j)) →
        stored.2.bytes.data[n]? = ram.bytes.data[n]?) ∧
    (stored.1.reg base = beyond ∧ (∀ r, r ≠ base → r ≠ .pc → stored.1.reg r = c.reg r) ∧
      stored.1.cpsr = c.cpsr) ∧
    ∀ (d : Cpu) (ram' : FlatRam), LoadsUpwards d ram' base regs → d.reg base = start →
      (∀ i < regs.length, word ram' i = word stored.2 i) →
      let back := (step d ram').2.1
      (∀ r ∈ regs, back.reg r = c.reg r) ∧
        back.reg base = (if base ∈ regs then start else beyond) ∧
        (∀ r, r ∉ regs → r ≠ base → r ≠ .pc → back.reg r = d.reg r) ∧ back.cpsr = d.cpsr := by
  intro start beyond word stored
  have hlow := h.isLow
  have hlength := hlow.length_le
  obtain ⟨W, hstores, hW⟩ := FlatRam.stores_words start (k := k) (n := regs.length) (by omega)
    (by omega)
  have hstored := h.read32_step hstores hsize hW
  obtain ⟨a, next, hperform⟩ := h.perform_eq
  have hram : stored.2 = Bus.writeWords ram start (regs.map c.reg) := congrArg Prod.snd hperform
  refine ⟨⟨hlow.pairwise, hstored⟩, ⟨?_, fun n hn => ?_⟩, h.step_eq, ?_⟩
  · rw [hram, FlatRam.size_writeWords]
  · rw [hram, FlatRam.getElem?_writeWords_of_ne]
    exact fun i hi => hn i (by rwa [List.length_map] at hi)
  intro d ram' hload hbase hsame back
  have hW' : ∀ i < regs.length, Bus.CoversWord W (d.reg base + UInt32.ofNat (4 * i)) := by
    rw [hbase]
    exact hW
  obtain ⟨hregs, hmoved, hothers, hcpsr⟩ := hload.step_eq hstores (f := c.reg) hW' (by
    rw [hbase]
    exact fun i hi => (hsame i hi).trans (hstored i hi))
  refine ⟨hregs, ?_, hothers, hcpsr⟩
  by_cases hmem : base ∈ regs
  · rw [if_pos hmem]
    exact hregs base hmem
  · rw [if_neg hmem]
    exact (hmoved hmem).trans (congrArg (· + _) hbase)

/-- `STMIA r0!, {r0, r3}` and `LDMIA r0!, {r0, r3}` over the end of the address space, with low bits
set in the base. -/
theorem load_undoes_store_base :
    let ram : FlatRam :=
      ⟨⟨Array.replicate 8 0 ++ #[0x09, 0xC0, 0x09, 0xC8] ++ Array.replicate 20 0⟩, false, by decide⟩
    let c := (initial.setRegs [0, 3, .pc] [0xFFFFFFFE, 0xCAFE, 8]).setThumb true
    let stored := (step c ram).2
    let d := stored.1.setRegs [0, 3] [0xFFFFFFFE, 0]
    let back := (step d stored.2).2.1
    (ram.bytes.size = 2 ^ 5 ∧ 32 ≤ ram.bytes.size) ∧
    (StoresUpwards c ram 0 [0, 3] ∧ LoadsUpwards d stored.2 0 [0, 3]) ∧
      (Bus.read32 stored.2 0xFFFFFFFE).1 = 0xFFFFFFFE ∧ stored.1.reg 0 = 6 ∧
      back.reg 0 = 0xFFFFFFFE ∧ back.reg 3 = 0xCAFE := by
  intro ram c stored d back
  have hstore : StoresUpwards c ram 0 [0, 3] :=
    .intro (w := 0xC009) ⟨by decide +kernel, by decide +kernel, by decide +kernel⟩ (by decide)
  have hload : LoadsUpwards d stored.2 0 [0, 3] :=
    .intro (w := 0xC809) ⟨by decide +kernel, by decide +kernel, by decide +kernel⟩ (by decide)
  have hsize : ram.bytes.size = 2 ^ 5 := by decide
  have hfit : 32 ≤ ram.bytes.size := by decide
  obtain ⟨⟨-, hwords⟩, -, ⟨hbase, -, -⟩, hundone⟩ := load_undoes_store hsize hfit hstore
  obtain ⟨hback, -, -, -⟩ := hundone d stored.2 hload (by decide +kernel) fun _ _ => rfl
  refine ⟨⟨hsize, hfit⟩, ⟨hstore, hload⟩, ?_, ?_, ?_, ?_⟩
  · exact hwords 0 (by decide)
  · exact hbase.trans (by decide +kernel)
  · exact hback 0 (by decide)
  · exact hback 3 (by decide)

end Handheld.Cpu
