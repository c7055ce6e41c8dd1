import Handheld.Proofs.Effect

/-!
# All but some registers

Two states of the processor that differ in the listed live registers at most.  What an instruction
may write is stated by such a list, and so is what a program that keeps values in spare registers
leaves behind.
-/

namespace Handheld.Cpu

/-- `d` agrees with `c` on all but the live registers listed. -/
structure SameBut (rs : List Reg) (c d : Cpu) : Prop where
  reg (r : Reg) : r ∉ rs → d.reg r = c.reg r
  cpsr : d.cpsr = c.cpsr
  saved : d.saved = c.saved
  banked : d.banked = c.banked
  cycles : d.cycles = c.cycles

namespace SameBut

variable {rs ss : List Reg} {c d e : Cpu}

theorem refl (rs : List Reg) (c : Cpu) : c.SameBut rs c := ⟨fun _ _ => rfl, rfl, rfl, rfl, rfl⟩

theorem setReg (h : c.SameBut rs d) {r : Reg} (hr : r ∈ rs) (v : Word) :
    c.SameBut rs (d.setReg r v) where
  reg s hs := (reg_setReg_ne d v (ne_of_mem_of_not_mem hr hs)).trans (h.reg s hs)
  cpsr := h.cpsr
  saved := h.saved
  banked := h.banked
  cycles := h.cycles

theorem setRegs (h : c.SameBut rs d) (hss : ss ⊆ rs) (vs : List Word) :
    c.SameBut rs (d.setRegs ss vs) where
  reg s hs := (reg_setRegs_of_not_mem (fun hmem => hs (hss hmem)) d vs).trans (h.reg s hs)
  cpsr := (cpsr_setRegs d ss vs).trans h.cpsr
  saved := (saved_setRegs d ss vs).trans h.saved
  banked := (banked_setRegs d ss vs).trans h.banked
  cycles := (setRegs_keeps (f := Cpu.cycles) (fun _ _ _ _ => rfl) d vs).trans h.cycles

end SameBut

end Handheld.Cpu
