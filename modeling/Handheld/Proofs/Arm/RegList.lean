import Handheld.Proofs.Arm.Encoding
import Mathlib.Data.List.Sort

/-!
# Register lists

A block move names its registers by the low sixteen bits of the opcode, and they are read back in
ascending order.  The registers of a field of eight bits come before those that are added above it.
-/

namespace Handheld

theorem Reg.toNat_code_lt (r : Reg) : r.code.toNat < 32 := by
  rw [toNat_code]
  omega

namespace Word

/-! ## 1. The list of the bits -/

theorem mem_regList {w : Word} {r : Reg} : r ∈ w.regList ↔ w.bit r.code = true := by
  simp [regList, Reg.code]

theorem pairwise_regList (w : Word) : w.regList.Pairwise (· < ·) :=
  (List.sortedLT_finRange 16).pairwise.filter _

/-- The registers named by a field of eight bits are `r0`-`r7`. -/
theorem val_lt_of_mem_regList {w : Word} (hw : w.toNat < 2 ^ 8) {r : Reg} (h : r ∈ w.regList) :
    r.val < 8 := by
  by_contra hge
  -- A bit from 8 on would make the field too large.
  have hpow : 2 ^ 8 ≤ 2 ^ r.val := Nat.pow_le_pow_right (by decide) (by omega)
  rw [mem_regList, bit_eq_testBit r.toNat_code_lt, Reg.toNat_code,
    Nat.testBit_lt_two_pow (Nat.lt_of_lt_of_le hw hpow)] at h
  cases h

theorem val_lt_of_mem_regList_field {w : Word} {r : Reg} (h : r ∈ (w.field 0 8).regList) :
    r.val < 8 := by
  refine val_lt_of_mem_regList ?_ h
  rw [toNat_field (by decide) (by decide)]
  exact Nat.mod_lt _ (by decide)

/-- Higher registers go on top of them. -/
theorem pairwise_regList_append (w : Word) {l : List Reg} (hl : l.Pairwise (· < ·))
    (hhigh : ∀ s ∈ l, 8 ≤ s.val) : ((w.field 0 8).regList ++ l).Pairwise (· < ·) := by
  refine List.pairwise_append.2 ⟨pairwise_regList _, hl, fun r hr s hs => ?_⟩
  exact Fin.lt_def.2 (Nat.lt_of_lt_of_le (val_lt_of_mem_regList_field hr) (hhigh s hs))

/-- There are eight of them at most. -/
theorem length_regList_field_le (w : Word) : (w.field 0 8).regList.length ≤ 8 := by
  have hnodup : (w.field 0 8).regList.Nodup :=
    (pairwise_regList _).imp fun hlt => ne_of_lt hlt
  have hlow : ∀ r : Reg, r.val < 8 → r ∈ ([0, 1, 2, 3, 4, 5, 6, 7] : List Reg) := by decide
  have hsubset : (w.field 0 8).regList ⊆ [0, 1, 2, 3, 4, 5, 6, 7] := fun r hr =>
    hlow r (val_lt_of_mem_regList_field hr)
  exact (List.subperm_of_subset hnodup hsubset).length_le

/-! ## 2. Lists beside other bits -/

theorem bit_or {i : Word} (hi : i.toNat < 32) (w v : Word) :
    (w ||| v).bit i = (w.bit i || v.bit i) := by
  rw [bit_eq_testBit hi, bit_eq_testBit hi, bit_eq_testBit hi, UInt32.toNat_or, Nat.testBit_or]

/-- A field of eight bits is added to a word without those bits by setting them. -/
theorem add_field_eq_or {u : Word} (hu : u &&& 0xFF = 0) (w : Word) :
    u + w.field 0 8 = u ||| w.field 0 8 := by
  have hdisjoint : u &&& w.field 0 8 = 0 := by
    show u &&& ((w >>> 0) &&& 0xFF) = 0
    rw [UInt32.and_comm (w >>> 0), ← UInt32.and_assoc, hu, UInt32.zero_and]
  apply UInt32.toBitVec_inj.1
  exact BitVec.add_eq_or_of_and_eq_zero _ _ (congrArg UInt32.toBitVec hdisjoint)

theorem add_field_and {u m : Word} (hu : u &&& 0xFF = 0) (hm : 0xFF &&& m = 0) (w : Word) :
    (u + w.field 0 8) &&& m = u &&& m := by
  have hfield : w.field 0 8 &&& m = 0 := by
    show ((w >>> 0) &&& 0xFF) &&& m = 0
    rw [UInt32.and_assoc, hm, UInt32.and_zero]
  rw [add_field_eq_or hu, or_and_of_disjoint hfield]

/-- The registers of the field come first, and those of the other bits after them. -/
theorem regList_add_field {u : Word} (hu : u &&& 0xFF = 0) (w : Word) :
    (u + w.field 0 8).regList = (w.field 0 8).regList ++ u.regList := by
  have hbits : ∀ r : Reg, r.val < 8 → (0xFF : Word).bit r.code = true := by decide
  have hhigh : ∀ r ∈ u.regList, 8 ≤ r.val := by
    intro r hr
    by_contra hlow
    rw [mem_regList, bit_eq_of_and_eq hu (hbits r (by omega))] at hr
    revert r
    decide
  have hsorted : ((w.field 0 8).regList ++ u.regList).Pairwise (· < ·) :=
    pairwise_regList_append w (pairwise_regList u) hhigh
  refine List.Pairwise.eq_of_mem_iff (pairwise_regList _) hsorted fun r => ?_
  rw [List.mem_append, mem_regList, mem_regList, mem_regList, add_field_eq_or hu,
    bit_or r.toNat_code_lt, Bool.or_eq_true, or_comm]

end Word

end Handheld
