import Handheld.Proofs.Comparison

/-!
# Branches, calls and returns

A branch encodes the distance to its target as a signed field, in units of its own, counted from
what the program counter reads as.  There are four such encodings.  This file says where each of
them leads, that an aligned target in range is reached by the field of its distance and by no other,
and that the link a call leaves behind brings a later return to the instruction after the call.
-/

namespace Handheld

/-! ## 1. Signed fields -/

/-- Read as two's complement, the upper half of the numbers stands for negative ones. -/
theorem bmod_eq_ite {m n : Nat} (hn : n < 2 * m) :
    (n : Int).bmod (2 * m) = if n < m then (n : Int) else (n : Int) - 2 * m := by
  have hmod : (n : Int) % ((2 * m : Nat) : Int) = n := Int.emod_eq_of_lt (by omega) (by omega)
  rw [Int.bmod_def, hmod]
  by_cases h : n < m
  · rw [if_pos h, if_pos (by omega)]
  · rw [if_neg h, if_neg (by omega)]
    omega

namespace Word

theorem toNat_ones_shiftLeft {n : Word} (hn : n.toNat < 32) :
    ((0xFFFFFFFF : Word) <<< n).toNat = 2 ^ 32 - 2 ^ n.toNat := by
  have hall : ∀ k < 32, ((0xFFFFFFFF : Word) <<< UInt32.ofNat k).toNat = 2 ^ 32 - 2 ^ k := by
    decide
  have h := hall n.toNat hn
  rwa [UInt32.ofNat_toNat] at h

theorem toNat_signExtend {n w : Word} (hpos : 0 < n.toNat) (hn : n.toNat < 32)
    (hw : w.toNat < 2 ^ n.toNat) :
    ((signExtend n w).toNat : Int) = (w.toNat : Int).bmod (2 ^ n.toNat) % 2 ^ 32 := by
  obtain ⟨k, hk⟩ : ∃ k, n.toNat = k + 1 := Nat.exists_eq_add_one_of_ne_zero (Nat.ne_of_gt hpos)
  have hpred : (n - 1).toNat = k := by
    rw [UInt32.toNat_sub_of_le n 1 (UInt32.le_iff_toNat_le.2 hpos), hk]
    rfl
  have hpow : 2 ^ n.toNat = 2 * 2 ^ k := by rw [hk, Nat.pow_succ, Nat.mul_comm]
  have hsign : w.bit (n - 1) = decide (w.toNat / 2 ^ k % 2 = 1) := by
    rw [bit_eq_decide (by omega), hpred]
  have hdvd : 2 ^ 32 = 2 ^ n.toNat * 2 ^ (32 - n.toNat) := by
    rw [← Nat.pow_add]
    congr 1
    omega
  rw [hpow] at hw
  rw [signExtend, hsign, hpow, bmod_eq_ite hw]
  have hlt := w.toNat_lt
  by_cases h : w.toNat < 2 ^ k
  · rw [if_pos h, Nat.div_eq_of_lt h, if_neg (by decide)]
    omega
  · have hone : w.toNat / 2 ^ k = 1 := Nat.div_eq_of_lt_le (by omega) (by omega)
    -- The ones above do not meet the field, so setting them adds them.
    have hor : (w ||| 0xFFFFFFFF <<< n).toNat =
        2 ^ n.toNat * (2 ^ (32 - n.toNat) - 1) + w.toNat := by
      rw [UInt32.toNat_or, toNat_ones_shiftLeft hn, Nat.or_comm,
        Nat.two_pow_add_eq_or_of_lt (hpow ▸ hw), Nat.mul_sub, ← hdvd, Nat.mul_one]
    have hle : 2 ^ n.toNat ≤ 2 ^ 32 := Nat.pow_le_pow_right (by decide) (Nat.le_of_lt hn)
    rw [hpow] at hle
    rw [if_neg h, hone, if_pos (by decide), hor, Nat.mul_sub, ← hdvd, hpow]
    omega

/-- A field sign-extended and moved to its place, added modulo `2 ^ 32`. -/
theorem toNat_add_signExtend {n s w : Word} (hpos : 0 < n.toNat) (hn : n.toNat < 32)
    (hs : s.toNat < 32) (hw : w.toNat < 2 ^ n.toNat) (base : Word) :
    ((base + signExtend n w <<< s).toNat : Int) =
      (base.toNat + 2 ^ s.toNat * (w.toNat : Int).bmod (2 ^ n.toNat)) % 2 ^ 32 := by
  -- The shift drops what does not fit, which the sum modulo `2 ^ 32` would drop as well.
  have hshift : ((signExtend n w <<< s).toNat : Int) =
      2 ^ s.toNat * (w.toNat : Int).bmod (2 ^ n.toNat) % 2 ^ 32 := by
    rw [UInt32.toNat_shiftLeft, Nat.mod_eq_of_lt hs, Nat.shiftLeft_eq, Nat.mul_comm,
      Int.natCast_emod, Int.natCast_mul, toNat_signExtend hpos hn hw, Int.natCast_pow]
    show 2 ^ s.toNat * ((w.toNat : Int).bmod (2 ^ n.toNat) % 2 ^ 32) % 2 ^ 32 = _
    rw [Int.mul_emod, Int.emod_emod, ← Int.mul_emod]
  rw [UInt32.toNat_add, Int.natCast_emod, Int.natCast_add, hshift]
  omega

end Word

/-! ## 2. Distances -/

/-- The ways to encode a distance. -/
inductive BranchForm where
  /-- A 32-bit branch or call. -/
  | wide
  /-- A 16-bit branch on a condition. -/
  | conditional
  /-- A 16-bit branch. -/
  | narrow
  /-- A 16-bit call, the high half of the field in its first half and the low one in its second. -/
  | call
deriving DecidableEq, Repr

namespace BranchForm

/-- The number of bits of the field. -/
def bits : BranchForm → Nat
  | wide => 24
  | conditional => 8
  | narrow => 11
  | call => 22

/-- The number of bytes in a unit of distance, to which targets are aligned as well. -/
def scale : BranchForm → Nat
  | wide => 4
  | conditional | narrow | call => 2

/-- The distance that the field `n` stands for: a two's complement number of units. -/
def distance (f : BranchForm) (n : Nat) : Int := f.scale * (n : Int).bmod (2 ^ f.bits)

/-- Where the field `n` leads, counted from `base`. -/
def target (f : BranchForm) (base : Word) (n : Nat) : Word :=
  UInt32.ofInt (base.toNat + f.distance n)

theorem toNat_target (f : BranchForm) (base : Word) (n : Nat) :
    ((f.target base n).toNat : Int) = (base.toNat + f.distance n) % 2 ^ 32 := by
  show ((UInt32.ofNat ((base.toNat + f.distance n) % 2 ^ 32).toNat).toNat : Int) = _
  rw [UInt32.toNat_ofNat']
  omega

theorem bits_eq (f : BranchForm) : 2 ^ f.bits = 2 * 2 ^ (f.bits - 1) := by cases f <;> rfl

/-- The lower half of the fields stands for distances ahead, the upper half for distances back. -/
theorem distance_cases (f : BranchForm) {n : Nat} (hn : n < 2 ^ f.bits) :
    n < 2 ^ (f.bits - 1) ∧ f.distance n = f.scale * (n : Int) ∨
      2 ^ (f.bits - 1) ≤ n ∧ f.distance n = f.scale * ((n : Int) - 2 ^ f.bits) := by
  have hhalf := f.bits_eq
  have hbmod := bmod_eq_ite (m := 2 ^ (f.bits - 1)) (n := n) (by omega)
  unfold distance
  by_cases h : n < 2 ^ (f.bits - 1)
  · rw [if_pos h] at hbmod
    rw [hhalf, hbmod]
    exact .inl ⟨h, rfl⟩
  · rw [if_neg h] at hbmod
    rw [hhalf, hbmod]
    refine .inr ⟨Nat.le_of_not_lt h, ?_⟩
    have hcast : (2 : Int) ^ f.bits = 2 * (2 ^ (f.bits - 1) : Nat) := by exact_mod_cast hhalf
    rw [hcast]

theorem distance_bounds (f : BranchForm) {n : Nat} (hn : n < 2 ^ f.bits) :
    -(f.scale * 2 ^ (f.bits - 1)) ≤ f.distance n ∧ f.distance n < f.scale * 2 ^ (f.bits - 1) := by
  have hcases := f.distance_cases hn
  cases f <;> simp only [bits, scale] at hn hcases ⊢ <;> omega

theorem distance_inj (f : BranchForm) {m n : Nat} (hm : m < 2 ^ f.bits) (hn : n < 2 ^ f.bits)
    (h : f.distance m = f.distance n) : m = n := by
  have hcases := f.distance_cases hm
  have hcases' := f.distance_cases hn
  cases f <;> simp only [bits, scale] at hm hn hcases hcases' <;> omega

theorem exists_distance_eq (f : BranchForm) {d : Int} (hd : d % f.scale = 0)
    (hlow : -(f.scale * 2 ^ (f.bits - 1)) ≤ d) (hhigh : d < f.scale * 2 ^ (f.bits - 1)) :
    ∃ n < 2 ^ f.bits, f.distance n = d := by
  -- The field is the number of units modulo the number of fields.
  obtain ⟨n, hn, hfield⟩ : ∃ n : Nat, n < 2 ^ f.bits ∧ (n : Int) = d / f.scale % 2 ^ f.bits := by
    refine ⟨(d / f.scale % 2 ^ f.bits).toNat, ?_, ?_⟩ <;> cases f <;> simp only [bits] <;> omega
  refine ⟨n, hn, ?_⟩
  have hcases := f.distance_cases hn
  cases f <;> simp only [bits, scale] at hd hlow hhigh hn hcases hfield <;> omega

theorem target_eq_iff (f : BranchForm) {base t : Word} {n : Nat} (hn : n < 2 ^ f.bits) :
    f.target base n = t ↔ f.distance n = (t - base).signed := by
  have hb := base.toNat_lt
  have ht := t.toNat_lt
  have hsub : (t - base).toNat = (2 ^ 32 - base.toNat + t.toNat) % 2 ^ 32 := UInt32.toNat_sub t base
  have htarget := f.toNat_target base n
  -- No form reaches half way round the address space, so a target determines its distance.
  have hbounds : -2 ^ 25 ≤ f.distance n ∧ f.distance n < 2 ^ 25 := by
    have h := f.distance_bounds hn
    cases f <;> simp only [bits, scale] at h ⊢ <;> omega
  rw [← UInt32.toNat_inj, Word.signed_eq, hsub]
  split <;> omega

/-- Both addresses are aligned, and the distance between them is in the range of the form. -/
structure InRange (f : BranchForm) (base t : Word) : Prop where
  baseAligned : base.toNat % f.scale = 0
  aligned : t.toNat % f.scale = 0
  low : -(f.scale * 2 ^ (f.bits - 1)) ≤ (t - base).signed
  high : (t - base).signed < f.scale * 2 ^ (f.bits - 1)

theorem InRange.exists_field {f : BranchForm} {base t : Word} (h : f.InRange base t) :
    ∃ n < 2 ^ f.bits, f.distance n = (t - base).signed ∧
      ∀ m < 2 ^ f.bits, f.target base m = t ↔ m = n := by
  obtain ⟨hbase, ht, hlow, hhigh⟩ := h
  have haligned : (t - base).signed % f.scale = 0 := by
    rw [Word.signed_eq, UInt32.toNat_sub]
    cases f <;> simp only [scale] at hbase ht ⊢ <;> split <;> omega
  obtain ⟨n, hn, hdistance⟩ := f.exists_distance_eq haligned hlow hhigh
  refine ⟨n, hn, hdistance, fun m hm => (f.target_eq_iff hm).trans ?_⟩
  rw [← hdistance]
  exact ⟨f.distance_inj hm hn, fun h => congrArg f.distance h⟩

/-- The field of a form in an opcode, as the decoder moves it to its place. -/
theorem add_signExtend_eq_target (f : BranchForm) {n s w : Word} (hbits : n.toNat = f.bits)
    (hscale : 2 ^ s.toNat = f.scale) (hs : s.toNat < 32) (hw : w.toNat < 2 ^ n.toNat)
    (base : Word) : base + Word.signExtend n w <<< s = f.target base w.toNat := by
  have hpos : 0 < n.toNat ∧ n.toNat < 32 := by
    rw [hbits]
    cases f <;> decide
  have hadd := Word.toNat_add_signExtend hpos.1 hpos.2 hs hw base
  have htarget := f.toNat_target base w.toNat
  have hscale' : (2 : Int) ^ s.toNat = f.scale := by exact_mod_cast hscale
  rw [distance, ← hbits, ← hscale'] at htarget
  apply UInt32.toNat_inj.1
  exact_mod_cast hadd.trans htarget.symm

/-- The two halves of a call add up. -/
theorem add_halves_eq_target {high low : Word} (hhigh : high.toNat < 2 ^ 11)
    (hlow : low.toNat < 2 ^ 11) (base : Word) :
    base + Word.signExtend 11 high <<< 12 + low <<< 1 =
      call.target base (2 ^ 11 * high.toNat + low.toNat) := by
  have hadd := Word.toNat_add_signExtend (n := 11) (s := 12) (by decide) (by decide) (by decide)
    hhigh base
  have htarget := call.toNat_target base (2 ^ 11 * high.toNat + low.toNat)
  have hlow' : (low <<< 1).toNat = 2 * low.toNat := by
    rw [UInt32.toNat_shiftLeft]
    show low.toNat <<< 1 % 2 ^ 32 = _
    rw [Nat.shiftLeft_eq]
    omega
  have hpow : 2 * 2 ^ 10 = 2 ^ 11 := rfl
  have hhalf := bmod_eq_ite (m := 2 ^ 10) (hpow ▸ hhigh)
  rw [hpow] at hhalf
  -- The high half carries the sign of the whole field.
  have hcases := call.distance_cases (n := 2 ^ 11 * high.toNat + low.toNat)
    (by simp only [bits]; omega)
  simp only [bits, scale] at hcases
  apply UInt32.toNat_inj.1
  rw [UInt32.toNat_add, hlow']
  change ((base + Word.signExtend 11 high <<< 12).toNat : Int) =
    (base.toNat + 2 ^ 12 * (high.toNat : Int).bmod (2 ^ 11)) % 2 ^ 32 at hadd
  rw [hhalf] at hadd
  split at hadd <;> omega

end BranchForm

/-! ## 3. Aligned addresses -/

namespace Word

theorem and_not_one_of_even {w : Word} (h : w.toNat % 2 = 0) : w &&& ~~~1 = w := by
  apply and_not_eq_self_of_and_eq_zero
  exact (and_eq_iff_field (i := 0) (n := 1) (k := 0) rfl rfl w).2 (by simpa using h)

theorem even_and_not_one (w : Word) : (w &&& ~~~1).toNat % 2 = 0 := by
  rw [toNat_and_mask (i := 1) (n := 31) rfl]
  omega

theorem aligned_and_not_three (w : Word) : (w &&& ~~~3).toNat % 4 = 0 := by
  rw [toNat_and_mask (i := 2) (n := 30) rfl]
  omega

theorem bit_zero_of_even {w : Word} (h : w.toNat % 2 = 0) : w.bit 0 = false := by
  rw [bit_eq_decide (by decide), decide_eq_false_iff_not]
  show ¬ w.toNat / 2 ^ 0 % 2 = 1
  omega

theorem bit_zero_or_one (w : Word) : (w ||| 1).bit 0 = true := by
  unfold bit
  rw [UInt32.shiftRight_zero, or_and_self]
  rfl

theorem or_one_and_not_one {w : Word} (h : w.toNat % 2 = 0) : (w ||| 1) &&& ~~~1 = w := by
  rw [or_and_of_disjoint (by decide), and_not_one_of_even h]

theorem toNat_field_lt {n : Word} (hn : n.toNat < 32) (w : Word) :
    (w.field 0 n).toNat < 2 ^ n.toNat := by
  rw [toNat_field (by decide) hn]
  exact Nat.mod_lt _ (Nat.two_pow_pos _)

end Word

/-! ## 4. Steps -/

namespace Cpu

variable {β : Type} [Bus β] {c d : Cpu} {bus bus' : β} {op : Word}

/-- A step of one cycle that ends with a jump. -/
theorem step_eq_skip {target : Word} (hcost : (perform c bus).1 = 1)
    (h : (perform c bus).2.1 = d.setReg .pc target) : (step c bus).2.1 = d.skip target := by
  have hstep : (step c bus).2.1 =
      { (perform c bus).2.1 with cycles := (perform c bus).2.1.cycles + (perform c bus).1 } := rfl
  rw [hstep, hcost, h]
  rfl

/-- The jump overwrites where the program counter was moved on to. -/
theorem setReg_link (c : Cpu) (next link target : Word) :
    ((c.setReg .pc next).setReg .lr link).setReg .pc target =
      (c.setReg .lr link).setReg .pc target := by
  rw [setReg_comm (by decide) c next link, setReg_setReg_self]

theorem step_branch_wide (hop : ExecutesArm c bus op) (h : op &&& 0x0E000000 = 0x0A000000) :
    (step c bus).2.1 =
      (if op.bit 24 then c.setReg .lr ((c.pc &&& ~~~3) + 4) else c).skip
        (BranchForm.wide.target ((c.pc &&& ~~~3) + 8) (op.field 0 24).toNat) := by
  have hfield : op &&& 0xFFFFFF = op.field 0 24 := by
    unfold Word.field
    rw [UInt32.shiftRight_zero]
    rfl
  have htarget := BranchForm.wide.add_signExtend_eq_target (n := 24) (s := 2) rfl rfl (by decide)
    (Word.toNat_field_lt (by decide) op) ((c.pc &&& ~~~3) + 8)
  apply step_eq_skip
  · rw [hop.perform_eq, Arm.decode_eq_branch h]
    rfl
  · rw [hop.perform_eq, Arm.decode_eq_branch h, hfield, ← htarget]
    show Arm.branch (c.setReg .pc ((c.pc &&& ~~~3) + 4)) (op.bit 24) _ (c.pc &&& ~~~3) = _
    unfold Arm.branch
    cases op.bit 24 with
    | false => exact setReg_setReg_self c .pc _ _
    | true => exact setReg_link c _ _ _

theorem step_branch_narrow (hop : ExecutesThumb c bus op) (h : op &&& 0xF800 = 0xE000) :
    (step c bus).2.1 =
      c.skip (BranchForm.narrow.target ((c.pc &&& ~~~1) + 4) (op.field 0 11).toNat) := by
  have htarget := BranchForm.narrow.add_signExtend_eq_target (n := 11) (s := 1) rfl rfl (by decide)
    (Word.toNat_field_lt (by decide) op) ((c.pc &&& ~~~1) + 4)
  apply step_eq_skip
  · rw [hop.perform_eq]
  · rw [hop.perform_eq, Thumb.decode_eq_branch h, ← htarget]
    exact setReg_setReg_self c .pc _ _

theorem step_branch_conditional {cond : Condition} (hop : ExecutesThumb c bus op)
    (h : op &&& 0xF000 = 0xD000) (hcond : op.field 8 4 = cond.code) (hal : cond ≠ .al)
    (hnv : cond ≠ .nv) (htaken : cond.holds c.cpsr = true) :
    (step c bus).2.1 =
      c.skip (BranchForm.conditional.target ((c.pc &&& ~~~1) + 4) (op.field 0 8).toNat) := by
  have htarget := BranchForm.conditional.add_signExtend_eq_target (n := 8) (s := 1) rfl rfl
    (by decide) (Word.toNat_field_lt (by decide) op) ((c.pc &&& ~~~1) + 4)
  rw [step_branchIf hop h hcond hal hnv, if_pos htaken, ← htarget]
  rfl

theorem step_callHigh (hop : ExecutesThumb c bus op) (h : op &&& 0xF800 = 0xF000) :
    (step c bus).2.1 =
      (c.setReg .lr
        ((c.pc &&& ~~~1) + 4 + (Word.signExtend 11 (op.field 0 11) <<< (12 : Word)))).skip
        ((c.pc &&& ~~~1) + 2) := by
  apply step_eq_skip
  · rw [hop.perform_eq]
  · rw [hop.perform_eq, Thumb.decode_eq_callHigh h]
    exact setReg_comm (r := .pc) (s := .lr) (by decide) c _ _

theorem step_callLow (hop : ExecutesThumb c bus op) (h : op &&& 0xF800 = 0xF800) :
    (step c bus).2.1 =
      (c.setReg .lr (((c.pc &&& ~~~1) + 2) ||| 1)).skip (c.reg .lr + op.field 0 11 <<< 1) := by
  apply step_eq_skip
  · rw [hop.perform_eq]
  · rw [hop.perform_eq, Thumb.decode_eq_callLow h]
    show ((c.setReg .pc _).setReg .lr _).setReg .pc ((c.setReg .pc _).reg .lr + _) = _
    rw [setReg_link, reg_setReg_ne c _ (by decide)]

theorem pc_skip (c : Cpu) (next : Word) : (c.skip next).pc = next := reg_setReg_self c .pc next

theorem reg_lr_skip (c : Cpu) (next : Word) : (c.skip next).reg .lr = c.reg .lr :=
  reg_setReg_ne c next (by decide)

theorem setReg_lr_skip (c : Cpu) (next link : Word) :
    (c.skip next).setReg .lr link = (c.setReg .lr link).skip next := by
  have hcomm := setReg_comm (r := .pc) (s := .lr) (by decide) c next link
  exact congrArg (fun d : Cpu => { d with cycles := c.cycles + 1 }) hcomm

theorem pc_even_add (c : Cpu) (n : Word) (hn : n.toNat % 2 = 0) :
    ((c.pc &&& ~~~1) + n).toNat % 2 = 0 := by
  have heven := Word.even_and_not_one c.pc
  rw [UInt32.toNat_add]
  omega

/-- The two halves of a call, in consecutive steps. -/
theorem step_step_call {high low : Word} (hhigh : ExecutesThumb c bus high)
    (hlow : ExecutesThumb (step c bus).2.1 bus' low) (h : high &&& 0xF800 = 0xF000)
    (h' : low &&& 0xF800 = 0xF800) :
    (step (step c bus).2.1 bus').2.1 =
      ((c.setReg .lr (((c.pc &&& ~~~1) + 4) ||| 1)).skip ((c.pc &&& ~~~1) + 2)).skip
        (BranchForm.call.target ((c.pc &&& ~~~1) + 4)
          (2 ^ 11 * (high.field 0 11).toNat + (low.field 0 11).toNat)) := by
  have htarget := BranchForm.add_halves_eq_target
    (Word.toNat_field_lt (n := 11) (by decide) high) (Word.toNat_field_lt (n := 11) (by decide) low)
    ((c.pc &&& ~~~1) + 4)
  have hpc : (c.pc &&& ~~~1) + 2 &&& ~~~1 = (c.pc &&& ~~~1) + 2 :=
    Word.and_not_one_of_even (pc_even_add c 2 rfl)
  have hnext : (c.pc &&& ~~~1) + 2 + 2 = (c.pc &&& ~~~1) + 4 := UInt32.add_assoc _ 2 2
  rw [step_callLow hlow h', step_callHigh hhigh h, ← htarget, pc_skip, reg_lr_skip,
    reg_setReg_self, hpc, hnext, setReg_lr_skip, setReg_setReg_self]

/-! ## 5. Returns -/

/-- The next step jumps to the address in the link register: `BX LR` of either instruction set. -/
inductive ReturnsByLink (d : Cpu) (bus : β) : Prop where
  | arm {op : Word} (h : ExecutesArm d bus op) (hreturn : op &&& 0x0FFFFFFF = 0x012FFF1E)
  | thumb {op : Word} (h : ExecutesThumb d bus op) (hreturn : op &&& 0xFF78 = 0x4770)

theorem step_returnsByLink (h : ReturnsByLink d bus) :
    (step d bus).2.1 = (d.setThumb ((d.reg .lr).bit 0)).skip (d.reg .lr &&& ~~~1) := by
  have hlink (next pc : Word) : (d.setReg .pc next).operand .lr pc = d.reg .lr :=
    (operand_of_ne (by decide) _ _).trans (reg_setReg_ne d next (by decide))
  have hjump (next : Word) :
      ((d.setReg .pc next).setThumb ((d.reg .lr).bit 0)).setReg .pc (d.reg .lr &&& ~~~1) =
        (d.setThumb ((d.reg .lr).bit 0)).setReg .pc (d.reg .lr &&& ~~~1) :=
    setReg_setReg_self (d.setThumb _) .pc next _
  cases h with
  | @arm op h hreturn =>
    have hreg : op.reg 0 = .lr :=
      Word.reg_eq_of_field (by decide) (Word.field_eq_of_and_eq hreturn 0 4 rfl)
    apply step_eq_skip
    · rw [h.perform_eq, Arm.decode_eq_branchExchange (Word.and_eq_of_and_eq hreturn rfl)]
      rfl
    · rw [h.perform_eq, Arm.decode_eq_branchExchange (Word.and_eq_of_and_eq hreturn rfl), hreg]
      show Arm.branchExchange (d.setReg .pc _) .lr _ = _
      rw [Arm.branchExchange, hlink, hjump]
  | @thumb op h hreturn =>
    have hreg : op.reg 3 = .lr :=
      Word.reg_eq_of_field (by decide) (Word.field_eq_of_and_eq hreturn 3 4 rfl)
    apply step_eq_skip
    · rw [h.perform_eq]
    · rw [h.perform_eq, Thumb.decode_eq_branchExchange (Word.and_eq_of_and_eq hreturn rfl), hreg]
      show Thumb.branchExchange (d.setReg .pc _) .lr _ = _
      rw [Thumb.branchExchange, hlink, hjump]

theorem step_return_wide (harm : c.cpsr.thumb = false) (hlink : d.reg .lr = (c.pc &&& ~~~3) + 4)
    (h : ReturnsByLink d bus) :
    (step d bus).2.1 = (d.setThumb c.cpsr.thumb).skip ((c.pc &&& ~~~3) + 4) := by
  have heven : ((c.pc &&& ~~~3) + 4).toNat % 2 = 0 := by
    have halign := Word.aligned_and_not_three c.pc
    rw [UInt32.toNat_add]
    show ((c.pc &&& ~~~3).toNat + 4) % 2 ^ 32 % 2 = 0
    omega
  rw [step_returnsByLink h, hlink, Word.bit_zero_of_even heven, Word.and_not_one_of_even heven,
    harm]

theorem step_return_narrow (hthumb : c.cpsr.thumb = true)
    (hlink : d.reg .lr = ((c.pc &&& ~~~1) + 4) ||| 1) (h : ReturnsByLink d bus) :
    (step d bus).2.1 = (d.setThumb c.cpsr.thumb).skip ((c.pc &&& ~~~1) + 4) := by
  rw [step_returnsByLink h, hlink, Word.bit_zero_or_one,
    Word.or_one_and_not_one (pc_even_add c 4 rfl), hthumb]

/-- Where branches and calls lead, for each instruction and each field, modulo `2 ^ 32`; that an
aligned target in range has one field, the distance to it; and that a return, as long as the link is
the one a call left, leads to the instruction after the call and to the instruction set of the
caller.  Between call and return anything may have happened. -/
theorem calls_land_and_return (β : Type) [Bus β] :
    (∀ (c : Cpu) (bus : β) (op : Word), ExecutesArm c bus op → op &&& 0x0E000000 = 0x0A000000 →
      (step c bus).2.1 =
        (if op.bit 24 then c.setReg .lr ((c.pc &&& ~~~3) + 4) else c).skip
          (BranchForm.wide.target ((c.pc &&& ~~~3) + 8) (op.field 0 24).toNat)) ∧
    (∀ (c : Cpu) (bus : β) (op : Word) (cond : Condition), ExecutesThumb c bus op →
      op &&& 0xF000 = 0xD000 → op.field 8 4 = cond.code → cond ≠ .al → cond ≠ .nv →
      cond.holds c.cpsr = true →
      (step c bus).2.1 =
        c.skip (BranchForm.conditional.target ((c.pc &&& ~~~1) + 4) (op.field 0 8).toNat)) ∧
    (∀ (c : Cpu) (bus : β) (op : Word), ExecutesThumb c bus op → op &&& 0xF800 = 0xE000 →
      (step c bus).2.1 =
        c.skip (BranchForm.narrow.target ((c.pc &&& ~~~1) + 4) (op.field 0 11).toNat)) ∧
    (∀ (c : Cpu) (bus bus' : β) (high low : Word), ExecutesThumb c bus high →
      ExecutesThumb (step c bus).2.1 bus' low → high &&& 0xF800 = 0xF000 → low &&& 0xF800 = 0xF800 →
      (step (step c bus).2.1 bus').2.1 =
        ((c.setReg .lr (((c.pc &&& ~~~1) + 4) ||| 1)).skip ((c.pc &&& ~~~1) + 2)).skip
          (BranchForm.call.target ((c.pc &&& ~~~1) + 4)
            (2 ^ 11 * (high.field 0 11).toNat + (low.field 0 11).toNat))) ∧
    (∀ (f : BranchForm) (base t : Word), f.InRange base t →
      ∃ n < 2 ^ f.bits, f.distance n = (t - base).signed ∧
        ∀ m < 2 ^ f.bits, f.target base m = t ↔ m = n) ∧
    (∀ (c d : Cpu) (bus bus' : β) (op : Word), ExecutesArm c bus op →
      op &&& 0x0F000000 = 0x0B000000 → d.reg .lr = (step c bus).2.1.reg .lr →
      ReturnsByLink d bus' →
      (step d bus').2.1 = (d.setThumb c.cpsr.thumb).skip ((c.pc &&& ~~~3) + 4)) ∧
    ∀ (c d : Cpu) (bus bus₁ bus₂ : β) (high low : Word), ExecutesThumb c bus high →
      ExecutesThumb (step c bus).2.1 bus₁ low → high &&& 0xF800 = 0xF000 →
      low &&& 0xF800 = 0xF800 → d.reg .lr = (step (step c bus).2.1 bus₁).2.1.reg .lr →
      ReturnsByLink d bus₂ →
      (step d bus₂).2.1 = (d.setThumb c.cpsr.thumb).skip ((c.pc &&& ~~~1) + 4) := by
  refine ⟨fun c bus op hop h => step_branch_wide hop h,
    fun c bus op cond hop h hcond hal hnv htaken =>
      step_branch_conditional hop h hcond hal hnv htaken,
    fun c bus op hop h => step_branch_narrow hop h,
    fun c bus bus' high low hhigh hlow h h' => step_step_call hhigh hlow h h',
    fun f base t h => h.exists_field, ?_, ?_⟩
  · intro c d bus bus' op hop h hlink hreturn
    have hlinks : op.bit 24 = true := Word.bit_eq_of_and_eq h (by decide)
    rw [step_branch_wide hop (Word.and_eq_of_and_eq h rfl), reg_lr_skip, hlinks, if_pos rfl,
      reg_setReg_self] at hlink
    exact step_return_wide hop.arm hlink hreturn
  · intro c d bus bus₁ bus₂ high low hhigh hlow h h' hlink hreturn
    rw [step_step_call hhigh hlow h h', reg_lr_skip, reg_lr_skip, reg_setReg_self] at hlink
    exact step_return_narrow hhigh.thumb hlink hreturn

/-- Calls back across address zero.  `BL` at `0` with the field of `-12` goes to `0xFFFFFFFC`, where
`BX LR` goes back to `4`; a 16-bit call with the field of `-8` does the same.  No other field leads
there.  `BNE` at `0` with the field of `-4` goes to itself, and so does `B`. -/
theorem calls_land_and_return_backward :
    let arm : FlatRam := ⟨⟨#[0xFD, 0xFF, 0xFF, 0xEB, 0x1E, 0xFF, 0x2F, 0xE1]⟩, false, by decide⟩
    let thumb : FlatRam := ⟨⟨#[0xFF, 0xF7, 0xFC, 0xFF, 0x70, 0x47, 0, 0]⟩, false, by decide⟩
    let bne : FlatRam := ⟨⟨#[0xFE, 0xD1]⟩, false, by decide⟩
    let b : FlatRam := ⟨⟨#[0xFE, 0xE7]⟩, false, by decide⟩
    let c := initial
    let t := initial.setThumb true
    let d := (step c arm).2.1
    let u := (step (step t thumb).2.1 thumb).2.1
    d = (c.setReg .lr 4).skip 0xFFFFFFFC ∧ (step d arm).2.1 = d.skip 4 ∧
      u = ((t.setReg .lr 5).skip 2).skip 0xFFFFFFFC ∧ (step u thumb).2.1 = u.skip 4 ∧
      (step t bne).2.1 = t.skip 0 ∧ (step t b).2.1 = t.skip 0 ∧
      ∀ m < 2 ^ 24, BranchForm.wide.target 8 m = 0xFFFFFFFC ↔ m = 0xFFFFFD := by
  intro arm thumb bne b c t d u
  obtain ⟨hwide, hconditional, hnarrow, hcall, hfield, hreturn, hreturn'⟩ :=
    calls_land_and_return FlatRam
  have hbl : ExecutesArm c arm 0xEBFFFFFD := ⟨by decide, by decide, by decide, by decide⟩
  have hhigh : ExecutesThumb t thumb 0xF7FF := ⟨by decide, by decide, by decide⟩
  have hlow : ExecutesThumb (step t thumb).2.1 thumb 0xFFFC := ⟨by decide, by decide, by decide⟩
  have hbx : ExecutesArm d arm 0xE12FFF1E := ⟨by decide, by decide, by decide, by decide⟩
  have hbx' : ExecutesThumb u thumb 0x4770 := ⟨by decide, by decide, by decide⟩
  have hd := hwide c arm 0xEBFFFFFD hbl (by decide)
  have hu := hcall t thumb thumb 0xF7FF 0xFFFC hhigh hlow (by decide) (by decide)
  have hback := hreturn c d arm arm 0xEBFFFFFD hbl (by decide) rfl (.arm hbx (by decide))
  have hback' := hreturn' t u thumb thumb thumb 0xF7FF 0xFFFC hhigh hlow (by decide) (by decide) rfl
    (.thumb hbx' (by decide))
  have hbne := hconditional t bne 0xD1FE .ne ⟨by decide, by decide, by decide⟩ (by decide)
    (by decide) (by decide) (by decide) (by decide)
  have hb := hnarrow t b 0xE7FE ⟨by decide, by decide, by decide⟩ (by decide)
  obtain ⟨n, hn, -, honly⟩ := hfield .wide 8 0xFFFFFFFC ⟨by decide, by decide, by decide, by decide⟩
  have hsame : n = 0xFFFFFD := ((honly 0xFFFFFD (by decide +kernel)).1 (by decide +kernel)).symm
  rw [hsame] at honly
  exact ⟨hd.trans (by decide +kernel), hback.trans (by decide +kernel),
    hu.trans (by decide +kernel), hback'.trans (by decide +kernel), hbne.trans (by decide +kernel),
    hb.trans (by decide +kernel), honly⟩

end Cpu

end Handheld
