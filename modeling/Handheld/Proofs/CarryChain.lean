import Handheld.Proofs.Calculation
import Handheld.Proofs.Steps
import Mathlib.Data.Nat.Digits.Defs

/-!
# Numbers of many words

A program adds and subtracts numbers wider than a word limb by limb, from the lowest limb up.  The
first instruction of such a chain ignores the carry and each one after it takes the carry that the
one before it left; nothing else passes from limb to limb.  This file proves that the limbs left by
a chain are those of the exact result on the whole numbers, and that its last carry and overflow are
those of the whole calculation.
-/

namespace Handheld

/-! ## 1. Limbs -/

/-- The words of a wide number, the lowest first. -/
abbrev Limbs := List Word

namespace Limbs

/-- The number that the limbs make up. -/
def toNat (xs : Limbs) : Nat := Nat.ofDigits (2 ^ 32) (xs.map UInt32.toNat)

/-- The two's complement number that the limbs make up. -/
def signed (xs : Limbs) : Int := Int.bmod xs.toNat (2 ^ (32 * xs.length))

theorem toNat_cons (x : Word) (xs : Limbs) : toNat (x :: xs) = x.toNat + 2 ^ 32 * toNat xs :=
  Nat.ofDigits_cons

theorem toNat_singleton (x : Word) : toNat [x] = x.toNat := Nat.ofDigits_singleton

theorem toNat_lt (xs : Limbs) : xs.toNat < 2 ^ (32 * xs.length) := by
  have hdigits : ∀ d ∈ xs.map UInt32.toNat, d < 2 ^ 32 := by
    intro d hd
    obtain ⟨x, -, rfl⟩ := List.mem_map.1 hd
    exact x.toNat_lt
  have hlt := Nat.ofDigits_lt_base_pow_length (by decide) hdigits
  rwa [List.length_map, ← Nat.pow_mul] at hlt

/-- The sign of a wide number is the top bit of its highest limb. -/
theorem signed_eq (xs : Limbs) {half : Nat} (hhalf : 2 ^ (32 * xs.length) = 2 * half) :
    xs.signed = if xs.toNat < half then (xs.toNat : Int) else (xs.toNat : Int) - 2 * half := by
  have hlt := xs.toNat_lt
  unfold signed
  rw [hhalf] at hlt ⊢
  rw [Int.bmod_def, Int.emod_eq_of_lt (by omega) (by omega)]
  split <;> split <;> omega

theorem signed_singleton (x : Word) : signed [x] = x.signed := by
  unfold signed
  rw [toNat_singleton]
  exact (BitVec.toInt_eq_toNat_bmod x.toBitVec).symm

theorem signed_cons (x : Word) {xs : Limbs} (hxs : xs ≠ []) :
    signed (x :: xs) = x.toNat + 2 ^ 32 * xs.signed := by
  have hx : x.toNat < 2 ^ 32 := x.toNat_lt
  have hpos : 0 < xs.length := List.length_pos_iff.2 hxs
  have htail : 2 ^ (32 * xs.length) = 2 * 2 ^ (32 * xs.length - 1) := by
    rw [← Nat.pow_succ', Nat.succ_eq_add_one, Nat.sub_add_cancel (by omega)]
  have hall : 2 ^ (32 * (x :: xs).length) = 2 * (2 ^ 32 * 2 ^ (32 * xs.length - 1)) := by
    rw [List.length_cons, Nat.mul_succ, Nat.add_comm, Nat.pow_add, htail, Nat.mul_left_comm]
  rw [signed_eq (x :: xs) hall, signed_eq xs htail, toNat_cons]
  split <;> split <;> omega

end Limbs

/-! ## 2. From one limb to the next -/

namespace Arithmetic

/-- The kind of the limbs above the lowest one. -/
def next : Arithmetic → Arithmetic
  | add | addCarry => addCarry
  | subtract | subtractCarry => subtractCarry
  | reverse | reverseCarry => reverseCarry

/-- The least result on `n` limbs that sets the carry. -/
def limbBound (kind : Arithmetic) (n : Nat) : Int :=
  match kind with
  | add | addCarry => 2 ^ (32 * n)
  | subtract | subtractCarry | reverse | reverseCarry => 0

theorem limbBound_one (kind : Arithmetic) : kind.limbBound 1 = kind.carryBound := by
  cases kind <;> rfl

theorem limbBound_succ (kind : Arithmetic) (n : Nat) :
    kind.limbBound (n + 1) = 2 ^ 32 * kind.next.limbBound n := by
  cases kind with
  | add | addCarry =>
    show (2 : Int) ^ (32 * (n + 1)) = 2 ^ 32 * 2 ^ (32 * n)
    rw [← Int.pow_add, Nat.mul_succ, Nat.add_comm]
  | subtract | subtractCarry | reverse | reverseCarry => rfl

/-- The result on a limb and on what is above it: the carry of the limb makes up for what the limb
does not hold. -/
theorem exact_cons (kind : Arithmetic) (x y : Word) (xs ys : Int) (carry : Bool) :
    kind.exact (x.toNat + 2 ^ 32 * xs) (y.toNat + 2 ^ 32 * ys) carry =
      kind.exact x.toNat y.toNat carry % 2 ^ 32 +
        2 ^ 32 * kind.next.exact xs ys
          (decide (kind.carryBound ≤ kind.exact x.toNat y.toNat carry)) := by
  have hx := x.toNat_lt
  have hy := y.toNat_lt
  have hc := Bool.toNat_lt carry
  -- A sum is less than twice the bound, and a difference lacks one bound at most.
  by_cases h : kind.carryBound ≤ kind.exact x.toNat y.toNat carry
  · rw [decide_eq_true h]
    cases kind <;> simp only [exact, carryBound, next, Bool.toNat_true] at h ⊢ <;> omega
  · rw [decide_eq_false h]
    cases kind <;> simp only [exact, carryBound, next, Bool.toNat_false] at h ⊢ <;> omega

end Arithmetic

/-- A result that no two's complement number of `n` limbs can hold. -/
def Limbs.Overflows (n : Nat) (s : Int) : Prop := s < -2 ^ (32 * n - 1) ∨ 2 ^ (32 * n - 1) ≤ s

instance (n : Nat) (s : Int) : Decidable (Limbs.Overflows n s) :=
  inferInstanceAs (Decidable (_ ∨ _))

/-- What an exact result leaves in `n` limbs and two flags.  On operands read as unsigned numbers
the result is `u`, and the carry tells whether it reaches `bound`; on operands read as signed
numbers it is `s`. -/
structure Limbs.IsExact (zs : Limbs) (carry overflow : Bool) (n : Nat) (u s bound : Int) :
    Prop where
  length : zs.length = n
  value : (zs.toNat : Int) = u % 2 ^ (32 * n)
  carry : carry = decide (bound ≤ u)
  overflow : overflow = decide (Overflows n s)

namespace Limbs

variable {zs : Limbs} {carry overflow : Bool} {n : Nat} {u s bound : Int}

theorem isExact_singleton {r : AluResult} (h : r.IsExact u s bound) :
    IsExact [r.value] r.carry r.overflow 1 u s bound where
  length := rfl
  value := by
    rw [toNat_singleton]
    exact h.value
  carry := h.carry
  overflow := h.overflow

/-- A limb below the others adds its value and moves the others up. -/
theorem IsExact.cons (h : IsExact zs carry overflow n u s bound) (hn : 0 < n) (z : Word) :
    IsExact (z :: zs) carry overflow (n + 1) (z.toNat + 2 ^ 32 * u) (z.toNat + 2 ^ 32 * s)
      (2 ^ 32 * bound) := by
  have hz := z.toNat_lt
  have hmodulus : (2 : Int) ^ (32 * (n + 1)) = 2 ^ 32 * 2 ^ (32 * n) := by
    rw [← Int.pow_add, Nat.mul_succ, Nat.add_comm]
  have hhalf : (2 : Int) ^ (32 * (n + 1) - 1) = 2 ^ 32 * 2 ^ (32 * n - 1) := by
    rw [← Int.pow_add]
    congr 1
    omega
  refine ⟨?_, ?_, ?_, ?_⟩
  · rw [List.length_cons, h.length]
  · have hpos : (0 : Int) < 2 ^ (32 * n) := Int.pow_pos (by decide)
    have hsplit : (z.toNat : Int) + 2 ^ 32 * u =
        z.toNat + 2 ^ 32 * (u % 2 ^ (32 * n)) + 2 ^ 32 * 2 ^ (32 * n) * (u / 2 ^ (32 * n)) := by
      conv_lhs => rw [← Int.emod_add_mul_ediv u (2 ^ (32 * n))]
      rw [Int.mul_add, Int.mul_assoc, Int.add_assoc]
    have hrest := Int.emod_nonneg u (Int.ne_of_gt hpos)
    have hbelow := Int.emod_lt_of_pos u hpos
    rw [toNat_cons, hmodulus, hsplit, Int.add_mul_emod_self_left, Int.emod_eq_of_lt (by omega)
      (by omega)]
    show (z.toNat : Int) + 2 ^ 32 * zs.toNat = _
    rw [h.value]
  · rw [h.carry]
    apply decide_eq_decide.2
    omega
  · rw [h.overflow]
    apply decide_eq_decide.2
    unfold Overflows
    rw [hhalf]
    omega

end Limbs

/-! ## 3. Steps that calculate -/

namespace Cpu

variable {β : Type} [Bus β] {c : Cpu} {bus : β} {k : Calculation}

/-- The next step carries out the calculation `k`, by a 32-bit or a 16-bit instruction. -/
inductive Calculates (c : Cpu) (bus : β) (k : Calculation) : Prop where
  | arm {w : Word} (op : Arm.AluOp) (h : ExecutesArm c bus w)
    (hcalculates : Arm.Calculates (c.setReg .pc ((c.pc &&& ~~~3) + 4)) (c.pc &&& ~~~3) w op k)
  | thumb {w : Word} (h : ExecutesThumb c bus w)
    (hcalculates : Thumb.Calculates (c.setReg .pc ((c.pc &&& ~~~1) + 2)) (c.pc &&& ~~~1) w k)

theorem Calculates.perform_eq (h : Calculates c bus k) :
    ∃ next, (perform c bus).2.1 = k.outcome (c.setReg .pc next) := by
  cases h with
  | arm _ h hcalculates =>
    rw [h.perform_eq, hcalculates.execute_eq]
    exact ⟨_, rfl⟩
  | thumb h hcalculates =>
    rw [h.perform_eq, hcalculates.execute_eq]
    exact ⟨_, rfl⟩

/-- What the step leaves in the destination and in two flags is what the adder makes of the
operands. -/
theorem Calculates.step_eq_run {kind : Arithmetic} {r : Reg} {x y : Word}
    (h : Calculates c bus ⟨kind, some r, x, y⟩) :
    let c' := (step c bus).2.1
    let result := kind.run x y (c.flag Psr.carry)
    c'.reg r = result.value ∧ c'.flag Psr.carry = result.carry ∧
      c'.flag Psr.overflow = result.overflow := by
  obtain ⟨next, hperform⟩ := h.perform_eq
  intro c' result
  have hcpsr : c'.cpsr = c.cpsr.withResult result := by
    show (perform c bus).2.1.cpsr = _
    rw [hperform]
    rfl
  refine ⟨?_, ?_, ?_⟩
  · show (perform c bus).2.1.reg r = _
    rw [hperform]
    exact reg_setReg_self _ r _
  · exact (congrArg (Psr.test · Psr.carry) hcpsr).trans (Psr.test_withResult_carry _ _)
  · exact (congrArg (Psr.test · Psr.overflow) hcpsr).trans (Psr.test_withResult_overflow _ _)

/-! ## 4. Chains -/

/-- A run that calculates limb by limb and ends in the state `c'`.  The next step takes the lowest
limbs and is of kind `kind`; the step for each pair of limbs above comes any number of steps after
the one before it, which may bring the limbs into registers as long as they leave the carry as it
was.  `zs` is what the destinations receive. -/
inductive Chain (c' : Cpu) : Arithmetic → Limbs → Limbs → Limbs → Cpu → β → Prop where
  | last {kind : Arithmetic} {r : Reg} {x y : Word} {c : Cpu} {bus : β}
    (h : Calculates c bus ⟨kind, some r, x, y⟩) (hend : (step c bus).2.1 = c') :
    Chain c' kind [x] [y] [c'.reg r] c bus
  | link {kind : Arithmetic} {r : Reg} {x y : Word} {xs ys zs : Limbs} {c : Cpu} {bus : β}
    (h : Calculates c bus ⟨kind, some r, x, y⟩) (n : Nat)
    (hcarry : (steps (n + 1) c bus).2.1.flag Psr.carry = (step c bus).2.1.flag Psr.carry)
    (hrest : Chain c' kind.next xs ys zs (steps (n + 1) c bus).2.1 (steps (n + 1) c bus).2.2) :
    Chain c' kind (x :: xs) (y :: ys) ((step c bus).2.1.reg r :: zs) c bus

variable {c' : Cpu} {kind : Arithmetic} {xs ys zs : Limbs}

theorem Chain.isExact (h : Chain c' kind xs ys zs c bus) :
    (0 < xs.length ∧ ys.length = xs.length) ∧
      zs.IsExact (c'.flag Psr.carry) (c'.flag Psr.overflow) xs.length
        (kind.exact xs.toNat ys.toNat (c.flag Psr.carry))
        (kind.exact xs.signed ys.signed (c.flag Psr.carry)) (kind.limbBound xs.length) := by
  -- From the highest limb down: each constructor adds the lowest limb of what it ends with.
  induction h with
  | @last kind r x y c bus h hend =>
    subst hend
    obtain ⟨hvalue, hcarry, hoverflow⟩ := h.step_eq_run
    refine ⟨⟨Nat.one_pos, rfl⟩, ?_⟩
    rw [hvalue, hcarry, hoverflow, Limbs.toNat_singleton, Limbs.toNat_singleton,
      Limbs.signed_singleton, Limbs.signed_singleton]
    show Limbs.IsExact _ _ _ 1 _ _ (kind.limbBound 1)
    rw [kind.limbBound_one]
    exact Limbs.isExact_singleton (kind.isExact_run x y (c.flag Psr.carry))
  | @link kind r x y xs ys zs c bus h n hkeeps _ ih =>
    obtain ⟨⟨hpos, hlength⟩, hrest⟩ := ih
    obtain ⟨hvalue, hcarry, -⟩ := h.step_eq_run
    have hexact := kind.isExact_run x y (c.flag Psr.carry)
    refine ⟨⟨Nat.succ_pos _, congrArg Nat.succ hlength⟩, ?_⟩
    rw [hkeeps, hcarry, hexact.carry] at hrest
    have hcons := hrest.cons hpos (kind.run x y (c.flag Psr.carry)).value
    rw [hexact.value, ← kind.exact_cons, ← kind.exact_cons, ← kind.limbBound_succ] at hcons
    rw [hvalue, Limbs.toNat_cons, Limbs.toNat_cons,
      Limbs.signed_cons x (List.length_pos_iff.1 hpos),
      Limbs.signed_cons y (List.length_pos_iff.1 (hlength ▸ hpos))]
    exact hcons

/-- A chain that begins with an addition, a subtraction or a reverse subtraction and goes on with
the same kind under carry, in either instruction set, calculates on the whole numbers modulo
`2 ^ (32 * n)` for any number `n` of limbs.  After it C is set just when the sum reaches
`2 ^ (32 * n)`, or when the difference does not borrow, and V just when the signed result does not
fit. -/
theorem limbs_of_chain :
    (Chain c' .add xs ys zs c bus →
      (0 < xs.length ∧ ys.length = xs.length ∧ zs.length = xs.length) ∧
        zs.toNat = (xs.toNat + ys.toNat) % 2 ^ (32 * xs.length) ∧
        (c'.flag Psr.carry = true ↔ 2 ^ (32 * xs.length) ≤ xs.toNat + ys.toNat) ∧
        (c'.flag Psr.overflow = true ↔ Limbs.Overflows xs.length (xs.signed + ys.signed))) ∧
    (Chain c' .subtract xs ys zs c bus →
      (0 < xs.length ∧ ys.length = xs.length ∧ zs.length = xs.length) ∧
        (zs.toNat : Int) = (xs.toNat - ys.toNat) % 2 ^ (32 * xs.length) ∧
        (c'.flag Psr.carry = true ↔ ys.toNat ≤ xs.toNat) ∧
        (c'.flag Psr.overflow = true ↔ Limbs.Overflows xs.length (xs.signed - ys.signed))) ∧
    (Chain c' .reverse xs ys zs c bus →
      (0 < xs.length ∧ ys.length = xs.length ∧ zs.length = xs.length) ∧
        (zs.toNat : Int) = (ys.toNat - xs.toNat) % 2 ^ (32 * xs.length) ∧
        (c'.flag Psr.carry = true ↔ xs.toNat ≤ ys.toNat) ∧
        (c'.flag Psr.overflow = true ↔ Limbs.Overflows xs.length (ys.signed - xs.signed))) := by
  refine ⟨fun h => ?_, fun h => ?_, fun h => ?_⟩
  · obtain ⟨⟨hpos, hlength⟩, hexact⟩ := h.isExact
    refine ⟨⟨hpos, hlength, hexact.length⟩, ?_, ?_, ?_⟩
    · apply Int.ofNat_inj.1
      rw [hexact.value]
      push_cast
      rfl
    · rw [hexact.carry, decide_eq_true_iff]
      show (2 : Int) ^ (32 * xs.length) ≤ xs.toNat + ys.toNat ↔ _
      norm_cast
    · rw [hexact.overflow, decide_eq_true_iff]
      rfl
  · obtain ⟨⟨hpos, hlength⟩, hexact⟩ := h.isExact
    refine ⟨⟨hpos, hlength, hexact.length⟩, hexact.value, ?_, ?_⟩
    · rw [hexact.carry, decide_eq_true_iff]
      show (0 : Int) ≤ xs.toNat - ys.toNat ↔ _
      omega
    · rw [hexact.overflow, decide_eq_true_iff]
      rfl
  · obtain ⟨⟨hpos, hlength⟩, hexact⟩ := h.isExact
    refine ⟨⟨hpos, hlength, hexact.length⟩, hexact.value, ?_, ?_⟩
    · rw [hexact.carry, decide_eq_true_iff]
      show (0 : Int) ≤ ys.toNat - xs.toNat ↔ _
      omega
    · rw [hexact.overflow, decide_eq_true_iff]
      rfl

/-- `ADDS r4, r0, r2` and `ADCS r5, r1, r3` with a move between them overflow into the sign of 64
bits; `SUB r4, r0, r2` and `SBC r1, r3` in the 16-bit set, and `RSBS r4, r2, r0` and
`RSCS r5, r3, r1`, borrow through both limbs. -/
theorem limbs_of_chain_borrow :
    let sum := initial.setRegs [0, 1, 2, 3] [0xFFFFFFFF, 0x7FFFFFFF, 1, 0]
    let add : FlatRam :=
      ⟨⟨#[2, 0x40, 0x90, 0xE0, 6, 0x60, 0xA0, 0xE1, 3, 0x50, 0xB1, 0xE0]⟩, false, by decide⟩
    let difference := (initial.setRegs [0, 1, 2, 3] [0, 0, 1, 0]).setThumb true
    let subtract : FlatRam := ⟨⟨#[0x84, 0x1A, 0x99, 0x41]⟩, false, by decide⟩
    let opposite := initial.setRegs [0, 1, 2, 3] [0, 0, 1, 0]
    let reverse : FlatRam := ⟨⟨#[0, 0x40, 0x72, 0xE0, 1, 0x50, 0xF3, 0xE0]⟩, false, by decide⟩
    let c₁ := (steps 3 sum add).2.1
    let c₂ := (steps 2 difference subtract).2.1
    let c₃ := (steps 2 opposite reverse).2.1
    let zs₁ : Limbs := [(step sum add).2.1.reg 4, c₁.reg 5]
    let zs₂ : Limbs := [(step difference subtract).2.1.reg 4, c₂.reg 1]
    let zs₃ : Limbs := [(step opposite reverse).2.1.reg 4, c₃.reg 5]
    (Chain c₁ .add [0xFFFFFFFF, 0x7FFFFFFF] [1, 0] zs₁ sum add ∧
      zs₁.toNat = 2 ^ 63 ∧ c₁.flag Psr.overflow = true) ∧
    (Chain c₂ .subtract [0, 0] [1, 0] zs₂ difference subtract ∧
      zs₂.toNat = 2 ^ 64 - 1 ∧ c₂.flag Psr.carry = false) ∧
    (Chain c₃ .reverse [1, 0] [0, 0] zs₃ opposite reverse ∧
      zs₃.toNat = 2 ^ 64 - 1 ∧ c₃.flag Psr.carry = false) := by
  intro sum add difference subtract opposite reverse c₁ c₂ c₃ zs₁ zs₂ zs₃
  have hadds : Calculates sum add ⟨.add, some 4, 0xFFFFFFFF, 1⟩ :=
    .arm (w := 0xE0904002) .add ⟨by decide, by decide, by decide, by decide⟩
      ⟨by decide, by decide, by decide, by decide, rfl, by decide, by decide, by decide⟩
  have hadcs : Calculates (steps 2 sum add).2.1 (steps 2 sum add).2.2
      ⟨.addCarry, some 5, 0x7FFFFFFF, 0⟩ :=
    .arm (w := 0xE0B15003) .adc ⟨by decide, by decide, by decide, by decide⟩
      ⟨by decide, by decide, by decide, by decide, rfl, by decide, by decide, by decide⟩
  have hsub : Calculates difference subtract ⟨.subtract, some 4, 0, 1⟩ :=
    .thumb (w := 0x1A84) ⟨by decide, by decide, by decide⟩ (.subtractRegister (by decide))
  have hsbc : Calculates (steps 1 difference subtract).2.1 (steps 1 difference subtract).2.2
      ⟨.subtractCarry, some 1, 0, 0⟩ := by
    refine .thumb (w := 0x4199) ⟨by decide, by decide, by decide⟩ ?_
    convert Thumb.Calculates.subtractCarry (w := 0x4199) (by decide) using 1
    decide
  have hrsbs : Calculates opposite reverse ⟨.reverse, some 4, 1, 0⟩ :=
    .arm (w := 0xE0724000) .rsb ⟨by decide, by decide, by decide, by decide⟩
      ⟨by decide, by decide, by decide, by decide, rfl, by decide, by decide, by decide⟩
  have hrscs : Calculates (steps 1 opposite reverse).2.1 (steps 1 opposite reverse).2.2
      ⟨.reverseCarry, some 5, 0, 0⟩ :=
    .arm (w := 0xE0F35001) .rsc ⟨by decide, by decide, by decide, by decide⟩
      ⟨by decide, by decide, by decide, by decide, rfl, by decide, by decide, by decide⟩
  have hsum : Chain c₁ .add [0xFFFFFFFF, 0x7FFFFFFF] [1, 0] zs₁ sum add :=
    .link hadds 1 (by decide) (.last hadcs rfl)
  have hdifference : Chain c₂ .subtract [0, 0] [1, 0] zs₂ difference subtract :=
    .link hsub 0 rfl (.last hsbc rfl)
  have hopposite : Chain c₃ .reverse [1, 0] [0, 0] zs₃ opposite reverse :=
    .link hrsbs 0 rfl (.last hrscs rfl)
  obtain ⟨-, hsum', -, hoverflow⟩ := limbs_of_chain.1 hsum
  obtain ⟨-, hdifference', hborrow, -⟩ := limbs_of_chain.2.1 hdifference
  obtain ⟨-, hopposite', hborrow', -⟩ := limbs_of_chain.2.2 hopposite
  refine ⟨⟨hsum, hsum', hoverflow.2 (by decide)⟩, ⟨hdifference, ?_, ?_⟩, ⟨hopposite, ?_, ?_⟩⟩
  · exact Int.ofNat_inj.1 hdifference'
  · exact Bool.eq_false_iff.2 (mt hborrow.1 (by decide))
  · exact Int.ofNat_inj.1 hopposite'
  · exact Bool.eq_false_iff.2 (mt hborrow'.1 (by decide))

end Cpu

end Handheld
