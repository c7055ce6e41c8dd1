import Handheld.Bus.FlatRam
import Handheld.Proofs.Adder
import Handheld.Proofs.Arm.Encoding
import Handheld.Proofs.Psr
import Handheld.Proofs.Steps
import Handheld.Proofs.Thumb.Formats
import Handheld.Thumb.Execute

/-!
# Multiplication on exact integers

A multiplication has two factors, an addend and a place for the product: one register, or the two
halves of a pair.  All of them are taken from the state before the instruction, so it does not
matter which registers coincide.  This file says which opcodes of both instruction sets are which
multiplications, and what a multiplication leaves behind in terms of the exact result.
-/

namespace Handheld

/-! ## 1. Factors -/

namespace Word

/-- The number that a word stands for as a factor. -/
def factor (signed : Bool) (w : Word) : Int := if signed then w.signed else w.toNat

/-- A factor with 64 bits. -/
def widen (signed : Bool) (w : Word) : UInt64 := if signed then w.signExtend64 else w.toUInt64

theorem toNat_signExtend64 (w : Word) : (w.signExtend64.toNat : Int) = w.signed % 2 ^ 64 := by
  have hlt := w.toNat_lt
  have htop : w.bit 31 = decide (2 ^ 31 ≤ w.toNat) :=
    (bit_eq_testBit (by decide) w).trans w.testBit_top
  unfold signExtend64
  rw [htop, signed_eq]
  by_cases h : 2 ^ 31 ≤ w.toNat
  -- The ones above do not meet the word, so setting them adds them.
  · have hor : (w.toUInt64 ||| 0xFFFFFFFF00000000).toNat = 2 ^ 32 * (2 ^ 32 - 1) + w.toNat := by
      rw [UInt64.toNat_or, UInt32.toNat_toUInt64, Nat.or_comm]
      exact (Nat.two_pow_add_eq_or_of_lt hlt (2 ^ 32 - 1)).symm
    rw [if_pos (decide_eq_true h), if_neg (by omega), hor]
    omega
  · rw [if_neg (by simpa using h), if_pos (by omega), UInt32.toNat_toUInt64]
    omega

theorem toNat_widen (signed : Bool) (w : Word) :
    ((w.widen signed).toNat : Int) = w.factor signed % 2 ^ 64 := by
  cases signed with
  | true => exact w.toNat_signExtend64
  | false =>
    have hlt := w.toNat_lt
    show (w.toUInt64.toNat : Int) = (w.toNat : Int) % 2 ^ 64
    rw [UInt32.toNat_toUInt64]
    omega

theorem natAbs_signed_le (w : Word) : w.signed.natAbs ≤ 2 ^ 31 := by
  have hlt := w.toNat_lt
  rw [signed_eq]
  split <;> omega

theorem signed_mul_bounds (a b : Word) :
    -2 ^ 63 ≤ a.signed * b.signed ∧ a.signed * b.signed < 2 ^ 63 := by
  have habs : (a.signed * b.signed).natAbs ≤ 2 ^ 31 * 2 ^ 31 := by
    rw [Int.natAbs_mul]
    exact Nat.mul_le_mul a.natAbs_signed_le b.natAbs_signed_le
  omega

theorem toNat_mul_lt (a b : Word) : (a.toNat : Int) * b.toNat < 2 ^ 64 := by
  exact_mod_cast Nat.mul_lt_mul'' a.toNat_lt b.toNat_lt

/-- The halves of a 64-bit number, put together. -/
theorem toUInt64_or (high low : Word) :
    (high.toUInt64 <<< 32) ||| low.toUInt64 = UInt64.ofNat (2 ^ 32 * high.toNat + low.toNat) := by
  have hhigh := high.toNat_lt
  have hlow := low.toNat_lt
  have hshift : (high.toUInt64 <<< 32).toNat = 2 ^ 32 * high.toNat := by
    rw [UInt64.toNat_shiftLeft, UInt32.toNat_toUInt64]
    show high.toNat <<< 32 % 2 ^ 64 = _
    rw [Nat.shiftLeft_eq]
    omega
  apply UInt64.toNat_inj.1
  rw [UInt64.toNat_or, hshift, UInt32.toNat_toUInt64, ← Nat.two_pow_add_eq_or_of_lt hlow,
    UInt64.toNat_ofNat', Nat.mod_eq_of_lt (by omega)]

/-- Widened factors multiply exactly, modulo `2 ^ 64`. -/
theorem toNat_widen_mul_add (signed : Bool) (a b : Word) (n : Nat) :
    ((a.widen signed * b.widen signed + UInt64.ofNat n).toNat : Int) =
      (a.factor signed * b.factor signed + n) % 2 ^ 64 := by
  rw [UInt64.toNat_add, UInt64.toNat_mul, UInt64.toNat_ofNat', Int.natCast_emod, Int.natCast_add,
    Int.natCast_emod, Int.natCast_mul, Int.natCast_emod, toNat_widen, toNat_widen]
  show (a.factor signed % 2 ^ 64 * (b.factor signed % 2 ^ 64) % 2 ^ 64 + n % 2 ^ 64) % 2 ^ 64 = _
  rw [← Int.mul_emod, ← Int.add_emod]

end Word

/-! ## 2. Where a product goes -/

/-- One register, or the high and the low half of a pair. -/
inductive ProductDest where
  | word (r : Reg)
  | pair (high low : Reg)
deriving DecidableEq, Repr

namespace ProductDest

/-- The number of bits. -/
def width : ProductDest → Nat
  | word _ => 32
  | pair _ _ => 64

def regs : ProductDest → List Reg
  | word r => [r]
  | pair high low => [high, low]

/-- The number held in `c`.  It is the high half that carries the sign of a pair. -/
def read (d : ProductDest) (signed : Bool) (c : Cpu) : Int :=
  match d with
  | word r => (c.reg r).factor signed
  | pair high low => 2 ^ 32 * (c.reg high).factor signed + (c.reg low).toNat

/-- As many low bits of `v` as there is room for, stored. -/
def store (d : ProductDest) (c : Cpu) (v : UInt64) : Cpu :=
  match d with
  | word r => c.setReg r v.toUInt32
  | pair high low => (c.setReg low v.toUInt32).setReg high (v >>> 32).toUInt32

/-- A status word with N and Z those of what is stored. -/
def sign (d : ProductDest) (p : Psr) (v : UInt64) : Psr :=
  match d with
  | word _ => p.withSign v.toUInt32
  | pair _ _ => p.withSign64 v

variable {d : ProductDest} {c : Cpu} {v : UInt64}

theorem reg_store {r : Reg} (hr : r ∉ d.regs) : (d.store c v).reg r = c.reg r := by
  cases d with
  | word r' => exact Cpu.reg_setReg_ne _ _ (by simpa [regs, eq_comm] using hr)
  | pair high low =>
    obtain ⟨hhigh, hlow⟩ : r ≠ high ∧ r ≠ low := by simpa [regs] using hr
    exact (Cpu.reg_setReg_ne _ _ hhigh.symm).trans (Cpu.reg_setReg_ne _ _ hlow.symm)

theorem saved_store : (d.store c v).saved = c.saved := by cases d <;> rfl

theorem banked_store : (d.store c v).banked = c.banked := by cases d <;> rfl

theorem read_store_word {r : Reg} :
    (word r).read false ((word r).store c v) = (v.toNat : Int) % 2 ^ 32 := by
  show (((c.setReg r v.toUInt32).reg r).toNat : Int) = _
  rw [Cpu.reg_setReg_self, UInt64.toNat_toUInt32]
  omega

theorem read_store_pair {high low : Reg} (h : high ≠ low) (signed : Bool) :
    (pair high low).read signed ((pair high low).store c v) =
      if signed = true ∧ 2 ^ 63 ≤ v.toNat then (v.toNat : Int) - 2 ^ 64 else (v.toNat : Int) := by
  have hlt := v.toNat_lt
  have hhigh : (v >>> 32).toUInt32.toNat = v.toNat / 2 ^ 32 := by
    rw [UInt64.toNat_toUInt32, UInt64.toNat_shiftRight]
    show v.toNat >>> 32 % 2 ^ 32 = _
    rw [Nat.shiftRight_eq_div_pow]
    omega
  have hlow : v.toUInt32.toNat = v.toNat % 2 ^ 32 := UInt64.toNat_toUInt32 v
  show 2 ^ 32 * Word.factor signed
      (((c.setReg low v.toUInt32).setReg high (v >>> 32).toUInt32).reg high) +
    ((((c.setReg low v.toUInt32).setReg high (v >>> 32).toUInt32).reg low).toNat : Int) = _
  rw [Cpu.reg_setReg_self, Cpu.reg_setReg_ne _ _ h, Cpu.reg_setReg_self, hlow]
  -- The low half is unsigned either way; the sign of the pair is that of the high half.
  cases signed with
  | false =>
    show 2 ^ 32 * ((v >>> 32).toUInt32.toNat : Int) + _ = _
    rw [hhigh, if_neg (by simp)]
    omega
  | true =>
    show 2 ^ 32 * Word.signed (v >>> 32).toUInt32 + _ = _
    rw [Word.signed_eq, hhigh]
    simp only [true_and]
    split <;> split <;> omega

/-- Storing sets N and Z, each as the destination has it. -/
theorem exists_sign (d : ProductDest) (p : Psr) (v : UInt64) :
    ∃ n z, d.sign p v = (p.assign Psr.negative n).assign Psr.zero z := by
  cases d with
  | word r => exact ⟨_, _, rfl⟩
  | pair high low => exact ⟨_, _, rfl⟩

theorem and_sign_of_disjoint {m : Word} (hn : Psr.negative &&& m = 0) (hz : Psr.zero &&& m = 0)
    (p : Psr) : (d.sign p v).bits &&& m = p.bits &&& m := by
  obtain ⟨n, z, hsign⟩ := exists_sign d p v
  rw [hsign, Psr.and_assign_of_disjoint hz, Psr.and_assign_of_disjoint hn]

theorem test_sign_zero (p : Psr) :
    (d.sign p v).test Psr.zero = true ↔ v.toNat % 2 ^ d.width = 0 := by
  cases d with
  | word r =>
    show ((p.assign _ _).assign Psr.zero (v.toUInt32 == 0)).test Psr.zero = true ↔ _
    rw [Psr.test_assign_self (by decide), beq_iff_eq, ← UInt32.toNat_inj, UInt64.toNat_toUInt32]
    rfl
  | pair high low =>
    show ((p.assign _ _).assign Psr.zero (v == 0)).test Psr.zero = true ↔ v.toNat % 2 ^ 64 = 0
    rw [Psr.test_assign_self (by decide), beq_iff_eq, ← UInt64.toNat_inj,
      Nat.mod_eq_of_lt v.toNat_lt]
    rfl

theorem test_sign_negative (p : Psr) :
    (d.sign p v).test Psr.negative = true ↔ 2 ^ (d.width - 1) ≤ v.toNat % 2 ^ d.width := by
  cases d with
  | word r =>
    show ((p.assign Psr.negative (Word.bit v.toUInt32 31)).assign Psr.zero _).test Psr.negative =
      true ↔ 2 ^ 31 ≤ v.toNat % 2 ^ 32
    rw [Psr.test_assign_of_disjoint (by decide), Psr.test_assign_self (by decide),
      Word.bit_eq_testBit (by decide)]
    show v.toUInt32.toNat.testBit 31 = true ↔ _
    rw [Word.testBit_top, decide_eq_true_iff, UInt64.toNat_toUInt32]
  | pair high low =>
    have hlt := v.toNat_lt
    have htop : v.toNat.testBit 63 = decide (2 ^ 63 ≤ v.toNat) := by
      rw [Nat.testBit_eq_decide_div_mod_eq]
      apply decide_eq_decide.2
      omega
    have hand : (v &&& 0x8000000000000000).toNat = (v.toNat.testBit 63).toNat * 2 ^ 63 :=
      (UInt64.toNat_and v _).trans (Nat.and_two_pow v.toNat 63)
    show ((p.assign Psr.negative (v &&& 0x8000000000000000 != 0)).assign Psr.zero _).test
      Psr.negative = true ↔ 2 ^ 63 ≤ v.toNat % 2 ^ 64
    rw [Psr.test_assign_of_disjoint (by decide), Psr.test_assign_self (by decide), bne_iff_ne,
      ne_eq, ← UInt64.toNat_inj, hand, htop, Nat.mod_eq_of_lt hlt]
    by_cases h : 2 ^ 63 ≤ v.toNat <;> simp

end ProductDest

/-! ## 3. Multiplications -/

structure Multiplication where
  dest : ProductDest
  signed : Bool
  setFlags : Bool
  left : Word
  right : Word
  /-- What the product is added to; nothing is zero. -/
  addend : Nat
deriving DecidableEq, Repr

namespace Multiplication

def product (k : Multiplication) : Int := k.left.factor k.signed * k.right.factor k.signed

/-- The exact result. -/
def result (k : Multiplication) : Int := k.product + k.addend

/-- The multiplication takes `c` to `c'`, where the program counter may be any. -/
structure Executed (k : Multiplication) (c c' : Cpu) : Prop where
  value : k.dest.read false c' = k.result % 2 ^ k.dest.width
  /-- A pair has room for the product. -/
  exact : k.dest.width = 64 → k.addend = 0 → k.dest.read k.signed c' = k.product
  negative : k.setFlags = true →
    (c'.flag Psr.negative = true ↔ 2 ^ (k.dest.width - 1) ≤ k.result % 2 ^ k.dest.width)
  zero : k.setFlags = true → (c'.flag Psr.zero = true ↔ k.result % 2 ^ k.dest.width = 0)
  /-- All bits of the status word but N and Z, and these too unless the flags are to be set. -/
  status : ∀ m : Word, k.setFlags = false ∨ (Psr.negative &&& m = 0 ∧ Psr.zero &&& m = 0) →
    c'.cpsr.bits &&& m = c.cpsr.bits &&& m
  regs : ∀ r, r ∉ k.dest.regs → r ≠ .pc → c'.reg r = c.reg r
  saved : c'.saved = c.saved
  banked : c'.banked = c.banked

/-- The result modulo `2 ^ 64`. -/
def wide (k : Multiplication) : UInt64 :=
  k.left.widen k.signed * k.right.widen k.signed + UInt64.ofNat k.addend

theorem toNat_wide (k : Multiplication) : (k.wide.toNat : Int) = k.result % 2 ^ 64 :=
  Word.toNat_widen_mul_add k.signed k.left k.right k.addend

/-- What the multiplier makes of it. -/
def outcome (k : Multiplication) (c : Cpu) : Cpu :=
  { k.dest.store c k.wide with
    cpsr := if k.setFlags then k.dest.sign c.cpsr k.wide else c.cpsr }

theorem value_outcome {k : Multiplication} (h : k.dest.regs.Nodup) (c : Cpu) :
    k.dest.read false (k.outcome c) = k.result % 2 ^ k.dest.width := by
  have hwide := k.toNat_wide
  show k.dest.read false (k.dest.store c k.wide) = _
  cases hdest : k.dest with
  | word r =>
    rw [ProductDest.read_store_word, hwide]
    exact Int.emod_emod_of_dvd _ (by decide)
  | pair high low =>
    rw [hdest] at h
    rw [ProductDest.read_store_pair (by simpa [ProductDest.regs] using h), if_neg (by simp), hwide]
    rfl

theorem exact_outcome {k : Multiplication} (h : k.dest.regs.Nodup) (hwidth : k.dest.width = 64)
    (hadd : k.addend = 0) (c : Cpu) : k.dest.read k.signed (k.outcome c) = k.product := by
  have hwide := k.toNat_wide
  have hresult : k.result = k.product := by
    rw [result, hadd]
    exact Int.add_zero _
  rw [hresult] at hwide
  show k.dest.read k.signed (k.dest.store c k.wide) = _
  cases hdest : k.dest with
  | word r =>
    rw [hdest] at hwidth
    cases hwidth
  | pair high low =>
    rw [hdest] at h
    rw [ProductDest.read_store_pair (by simpa [ProductDest.regs] using h)]
    -- A product of two words is in the range of its kind, so it is what it is modulo `2 ^ 64`.
    unfold product Word.factor at hwide ⊢
    cases hsigned : k.signed with
    | false =>
      have hpos := Int.mul_nonneg (Int.natCast_nonneg k.left.toNat)
        (Int.natCast_nonneg k.right.toNat)
      have hlt := k.left.toNat_mul_lt k.right
      simp only [hsigned, Bool.false_eq_true, if_false, false_and] at hwide ⊢
      omega
    | true =>
      have hbounds := k.left.signed_mul_bounds k.right
      simp only [hsigned, if_true, true_and] at hwide ⊢
      split <;> omega

theorem executed_outcome {k : Multiplication} (h : k.dest.regs.Nodup) (c : Cpu) :
    k.Executed c (k.outcome c) := by
  have hwide := k.toNat_wide
  -- What is kept of the result modulo `2 ^ 64` is the result modulo the width.
  have hmod : ((k.wide.toNat % 2 ^ k.dest.width : Nat) : Int) = k.result % 2 ^ k.dest.width := by
    cases k.dest with
    | word r =>
      show ((k.wide.toNat % 2 ^ 32 : Nat) : Int) = k.result % 2 ^ 32
      omega
    | pair high low =>
      show ((k.wide.toNat % 2 ^ 64 : Nat) : Int) = k.result % 2 ^ 64
      omega
  refine ⟨value_outcome h c, fun hw ha => exact_outcome h hw ha c, ?_, ?_, ?_, ?_, ?_, ?_⟩
  · intro hset
    show (if k.setFlags then k.dest.sign c.cpsr k.wide else c.cpsr).test Psr.negative = true ↔ _
    rw [if_pos hset, ProductDest.test_sign_negative, ← hmod]
    exact_mod_cast Iff.rfl
  · intro hset
    show (if k.setFlags then k.dest.sign c.cpsr k.wide else c.cpsr).test Psr.zero = true ↔ _
    rw [if_pos hset, ProductDest.test_sign_zero, ← hmod]
    exact_mod_cast Iff.rfl
  · intro m hm
    show (if k.setFlags then k.dest.sign c.cpsr k.wide else c.cpsr).bits &&& m = _
    cases hset : k.setFlags with
    | false => rfl
    | true =>
      obtain ⟨hn, hz⟩ := hm.resolve_left (by simp [hset])
      exact ProductDest.and_sign_of_disjoint hn hz c.cpsr
  · intro r hr _
    exact ProductDest.reg_store hr
  · exact ProductDest.saved_store
  · exact ProductDest.banked_store

/-- Where the program counter stood, and the time, do not matter. -/
theorem Executed.of_fetched {k : Multiplication} {c c' : Cpu} {next : Word}
    (h : k.Executed (c.setReg .pc next) c') (n : Ticks) :
    k.Executed c { c' with cycles := n } where
  value := h.value
  exact := h.exact
  negative := h.negative
  zero := h.zero
  status := h.status
  regs r hr hpc := (h.regs r hr hpc).trans (Cpu.reg_setReg_ne c next hpc.symm)
  saved := h.saved
  banked := h.banked

end Multiplication

/-! ## 4. Opcodes -/

section Instructions

variable {β : Type} [Bus β] {c : Cpu} {bus : β} {address w : Word} {k : Multiplication}

namespace Arm

/-- The opcode `w` is a multiplication in the state `c` that does not name the program counter. -/
inductive Multiplies (c : Cpu) (w : Word) : Multiplication → Prop where
  | short (h : w &&& 0x0FC000F0 = 0x00000090) (hdest : w.reg 16 ≠ .pc) (hleft : w.reg 0 ≠ .pc)
    (hright : w.reg 8 ≠ .pc) (haddend : w.bit 21 = true → w.reg 12 ≠ .pc) :
    Multiplies c w
      { dest := .word (w.reg 16)
        signed := false
        setFlags := w.bit 20
        left := c.reg (w.reg 0)
        right := c.reg (w.reg 8)
        addend := if w.bit 21 then (c.reg (w.reg 12)).toNat else 0 }
  | long (h : w &&& 0x0F8000F0 = 0x00800090) (hhigh : w.reg 16 ≠ .pc) (hlow : w.reg 12 ≠ .pc)
    (hleft : w.reg 0 ≠ .pc) (hright : w.reg 8 ≠ .pc) (hpair : w.reg 16 ≠ w.reg 12) :
    Multiplies c w
      { dest := .pair (w.reg 16) (w.reg 12)
        signed := w.bit 22
        setFlags := w.bit 20
        left := c.reg (w.reg 0)
        right := c.reg (w.reg 8)
        addend :=
          if w.bit 21 then 2 ^ 32 * (c.reg (w.reg 16)).toNat + (c.reg (w.reg 12)).toNat else 0 }

theorem Multiplies.nodup (h : Multiplies c w k) : k.dest.regs.Nodup := by
  cases h with
  | short => exact List.pairwise_singleton _ _
  | long _ _ _ _ _ hpair => simpa [ProductDest.regs] using hpair

theorem Multiplies.of_fetched (h : Multiplies c w k) (next : Word) :
    Multiplies (c.setReg .pc next) w k := by
  have hreg {r : Reg} (hr : r ≠ .pc) : (c.setReg .pc next).reg r = c.reg r :=
    Cpu.reg_setReg_ne c next hr.symm
  cases h with
  | short h hdest hleft hright haddend =>
    have hmoved := Multiplies.short (c := c.setReg .pc next) h hdest hleft hright haddend
    rw [hreg hleft, hreg hright] at hmoved
    -- Without accumulation the field of the addend is not read, and may name any register.
    cases hacc : w.bit 21 with
    | false => simpa [hacc] using hmoved
    | true => simpa [hacc, hreg (haddend hacc)] using hmoved
  | long h hhigh hlow hleft hright hpair =>
    have hmoved := Multiplies.long (c := c.setReg .pc next) h hhigh hlow hleft hright hpair
    rwa [hreg hleft, hreg hright, hreg hhigh, hreg hlow] at hmoved

theorem multiply_eq_outcome (accumulate setFlags : Bool) (dest left right addend : Reg) :
    multiply c accumulate setFlags dest left right addend =
      Multiplication.outcome
        ⟨.word dest, false, setFlags, c.reg left, c.reg right,
          if accumulate then (c.reg addend).toNat else 0⟩ c := by
  -- The low 32 bits of a sum and of a product come from the low 32 bits alone.
  have hvalue :
      ((c.reg left).widen false * (c.reg right).widen false +
        UInt64.ofNat (if accumulate then (c.reg addend).toNat else 0)).toUInt32 =
      if accumulate then c.reg left * c.reg right + c.reg addend
      else c.reg left * c.reg right := by
    cases accumulate <;> simp [Word.widen]
  unfold multiply Multiplication.outcome Multiplication.wide ProductDest.store ProductDest.sign
  dsimp only
  rw [hvalue]
  cases setFlags <;> rfl

theorem multiplyLong_eq_outcome (signed accumulate setFlags : Bool) (high low left right : Reg) :
    multiplyLong c signed accumulate setFlags high low left right =
      Multiplication.outcome
        ⟨.pair high low, signed, setFlags, c.reg left, c.reg right,
          if accumulate then 2 ^ 32 * (c.reg high).toNat + (c.reg low).toNat else 0⟩ c := by
  have hvalue :
      (c.reg left).widen signed * (c.reg right).widen signed +
        UInt64.ofNat
          (if accumulate then 2 ^ 32 * (c.reg high).toNat + (c.reg low).toNat else 0) =
      if accumulate then
        (c.reg left).widen signed * (c.reg right).widen signed +
          (((c.reg high).toUInt64 <<< 32) ||| (c.reg low).toUInt64)
      else (c.reg left).widen signed * (c.reg right).widen signed := by
    rw [Word.toUInt64_or]
    cases accumulate with
    | false => exact UInt64.add_zero _
    | true => rfl
  unfold Multiplication.outcome Multiplication.wide ProductDest.store ProductDest.sign
  dsimp only
  rw [hvalue]
  cases setFlags <;> rfl

theorem Multiplies.execute_eq (h : Multiplies c w k) :
    execute (decode w) c bus address = (k.outcome c, bus) := by
  cases h with
  | short h =>
    rw [decode_eq_multiply (Word.field_eq_of_and_eq h 22 6 rfl) (Word.field_eq_of_and_eq h 4 4 rfl)]
    exact congrArg (·, bus) (multiply_eq_outcome _ _ _ _ _ _)
  | long h =>
    rw [decode_eq_multiplyLong h]
    exact congrArg (·, bus) (multiplyLong_eq_outcome _ _ _ _ _ _ _)

end Arm

namespace Thumb

/-- The opcode `w` is a multiplication in the state `c`; no format of one reaches the program
counter. -/
inductive Multiplies (c : Cpu) (w : Word) : Multiplication → Prop where
  | low (h : w &&& 0xFFC0 = 0x4340) :
    Multiplies c w
      { dest := .word (w.lowReg 0)
        signed := false
        setFlags := true
        left := c.reg (w.lowReg 0)
        right := c.reg (w.lowReg 3)
        addend := 0 }

theorem Multiplies.nodup (h : Multiplies c w k) : k.dest.regs.Nodup := by
  cases h
  exact List.pairwise_singleton _ _

theorem Multiplies.of_fetched (h : Multiplies c w k) (next : Word) :
    Multiplies (c.setReg .pc next) w k := by
  have hreg (i : Word) : (c.setReg .pc next).reg (w.lowReg i) = c.reg (w.lowReg i) := by
    have hlow := Word.val_lowReg_lt w i
    refine Cpu.reg_setReg_ne c next fun h => ?_
    rw [← h] at hlow
    exact absurd hlow (by decide)
  obtain ⟨h⟩ := h
  have hmoved := Multiplies.low (c := c.setReg .pc next) h
  rwa [hreg 0, hreg 3] at hmoved

theorem Multiplies.execute_eq (h : Multiplies c w k) :
    execute (decode w) c bus address = (k.outcome c, bus) := by
  obtain ⟨h⟩ := h
  rw [decode_alu h rfl]
  show (writeLogical c (w.lowReg 0) (c.reg (w.lowReg 0) * c.reg (w.lowReg 3)), bus) = _
  simp [writeLogical, setSign, Multiplication.outcome, Multiplication.wide, ProductDest.store,
    ProductDest.sign, Word.widen]

end Thumb

/-! ## 5. Steps -/

/-- Whatever the registers hold and whichever of them coincide, a multiplication is exact: the
result modulo `2 ^ 32` or `2 ^ 64` goes to the destination, a pair holds the whole product, N and Z
describe the whole result, and nothing else changes but the program counter. -/
theorem Cpu.multiplication_exact (c : Cpu) (bus : β) (w : Word) (k : Multiplication) :
    (ExecutesArm c bus w → Arm.Multiplies c w k → k.Executed c (step c bus).2.1) ∧
    (ExecutesThumb c bus w → Thumb.Multiplies c w k → k.Executed c (step c bus).2.1) := by
  constructor
  · intro hop h
    have hexecuted := Multiplication.executed_outcome h.nodup (c.setReg .pc ((c.pc &&& ~~~3) + 4))
    unfold step
    rw [hop.perform_eq, (h.of_fetched _).execute_eq]
    exact hexecuted.of_fetched _
  · intro hop h
    have hexecuted := Multiplication.executed_outcome h.nodup (c.setReg .pc ((c.pc &&& ~~~1) + 2))
    unfold step
    rw [hop.perform_eq, (h.of_fetched _).execute_eq]
    exact hexecuted.of_fetched _

end Instructions

/-- `smlals r0, r1, r0, r1` multiplies the halves of the pair it adds to; the result wraps around to
zero, and Z sees all of it.  `muls r0, r0` squares in place. -/
theorem Cpu.multiplication_exact_overlap :
    let long : FlatRam := ⟨⟨#[0x90, 0x01, 0xF1, 0xE0]⟩, false, by decide⟩
    let short : FlatRam := ⟨⟨#[0x40, 0x43, 0, 0]⟩, false, by decide⟩
    let arm := (initial.setReg 0 0x80000000).setReg 1 0xFFFFFFFF
    let thumb := (initial.setReg 0 0xFFFF).setThumb true
    let wrapping : Multiplication :=
      ⟨.pair 1 0, true, true, 0x80000000, 0xFFFFFFFF, 2 ^ 32 * 0xFFFFFFFF + 0x80000000⟩
    let square : Multiplication := ⟨.word 0, false, true, 0xFFFF, 0xFFFF, 0⟩
    ExecutesArm arm long 0xE0F10190 ∧ Arm.Multiplies arm 0xE0F10190 wrapping ∧
      ExecutesThumb thumb short 0x4340 ∧ Thumb.Multiplies thumb 0x4340 square ∧
      wrapping.Executed arm (step arm long).2.1 ∧ square.Executed thumb (step thumb short).2.1 ∧
      wrapping.result = 2 ^ 64 ∧ (step arm long).2.1.flag Psr.zero = true ∧
      (step thumb short).2.1.reg 0 = 0xFFFE0001 := by
  intro long short arm thumb wrapping square
  have harm : ExecutesArm arm long 0xE0F10190 := ⟨by decide, by decide, by decide, by decide⟩
  have hthumb : ExecutesThumb thumb short 0x4340 := ⟨by decide, by decide, by decide⟩
  have hlong : Arm.Multiplies arm 0xE0F10190 wrapping :=
    .long (by decide) (by decide) (by decide) (by decide) (by decide) (by decide)
  have hshort : Thumb.Multiplies thumb 0x4340 square := .low (by decide)
  exact ⟨harm, hlong, hthumb, hshort,
    (multiplication_exact arm long 0xE0F10190 wrapping).1 harm hlong,
    (multiplication_exact thumb short 0x4340 square).2 hthumb hshort, by decide, by decide,
    by decide⟩

end Handheld
