import Handheld.Proofs.Arm.Encoding

/-!
# 16-bit formats written in 32 bits

The 16-bit opcodes that calculate, load and store say in fewer bits what some 32-bit opcodes say.
The tables of this file list their formats: the bits by which a format is known, the fixed bits of
the 32-bit opcode, and the fields that are copied into it.  All 32-bit opcodes are always executed,
and those that calculate set the flags.
-/

namespace Handheld.Thumb

/-! ## 1. Translations -/

/-- A field of a 16-bit opcode, and what its lowest bit counts for in the 32-bit one. -/
structure Placed where
  start : Word
  width : Word
  weight : Word
deriving DecidableEq, Repr

/-- A format of 16-bit opcodes, which have `value` under `mask`, and the 32-bit opcodes that say the
same: `fixed` and the fields in their places. -/
structure Translation where
  mask : Word
  value : Word
  fixed : Word
  fields : List Placed
deriving DecidableEq, Repr

namespace Translation

def Applies (t : Translation) (w : Word) : Prop := w &&& t.mask = t.value

instance (t : Translation) (w : Word) : Decidable (t.Applies w) :=
  inferInstanceAs (Decidable (_ = _))

/-- The 32-bit opcode for the 16-bit opcode `w`. -/
@[grind =]
def word (t : Translation) (w : Word) : Word :=
  t.fields.foldl (fun v f => v + f.weight * w.field f.start f.width) t.fixed

end Translation

/-! ## 2. Calculations -/

/-- `LSL`, `LSR` and `ASR Rd, Rs, #n` are `MOVS Rd, Rs` with the same shift. -/
def shifts : List Translation :=
  let fields : List Placed := [⟨0, 3, 0x1000⟩, ⟨3, 3, 1⟩, ⟨6, 5, 0x80⟩]
  [⟨0xF800, 0x0000, 0xE1B00000, fields⟩,
    ⟨0xF800, 0x0800, 0xE1B00020, fields⟩,
    ⟨0xF800, 0x1000, 0xE1B00040, fields⟩]

/-- `ADD` and `SUB Rd, Rs, Rn` are `ADDS` and `SUBS`, and so are those with a constant in the place
of `Rn`. -/
def sums : List Translation :=
  let fields : List Placed := [⟨0, 3, 0x1000⟩, ⟨3, 3, 0x10000⟩, ⟨6, 3, 1⟩]
  [⟨0xFE00, 0x1800, 0xE0900000, fields⟩,
    ⟨0xFE00, 0x1A00, 0xE0500000, fields⟩,
    ⟨0xFE00, 0x1C00, 0xE2900000, fields⟩,
    ⟨0xFE00, 0x1E00, 0xE2500000, fields⟩]

/-- `MOV`, `CMP`, `ADD` and `SUB Rd, #n` are `MOVS Rd, #n`, `CMP Rd, #n`, `ADDS` and
`SUBS Rd, Rd, #n`. -/
def constants : List Translation :=
  [⟨0xF800, 0x2000, 0xE3B00000, [⟨8, 3, 0x1000⟩, ⟨0, 8, 1⟩]⟩,
    ⟨0xF800, 0x2800, 0xE3500000, [⟨8, 3, 0x10000⟩, ⟨0, 8, 1⟩]⟩,
    ⟨0xF800, 0x3000, 0xE2900000, [⟨8, 3, 0x10000⟩, ⟨8, 3, 0x1000⟩, ⟨0, 8, 1⟩]⟩,
    ⟨0xF800, 0x3800, 0xE2500000, [⟨8, 3, 0x10000⟩, ⟨8, 3, 0x1000⟩, ⟨0, 8, 1⟩]⟩]

/-- The operations on `Rd` and `Rs`.  Shifts become moves, and negation a reverse subtraction from
zero. -/
def operations : List Translation :=
  let both : List Placed := [⟨0, 3, 0x10000⟩, ⟨0, 3, 0x1000⟩, ⟨3, 3, 1⟩]
  let shifted : List Placed := [⟨0, 3, 0x1000⟩, ⟨3, 3, 0x100⟩, ⟨0, 3, 1⟩]
  let compared : List Placed := [⟨0, 3, 0x10000⟩, ⟨3, 3, 1⟩]
  [ -- `ANDS` and `EORS Rd, Rd, Rs`
    ⟨0xFFC0, 0x4000, 0xE0100000, both⟩,
    ⟨0xFFC0, 0x4040, 0xE0300000, both⟩,
    -- `MOVS Rd, Rd, LSL Rs`, and the same with `LSR` and `ASR`
    ⟨0xFFC0, 0x4080, 0xE1B00010, shifted⟩,
    ⟨0xFFC0, 0x40C0, 0xE1B00030, shifted⟩,
    ⟨0xFFC0, 0x4100, 0xE1B00050, shifted⟩,
    -- `ADCS` and `SBCS Rd, Rd, Rs`
    ⟨0xFFC0, 0x4140, 0xE0B00000, both⟩,
    ⟨0xFFC0, 0x4180, 0xE0D00000, both⟩,
    -- `MOVS Rd, Rd, ROR Rs`
    ⟨0xFFC0, 0x41C0, 0xE1B00070, shifted⟩,
    -- `TST Rd, Rs`
    ⟨0xFFC0, 0x4200, 0xE1100000, compared⟩,
    -- `RSBS Rd, Rs, #0`
    ⟨0xFFC0, 0x4240, 0xE2700000, [⟨3, 3, 0x10000⟩, ⟨0, 3, 0x1000⟩]⟩,
    -- `CMP` and `CMN Rd, Rs`
    ⟨0xFFC0, 0x4280, 0xE1500000, compared⟩,
    ⟨0xFFC0, 0x42C0, 0xE1700000, compared⟩,
    -- `ORRS Rd, Rd, Rs`
    ⟨0xFFC0, 0x4300, 0xE1900000, both⟩,
    -- `MULS Rd, Rd, Rs`
    ⟨0xFFC0, 0x4340, 0xE0100090, [⟨0, 3, 0x10000⟩, ⟨3, 3, 0x100⟩, ⟨0, 3, 1⟩]⟩,
    -- `BICS Rd, Rd, Rs` and `MVNS Rd, Rs`
    ⟨0xFFC0, 0x4380, 0xE1D00000, both⟩,
    ⟨0xFFC0, 0x43C0, 0xE1F00000, [⟨0, 3, 0x1000⟩, ⟨3, 3, 1⟩]⟩]

def calculations : List Translation := shifts ++ sums ++ constants ++ operations

/-! ## 3. Loads and stores -/

/-- `STR`, `STRH`, `STRB`, `LDRSB`, `LDR`, `LDRH`, `LDRB` and `LDRSH Rd, [Rb, Ro]`. -/
def registerOffsets : List Translation :=
  let fields : List Placed := [⟨0, 3, 0x1000⟩, ⟨3, 3, 0x10000⟩, ⟨6, 3, 1⟩]
  [⟨0xFE00, 0x5000, 0xE7800000, fields⟩,
    ⟨0xFE00, 0x5200, 0xE18000B0, fields⟩,
    ⟨0xFE00, 0x5400, 0xE7C00000, fields⟩,
    ⟨0xFE00, 0x5600, 0xE19000D0, fields⟩,
    ⟨0xFE00, 0x5800, 0xE7900000, fields⟩,
    ⟨0xFE00, 0x5A00, 0xE19000B0, fields⟩,
    ⟨0xFE00, 0x5C00, 0xE7D00000, fields⟩,
    ⟨0xFE00, 0x5E00, 0xE19000F0, fields⟩]

/-- `STR` and `LDR Rd, [Rb, #4 * n]`, `STRB` and `LDRB Rd, [Rb, #n]`, and `STRH` and
`LDRH Rd, [Rb, #2 * n]`, whose offset stands in two halves. -/
def constantOffsets : List Translation :=
  let words : List Placed := [⟨0, 3, 0x1000⟩, ⟨3, 3, 0x10000⟩, ⟨6, 5, 4⟩]
  let bytes : List Placed := [⟨0, 3, 0x1000⟩, ⟨3, 3, 0x10000⟩, ⟨6, 5, 1⟩]
  let halves : List Placed := [⟨0, 3, 0x1000⟩, ⟨3, 3, 0x10000⟩, ⟨9, 2, 0x100⟩, ⟨6, 3, 2⟩]
  [⟨0xF800, 0x6000, 0xE5800000, words⟩,
    ⟨0xF800, 0x6800, 0xE5900000, words⟩,
    ⟨0xF800, 0x7000, 0xE5C00000, bytes⟩,
    ⟨0xF800, 0x7800, 0xE5D00000, bytes⟩,
    ⟨0xF800, 0x8000, 0xE1C000B0, halves⟩,
    ⟨0xF800, 0x8800, 0xE1D000B0, halves⟩]

/-- `STR` and `LDR Rd, [SP, #4 * n]`; `PUSH` is `STMDB SP!` of the list and, with bit 8, the link
register, and `POP` is `LDMIA SP!` of the list. -/
def stackMoves : List Translation :=
  [⟨0xF800, 0x9000, 0xE58D0000, [⟨8, 3, 0x1000⟩, ⟨0, 8, 4⟩]⟩,
    ⟨0xF800, 0x9800, 0xE59D0000, [⟨8, 3, 0x1000⟩, ⟨0, 8, 4⟩]⟩,
    ⟨0xFE00, 0xB400, 0xE92D0000, [⟨0, 8, 1⟩, ⟨8, 1, 0x4000⟩]⟩,
    ⟨0xFF00, 0xBC00, 0xE8BD0000, [⟨0, 8, 1⟩]⟩]

def movements : List Translation := registerOffsets ++ constantOffsets ++ stackMoves

/-! ## 4. Every opcode has a translation -/

/-- Whether a format applies is settled by the bits that its mask covers. -/
theorem Translation.applies_iff {t : Translation} {m : Word} (hm : m &&& t.mask = t.mask)
    (w : Word) : t.Applies w ↔ t.Applies (w &&& m) := by
  unfold Applies
  rw [UInt32.and_assoc, hm]

/-- What a mask of one field keeps is a multiple of its lowest bit. -/
theorem and_mask_eq_ofNat {m : Word} {i n : Nat} (hm : m.toNat = (2 ^ n - 1) * 2 ^ i) (w : Word) :
    w &&& m = UInt32.ofNat (w.toNat / 2 ^ i % 2 ^ n * 2 ^ i) := by
  have hnat := Word.toNat_and_mask hm w
  apply UInt32.toNat_inj.1
  rw [UInt32.toNat_ofNat_of_lt' (hnat ▸ (w &&& m).toNat_lt), hnat]

theorem exists_calculation {w : Word} (h : w.toNat / 2 ^ 6 % 2 ^ 10 < 0x110) :
    ∃ t ∈ calculations, t.Applies w := by
  have hmask : ∀ t ∈ calculations, 0xFFC0 &&& t.mask = t.mask := by decide
  have hall : ∀ k < 0x110, ∃ t ∈ calculations, t.Applies (UInt32.ofNat (k * 2 ^ 6)) := by
    decide +kernel
  obtain ⟨t, ht, happlies⟩ := hall _ h
  refine ⟨t, ht, (Translation.applies_iff (hmask t ht) w).2 ?_⟩
  rwa [and_mask_eq_ofNat (i := 6) (n := 10) rfl]

theorem exists_movement {w : Word} {k : Nat} (hk : w.toNat / 2 ^ 8 % 2 ^ 8 = k)
    (h : (0x50 ≤ k ∧ k < 0xA0) ∨ (0xB4 ≤ k ∧ k < 0xB6) ∨ k = 0xBC) :
    ∃ t ∈ movements, t.Applies w := by
  have hmask : ∀ t ∈ movements, 0xFF00 &&& t.mask = t.mask := by decide
  have hall : ∀ k < 0x100, (0x50 ≤ k ∧ k < 0xA0) ∨ (0xB4 ≤ k ∧ k < 0xB6) ∨ k = 0xBC →
      ∃ t ∈ movements, t.Applies (UInt32.ofNat (k * 2 ^ 8)) := by
    decide +kernel
  obtain ⟨t, ht, happlies⟩ := hall k (by omega) h
  refine ⟨t, ht, (Translation.applies_iff (hmask t ht) w).2 ?_⟩
  rwa [and_mask_eq_ofNat (i := 8) (n := 8) rfl, hk]

end Handheld.Thumb
