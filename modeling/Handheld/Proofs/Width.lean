import Handheld.Bus

/-!
# Accesses of three widths

An access is a byte, a halfword or a word wide, and is made of as many byte accesses at ascending
addresses from the aligned one on.  What a bus does on bytes therefore settles what it does on the
wider accesses, and each law is proved for runs of bytes, once.
-/

namespace Handheld

/-! ## 1. Runs of bytes -/

namespace Bus

variable {β : Type} [Bus β]

/-- The `n` bytes at ascending addresses from `address` on. -/
def readBytes (bus : β) (address : Word) : Nat → List Byte × β
  | 0 => ([], bus)
  | n + 1 =>
    let first := read8 bus address
    let rest := readBytes first.2 (address + 1) n
    (first.1 :: rest.1, rest.2)

end Bus

namespace Word

theorem add_one_add_ofNat (a : Word) (i : Nat) :
    a + 1 + UInt32.ofNat i = a + UInt32.ofNat (i + 1) := by
  rw [UInt32.ofNat_add, UInt32.add_comm (UInt32.ofNat i), ← UInt32.add_assoc]
  rfl

theorem add_one_add_one (a : Word) : a + 1 + 1 = a + 2 := UInt32.add_assoc a 1 1

theorem add_two_add_one (a : Word) : a + 2 + 1 = a + 3 := UInt32.add_assoc a 2 1

/-- The bytes a word is put together from. -/
theorem byte_ofBytes (b₀ b₁ b₂ b₃ : Byte) :
    (ofBytes b₀ b₁ b₂ b₃).byte 0 = b₀ ∧ (ofBytes b₀ b₁ b₂ b₃).byte 1 = b₁ ∧
      (ofBytes b₀ b₁ b₂ b₃).byte 2 = b₂ ∧ (ofBytes b₀ b₁ b₂ b₃).byte 3 = b₃ := by
  have h₀ := b₀.toNat_lt
  have h₁ := b₁.toNat_lt
  have h₂ := b₂.toNat_lt
  have h₃ := b₃.toNat_lt
  refine ⟨?_, ?_, ?_, ?_⟩ <;> apply UInt8.toNat_inj.1 <;>
    simp [byte, toNat_ofBytes, Nat.shiftRight_eq_div_pow] <;> omega

end Word

/-- What every write of a run keeps, the run keeps. -/
theorem Bus.writeBytes_keeps {β : Type} [Bus β] {P : β → Prop} {a : Word} {bs : List Byte}
    (hstep : ∀ bus, P bus → ∀ i < bs.length, ∀ v, P (write8 bus (a + UInt32.ofNat i) v))
    {bus : β} (h : P bus) : P (writeBytes bus a bs) := by
  induction bs generalizing bus a with
  | nil => exact h
  | cons b bs ih =>
    have hzero : a + UInt32.ofNat 0 = a := UInt32.add_zero a
    have hfirst := hstep bus h 0 (Nat.zero_lt_succ _) b
    rw [hzero] at hfirst
    refine ih (fun bus hbus i hi v => ?_) hfirst
    rw [Word.add_one_add_ofNat]
    exact hstep bus hbus (i + 1) (Nat.succ_lt_succ hi) v

/-! ## 2. Widths -/

inductive Width where
  | byte
  | half
  | word
deriving DecidableEq, Repr

namespace Width

/-- The number of bytes of an access. -/
@[reducible] def size : Width → Nat
  | byte => 1
  | half => 2
  | word => 4

/-- What an access of the width carries. -/
abbrev Value : Width → Type
  | byte => Byte
  | half => Half
  | word => Word

/-- The address with its low bits cleared to the width. -/
def align : Width → Word → Word
  | byte, a => a
  | half, a => a &&& ~~~1
  | word, a => a &&& ~~~3

/-- Byte `i` of a value, counted from the low end. -/
def byteOf : (w : Width) → w.Value → Nat → Byte
  | byte, v, _ => v
  | half, v, i => if i = 0 then v.low else v.high
  | word, v, i => v.byte (UInt32.ofNat i)

/-- The bytes of a value, the lowest first. -/
def toBytes (w : Width) (v : w.Value) : List Byte := (List.range w.size).map (w.byteOf v)

variable {β : Type} [Bus β]

def read : (w : Width) → β → Word → w.Value × β
  | byte => Bus.read8
  | half => Bus.read16
  | word => Bus.read32

def write : (w : Width) → β → Word → w.Value → β
  | byte => Bus.write8
  | half => Bus.write16
  | word => Bus.write32

/-! ## 3. An access as a run of bytes -/

theorem length_toBytes (w : Width) (v : w.Value) : (w.toBytes v).length = w.size := by
  unfold toBytes
  rw [List.length_map, List.length_range]

theorem getElem_toBytes (w : Width) (v : w.Value) {i : Nat} (hi : i < (w.toBytes v).length) :
    (w.toBytes v)[i] = w.byteOf v i := by
  simp only [toBytes, List.getElem_map, List.getElem_range]

/-- A value is made of its bytes. -/
theorem eq_of_toBytes_eq (w : Width) {v v' : w.Value} (h : w.toBytes v = w.toBytes v') :
    v = v' := by
  cases w with
  | byte => exact (List.cons.inj h).1
  | half =>
    obtain ⟨hlow, htail⟩ := List.cons.inj h
    obtain ⟨hhigh, -⟩ := List.cons.inj htail
    change Half.low v = Half.low v' at hlow
    change Half.high v = Half.high v' at hhigh
    rw [← Half.ofBytes_low_high v, ← Half.ofBytes_low_high v', hlow, hhigh]
  | word =>
    obtain ⟨h₀, htail₀⟩ := List.cons.inj h
    obtain ⟨h₁, htail₁⟩ := List.cons.inj htail₀
    obtain ⟨h₂, htail₂⟩ := List.cons.inj htail₁
    obtain ⟨h₃, -⟩ := List.cons.inj htail₂
    change Word.byte v 0 = Word.byte v' 0 at h₀
    change Word.byte v 1 = Word.byte v' 1 at h₁
    change Word.byte v 2 = Word.byte v' 2 at h₂
    change Word.byte v 3 = Word.byte v' 3 at h₃
    rw [← Word.ofBytes_byte v, ← Word.ofBytes_byte v', h₀, h₁, h₂, h₃]

theorem write_eq_writeBytes (w : Width) (bus : β) (a : Word) (v : w.Value) :
    w.write bus a v = Bus.writeBytes bus (w.align a) (w.toBytes v) := by
  cases w with
  | byte => rfl
  | half => rfl
  | word =>
    show Bus.write32 bus a v =
      Bus.writeBytes bus (a &&& ~~~3) [v.byte 0, v.byte 1, v.byte 2, v.byte 3]
    unfold Bus.write32
    simp only [Bus.writeBytes, Word.add_one_add_one, Word.add_two_add_one]

theorem readBytes_eq_read (w : Width) (bus : β) (a : Word) :
    Bus.readBytes bus (w.align a) w.size = (w.toBytes (w.read bus a).1, (w.read bus a).2) := by
  cases w with
  | byte => rfl
  | half =>
    show Bus.readBytes bus (a &&& ~~~1) 2 =
      ([(Bus.read16 bus a).1.low, (Bus.read16 bus a).1.high], (Bus.read16 bus a).2)
    unfold Bus.read16
    simp only [Bus.readBytes, Half.low_ofBytes, Half.high_ofBytes]
  | word =>
    show Bus.readBytes bus (a &&& ~~~3) 4 =
      ([(Bus.read32 bus a).1.byte 0, (Bus.read32 bus a).1.byte 1, (Bus.read32 bus a).1.byte 2,
        (Bus.read32 bus a).1.byte 3], (Bus.read32 bus a).2)
    unfold Bus.read32
    simp only [Bus.readBytes, Word.add_one_add_one, Word.add_two_add_one, Word.byte_ofBytes]

end Width

end Handheld
