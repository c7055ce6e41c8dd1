/-!
# Words: bits, fields and bytes of machine values

The processor computes on 32-bit words and the bus carries bytes.  This file names the few views of
a word that the rest of the library needs: single bits and fields of an opcode, rotation, the
arithmetic right shift, sign extension, and the little-endian bytes of a halfword or word.
-/

namespace Handheld

/-- The unit the bus carries. -/
abbrev Byte := UInt8

/-- Two bytes, the low one first in memory. -/
abbrev Half := UInt16

/-- Four bytes, the lowest first in memory; the processor's natural width. -/
abbrev Word := UInt32

/-- The index of one of the sixteen live registers. -/
abbrev Reg := Fin 16

/-- Register 0, which also stands in fields that an instruction does not read. -/
abbrev Reg.zero : Reg := 0

/-- Register 13, the stack pointer. -/
abbrev Reg.sp : Reg := 13

/-- Register 14, the link register. -/
abbrev Reg.lr : Reg := 14

/-- Register 15, the program counter. -/
abbrev Reg.pc : Reg := 15

/-- The lower register of the even/odd pair that holds `r`. -/
def Reg.even (r : Reg) : Reg := ⟨2 * (r.val / 2), by omega⟩

/-- The upper register of the even/odd pair that holds `r`. -/
def Reg.odd (r : Reg) : Reg := ⟨2 * (r.val / 2) + 1, by omega⟩

namespace Word

/-! ## 1. Bits and fields -/

/-- Whether bit `i` of `w` is set, for `i < 32`. -/
def bit (w i : Word) : Bool := (w >>> i) &&& 1 == 1

/-- The `n`-bit field of `w` whose lowest bit is bit `i`, for `n < 32`. -/
def field (w i n : Word) : Word := (w >>> i) &&& ((1 <<< n) - 1)

/-- The register named by the four bits of `w` that start at bit `i`. -/
def reg (w i : Word) : Reg := Fin.ofNat 16 (w >>> i).toNat

/-- The register named by the three bits of `w` that start at bit `i`: one of `r0`-`r7`. -/
def lowReg (w i : Word) : Reg := Fin.ofNat 16 (w.field i 3).toNat

/-- The registers whose bits are set among the low sixteen bits of `w`, in ascending order. -/
def regList (w : Word) : List Reg := (List.finRange 16).filter fun r => w.bit (UInt32.ofNat r)

/-! ## 2. Shapes of a word -/

/-- `w` rotated right by `n` places.  Machine shifts count modulo 32, so any `n` will do. -/
def rotateRight (w n : Word) : Word := (w >>> n) ||| (w <<< (32 - n))

/-- `w` shifted right by `n < 32` places with copies of its sign bit shifted in. -/
def shiftRightSigned (w n : Word) : Word := if w.bit 31 then ~~~(~~~w >>> n) else w >>> n

/-- The `n`-bit two's complement number `w` (with no bits above) as a word, for `0 < n < 32`. -/
def signExtend (n w : Word) : Word := if w.bit (n - 1) then w ||| (0xFFFFFFFF <<< n) else w

/-- The two's complement number `w` as a 64-bit value. -/
def signExtend64 (w : Word) : UInt64 :=
  if w.bit 31 then w.toUInt64 ||| 0xFFFFFFFF00000000 else w.toUInt64

/-- The value of `w` with the bits selected by `mask` taken from `v`. -/
def overlay (w mask v : Word) : Word := (w &&& ~~~mask) ||| (v &&& mask)

/-! ## 3. Bytes -/

/-- Byte `i` of `w`, counted from the low end, for `i < 4`. -/
def byte (w i : Word) : Byte := (w >>> (8 * i)).toUInt8

/-- The word with the given bytes, lowest first. -/
def ofBytes (b₀ b₁ b₂ b₃ : Byte) : Word :=
  b₀.toUInt32 + 0x100 * b₁.toUInt32 + 0x10000 * b₂.toUInt32 + 0x1000000 * b₃.toUInt32

theorem toNat_ofBytes (b₀ b₁ b₂ b₃ : Byte) :
    (ofBytes b₀ b₁ b₂ b₃).toNat =
      b₀.toNat + 0x100 * b₁.toNat + 0x10000 * b₂.toNat + 0x1000000 * b₃.toNat := by
  have := b₀.toNat_lt
  have := b₁.toNat_lt
  have := b₂.toNat_lt
  have := b₃.toNat_lt
  simp [ofBytes]
  omega

/-- A word is made of its four bytes. -/
theorem ofBytes_byte (w : Word) : ofBytes (w.byte 0) (w.byte 1) (w.byte 2) (w.byte 3) = w := by
  apply UInt32.toNat_inj.1
  have := w.toNat_lt
  simp [toNat_ofBytes, byte, Nat.shiftRight_eq_div_pow]
  omega

end Word

namespace Half

/-- The halfword with the given bytes, lower first. -/
def ofBytes (lo hi : Byte) : Half := lo.toUInt16 + 0x100 * hi.toUInt16

def low (h : Half) : Byte := h.toUInt8

def high (h : Half) : Byte := (h >>> 8).toUInt8

/-- The byte of `h` that stands at `address`: the high one at odd addresses. -/
def byteAt (h : Half) (address : Word) : Byte := if address.bit 0 then h.high else h.low

/-- `h` with the byte that stands at `address` replaced. -/
def withByteAt (h : Half) (address : Word) (v : Byte) : Half :=
  if address.bit 0 then ofBytes h.low v else ofBytes v h.high

theorem toNat_ofBytes (lo hi : Byte) : (ofBytes lo hi).toNat = lo.toNat + 0x100 * hi.toNat := by
  have := lo.toNat_lt
  have := hi.toNat_lt
  simp [ofBytes]
  omega

/-- A halfword is made of its two bytes. -/
theorem ofBytes_low_high (h : Half) : ofBytes h.low h.high = h := by
  apply UInt16.toNat_inj.1
  have := h.toNat_lt
  simp [low, high, toNat_ofBytes, Nat.shiftRight_eq_div_pow]
  omega

@[simp] theorem low_ofBytes (lo hi : Byte) : (ofBytes lo hi).low = lo := by
  apply UInt8.toNat_inj.1
  simp [low, toNat_ofBytes]

@[simp] theorem high_ofBytes (lo hi : Byte) : (ofBytes lo hi).high = hi := by
  apply UInt8.toNat_inj.1
  have := lo.toNat_lt
  have := hi.toNat_lt
  simp [high, toNat_ofBytes, Nat.shiftRight_eq_div_pow]
  omega

end Half

end Handheld
