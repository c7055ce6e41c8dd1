import Handheld.Fault
import Handheld.Word

/-!
# Blocks of memory

An `Arena n` is a block of exactly `n` bytes, read and written by an index below `n`.  A `Rom` is a
cartridge image: never empty, at most as large as its window, and read modulo its own size.
-/

namespace Handheld

structure Arena (n : Nat) where
  bytes : ByteArray
  size_eq : bytes.size = n

namespace Arena

variable {n : Nat}

def zeros (n : Nat) : Arena n where
  bytes := ⟨Array.replicate n 0⟩
  size_eq := by simp [ByteArray.size]

theorem lt_size (a : Arena n) (i : Fin n) : i.val < a.bytes.size := by
  rw [a.size_eq]
  exact i.isLt

@[inline] def get (a : Arena n) (i : Fin n) : Byte := a.bytes.get i.val (a.lt_size i)

@[inline] def set (a : Arena n) (i : Fin n) (v : Byte) : Arena n where
  bytes := a.bytes.set i.val v (a.lt_size i)
  size_eq := by
    simp only [ByteArray.size, ByteArray.data_set, Array.size_set]
    exact a.size_eq

/-- Replace the first bytes of the block by an image that fits. -/
def overwrite (a : Arena n) (image : ByteArray) (h : image.size ≤ n) : Arena n where
  bytes := image ++ a.bytes.extract image.size n
  size_eq := by
    have := a.size_eq
    rw [ByteArray.size_append, ByteArray.size_extract]
    omega

theorem get_set_self (a : Arena n) (i : Fin n) (v : Byte) : (a.set i v).get i = v :=
  Array.getElem_set_self (a.lt_size i)

theorem get_set_ne (a : Arena n) {i j : Fin n} (v : Byte) (h : i ≠ j) :
    (a.set i v).get j = a.get j :=
  Array.getElem_set_ne (a.lt_size i) (a.lt_size j) fun e => h (Fin.ext e)

end Arena

structure Rom where
  bytes : ByteArray
  four_le : 4 ≤ bytes.size
  le_window : bytes.size ≤ 0x2000000

namespace Rom

/-- The image with zeros added up to four bytes. -/
def padded (image : ByteArray) : ByteArray := image ++ ⟨Array.replicate (4 - image.size) 0⟩

theorem size_padded (image : ByteArray) : (padded image).size = max image.size 4 := by
  unfold padded
  rw [ByteArray.size_append]
  simp only [ByteArray.size, Array.size_replicate]
  omega

/-- Take an image, unless it is larger than the window. -/
def ofImage (image : ByteArray) : Except Fault Rom :=
  if h : image.size ≤ 0x2000000 then
    .ok
      { bytes := padded image
        four_le := by rw [size_padded]; omega
        le_window := by rw [size_padded]; omega }
  else .error (.romTooLarge image.size)

/-- The byte at a position of the window: the image repeats. -/
@[inline] def get (r : Rom) (i : Nat) : Byte :=
  r.bytes.get (i % r.bytes.size) (Nat.mod_lt _ (by have := r.four_le; omega))

end Rom

end Handheld
