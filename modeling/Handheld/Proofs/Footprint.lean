import Handheld.Bus.Recorded
import Handheld.Bus.Width
import Handheld.Proofs.Memory.Cells

/-!
# Footprints

Which bytes a program reads and writes, and in which order, is the part of its record that is left
when the values are dropped.  Accesses of every width and blocks of words each have one run of
bytes, from the address with its low bits cleared on.
-/

namespace Handheld

/-! ## 1. Places -/

/-- A byte of memory that is read or written, whatever its value. -/
inductive Place where
  | read (address : Word)
  | write (address : Word)
deriving DecidableEq, Repr

def Access.place : Access → Place
  | read address _ => .read address
  | write address _ => .write address

namespace Place

/-- The `n` bytes at ascending addresses from `start` on, all read or all written. -/
def run (kind : Word → Place) (start : Word) (n : Nat) : List Place :=
  (List.range n).map fun i => kind (start + UInt32.ofNat i)

theorem run_succ (kind : Word → Place) (a : Word) (n : Nat) :
    run kind a (n + 1) = kind a :: run kind (a + 1) n := by
  have hzero : a + UInt32.ofNat 0 = a := UInt32.add_zero a
  unfold run
  rw [List.range_succ_eq_map, List.map_cons, List.map_map, hzero]
  simp only [Function.comp_def, Nat.succ_eq_add_one, Word.add_one_add_ofNat]

theorem run_add (kind : Word → Place) (a : Word) (m n : Nat) :
    run kind a (m + n) = run kind a m ++ run kind (a + UInt32.ofNat m) n := by
  unfold run
  rw [List.range_add, List.map_append, List.map_map]
  simp only [Function.comp_def, UInt32.ofNat_add, UInt32.add_assoc]

/-- The bytes of `n` words in a row, from the word at `a` on. -/
def words (kind : Word → Place) (a : Word) (n : Nat) : List Place :=
  run kind (Width.word.align a) (4 * n)

end Place

namespace Width

/-- The bytes of an access at `a`. -/
def places (w : Width) (kind : Word → Place) (a : Word) : List Place :=
  Place.run kind (w.align a) w.size

/-- Clearing the low bits commutes with going on to the next word. -/
theorem align_add_four (a : Word) : word.align (a + 4) = word.align a + 4 := by
  have hlt := a.toNat_lt
  apply UInt32.toNat_inj.1
  rw [toNat_align, UInt32.toNat_add, UInt32.toNat_add, toNat_align]
  show 4 * ((a.toNat + 4) % 2 ^ 32 / 4) = (4 * (a.toNat / 4) + 4) % 2 ^ 32
  omega

end Width

theorem Place.words_succ (kind : Word → Place) (a : Word) (n : Nat) :
    words kind a (n + 1) = Width.word.places kind a ++ words kind (a + 4) n := by
  unfold words Width.places
  rw [Nat.mul_succ, Nat.add_comm, run_add, Width.align_add_four]
  rfl

/-- The width of the access that a load makes. -/
def Load.width : Load → Width
  | .word => .word
  | .byte | .signedByte => .byte
  | .half | .signedHalf => .half

/-- The width of the access that a store makes. -/
def Store.width : Store → Width
  | .word => .word
  | .byte => .byte
  | .half => .half

/-! ## 2. Touching -/

namespace Recorded

variable {β : Type}

/-- Between the record of `r` and that of `s` come accesses to these places, in this order. -/
def Touches (r s : Recorded β) (places : List Place) : Prop :=
  s.latest.map Access.place = places.reverse ++ r.latest.map Access.place

theorem Touches.refl (r : Recorded β) : r.Touches r [] := rfl

theorem Touches.trans {r s t : Recorded β} {ps qs : List Place} (h : r.Touches s ps)
    (h' : s.Touches t qs) : r.Touches t (ps ++ qs) := by
  unfold Touches at h h' ⊢
  rw [h', h, List.reverse_append, List.append_assoc]

theorem Touches.places_accesses {bus : β} {s : Recorded β} {ps : List Place}
    (h : (start bus).Touches s ps) : s.accesses.map Access.place = ps := by
  unfold Touches at h
  rw [accesses, List.map_reverse, h]
  simp [start]

variable [Bus β] (r : Recorded β)

/-! ## 3. Accesses -/

theorem touches_readBytes (a : Word) (n : Nat) :
    r.Touches (Bus.readBytes r a n).2 (Place.run .read a n) := by
  induction n generalizing r a with
  | zero => exact .refl r
  | succ n ih =>
    have hfirst : r.Touches (Bus.read8 r a).2 [.read a] := rfl
    rw [Place.run_succ]
    exact hfirst.trans (ih (Bus.read8 r a).2 (a + 1))

theorem touches_writeBytes (a : Word) (bs : List Byte) :
    r.Touches (Bus.writeBytes r a bs) (Place.run .write a bs.length) := by
  induction bs generalizing r a with
  | nil => exact .refl r
  | cons b bs ih =>
    have hfirst : r.Touches (Bus.write8 r a b) [.write a] := rfl
    rw [List.length_cons, Place.run_succ]
    exact hfirst.trans (ih (Bus.write8 r a b) (a + 1))

theorem touches_read (w : Width) (a : Word) :
    r.Touches (w.read r a).2 (w.places .read a) := by
  have h := touches_readBytes r (w.align a) w.size
  rwa [w.readBytes_eq_read r a] at h

theorem touches_write (w : Width) (a : Word) (v : w.Value) :
    r.Touches (w.write r a v) (w.places .write a) := by
  have h := touches_writeBytes r (w.align a) (w.toBytes v)
  rwa [← w.write_eq_writeBytes r a v, w.length_toBytes] at h

theorem touches_load (kind : Load) (a : Word) :
    r.Touches (kind.read r a).2 (kind.width.places .read a) := by
  cases kind with
  | word => exact touches_read r .word a
  | byte | signedByte => exact touches_read r .byte a
  | half | signedHalf => exact touches_read r .half a

theorem touches_store (kind : Store) (a v : Word) :
    r.Touches (kind.write r a v) (kind.width.places .write a) := by
  cases kind with
  | word => exact touches_write r .word a v
  | byte => exact touches_write r .byte a v.toUInt8
  | half => exact touches_write r .half a v.toUInt16

/-! ## 4. Words in a row -/

theorem touches_readWords (a : Word) (n : Nat) :
    r.Touches (Bus.readWords r a n).2 (Place.words .read a n) := by
  induction n generalizing r a with
  | zero => exact .refl r
  | succ n ih =>
    rw [Place.words_succ]
    exact (touches_read r .word a).trans (ih (Bus.read32 r a).2 (a + 4))

theorem touches_writeWords (a : Word) (ws : List Word) :
    r.Touches (Bus.writeWords r a ws) (Place.words .write a ws.length) := by
  induction ws generalizing r a with
  | nil => exact .refl r
  | cons w ws ih =>
    rw [List.length_cons, Place.words_succ]
    exact (touches_write r .word a w).trans (ih (Bus.write32 r a w) (a + 4))

end Recorded

end Handheld
