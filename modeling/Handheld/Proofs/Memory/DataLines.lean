import Handheld.Memory
import Handheld.Proofs.Width

/-!
# The data lines

A read yields what is then on the data lines: the byte that is mapped at the address, or the byte
that was there before.  A wide read drives them once for each of its bytes, so a byte of it that
nothing answers for repeats the last one before it that something did.
-/

namespace Handheld.Memory

/-- The memory with another byte on the data lines. -/
def withOpenBus (m : Memory) (latch : Byte) : Memory := { m with openBus := latch }

variable (m : Memory) (a : Word)

/-! ## 1. One byte -/

theorem lookup_withOpenBus (latch : Byte) (c : Cell) :
    (m.withOpenBus latch).lookup c = m.lookup c := by
  cases c <;> rfl

theorem mapped?_withOpenBus (latch : Byte) (b : Word) :
    (m.withOpenBus latch).mapped? b = m.mapped? b :=
  congrArg (Option.bind (Cell.ofAddress? b)) (funext (lookup_withOpenBus m latch))

/-- A read yields what a look without reading shows, and leaves it on the data lines. -/
theorem read8_eq : m.read8 a = (m.peek8 a, m.withOpenBus (m.peek8 a)) := by
  unfold read8 peek8
  cases m.mapped? a with
  | some v => rfl
  | none => rfl

theorem read8_of_rom {a : Word} {i : Fin 0x2000000} (ha : Cell.ofAddress? a = some (.rom i)) :
    Bus.read8 m a = (m.rom.get i, m.withOpenBus (m.rom.get i)) := by
  show m.read8 a = _
  unfold read8 mapped?
  rw [ha]
  rfl

/-! ## 2. Bytes in a row -/

/-- What is on the data lines after `n` bytes in a row have been read from `a` on. -/
def heard : Nat → Byte
  | 0 => m.openBus
  | n + 1 => (m.mapped? (a + UInt32.ofNat n)).getD (heard n)

theorem heard_one : m.heard a 1 = m.peek8 a := by
  have hzero : a + UInt32.ofNat 0 = a := UInt32.add_zero a
  show (m.mapped? (a + UInt32.ofNat 0)).getD m.openBus = m.peek8 a
  rw [hzero]
  rfl

theorem heard_succ (n : Nat) :
    m.heard a (n + 1) = (m.withOpenBus (m.peek8 a)).heard (a + 1) n := by
  -- Each later byte falls back on the same one before it, so only the start differs.
  induction n with
  | zero => exact m.heard_one a
  | succ n ih =>
    show (m.mapped? _).getD (m.heard a (n + 1)) =
      ((m.withOpenBus _).mapped? (a + 1 + UInt32.ofNat n)).getD _
    rw [ih, mapped?_withOpenBus, Word.add_one_add_ofNat]

theorem readBytes_eq (n : Nat) :
    Bus.readBytes m a n =
      ((List.range n).map fun i => m.heard a (i + 1), m.withOpenBus (m.heard a n)) := by
  -- The first byte is taken off, and the others are read with it on the lines.
  induction n generalizing m a with
  | zero => rfl
  | succ n ih =>
    have hfirst : Bus.read8 m a = (m.peek8 a, m.withOpenBus (m.peek8 a)) := m.read8_eq a
    unfold Bus.readBytes
    simp only [hfirst, ih, ← heard_succ, List.range_succ_eq_map, List.map_cons, List.map_map]
    rw [← heard_one]
    rfl

theorem heard_of_mapped {v : Byte} {i : Nat} (h : m.mapped? (a + UInt32.ofNat i) = some v) :
    m.heard a (i + 1) = v := by
  show (m.mapped? (a + UInt32.ofNat i)).getD (m.heard a i) = v
  rw [h]
  rfl

/-- While nothing answers, what was heard last stays. -/
theorem heard_of_unmapped {i n : Nat} (hin : i ≤ n)
    (h : ∀ j, i ≤ j → j < n → m.mapped? (a + UInt32.ofNat j) = none) :
    m.heard a n = m.heard a i := by
  induction hin with
  | refl => rfl
  | @step n hin ih =>
    show (m.mapped? (a + UInt32.ofNat n)).getD (m.heard a n) = m.heard a i
    rw [h n hin (Nat.lt_succ_self n)]
    exact ih fun j hij hj => h j hij (Nat.lt_succ_of_lt hj)

/-! ## 3. Wide reads -/

theorem byteOf_read (w : Width) {i : Nat} (hi : i < w.size) :
    w.byteOf (w.read m a).1 i = m.heard (w.align a) (i + 1) := by
  have hbytes := congrArg Prod.fst (w.readBytes_eq_read m a)
  rw [readBytes_eq] at hbytes
  have hlist := congrArg (fun bs => bs[i]?) hbytes
  simpa [Width.toBytes, hi] using hlist.symm

end Handheld.Memory
