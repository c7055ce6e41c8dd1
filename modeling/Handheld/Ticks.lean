/-!
# Ticks: the unit of time

Every cost and budget is a count of processor clock cycles.  Counts are 64 bits wide: a sum wraps,
and a difference stops at zero, so an elapsed time is never a huge number.
-/

namespace Handheld

structure Ticks where
  count : UInt64
deriving DecidableEq, Repr, Inhabited

namespace Ticks

instance {n : Nat} : OfNat Ticks n := ⟨⟨UInt64.ofNat n⟩⟩

/-- The sum modulo `2 ^ 64`. -/
instance : Add Ticks := ⟨fun a b => ⟨a.count + b.count⟩⟩

/-- The difference, or zero when the second count is the larger. -/
instance : Sub Ticks := ⟨fun a b => ⟨if a.count < b.count then 0 else a.count - b.count⟩⟩

instance : LT Ticks := ⟨fun a b => a.count < b.count⟩

instance : LE Ticks := ⟨fun a b => a.count ≤ b.count⟩

instance (a b : Ticks) : Decidable (a < b) := inferInstanceAs (Decidable (a.count < b.count))

instance (a b : Ticks) : Decidable (a ≤ b) := inferInstanceAs (Decidable (a.count ≤ b.count))

instance : Ord Ticks := ⟨fun a b => compare a.count b.count⟩

def ofWord (n : UInt32) : Ticks := ⟨n.toUInt64⟩

theorem zero_add (a : Ticks) : 0 + a = a := congrArg Ticks.mk (UInt64.zero_add a.count)

theorem add_zero (a : Ticks) : a + 0 = a := congrArg Ticks.mk (UInt64.add_zero a.count)

theorem add_assoc (a b c : Ticks) : a + b + c = a + (b + c) :=
  congrArg Ticks.mk (UInt64.add_assoc a.count b.count c.count)

theorem toNat_add (a b : Ticks) :
    (a + b).count.toNat = (a.count.toNat + b.count.toNat) % UInt64.size :=
  UInt64.toNat_add a.count b.count

theorem toNat_sub (a b : Ticks) : (a - b).count.toNat = a.count.toNat - b.count.toNat := by
  show (if a.count < b.count then 0 else a.count - b.count).toNat = _
  split
  next h => have := UInt64.lt_iff_toNat_lt.1 h; simp; omega
  next h => exact UInt64.toNat_sub_of_le _ _ (UInt64.le_iff_toNat_le.2 (by
      have := mt UInt64.lt_iff_toNat_lt.2 h; omega))

theorem lt_iff_toNat_lt {a b : Ticks} : a < b ↔ a.count.toNat < b.count.toNat :=
  UInt64.lt_iff_toNat_lt

/-- A sum that does not wrap. -/
theorem toNat_add_of_lt {a b : Ticks} (h : a.count.toNat + b.count.toNat < 0x10000000000000000) :
    (a + b).count.toNat = a.count.toNat + b.count.toNat :=
  (toNat_add a b).trans (Nat.mod_eq_of_lt h)

theorem eq_of_add_eq {a b c : Ticks} (h : a + b = a + c) : b = c := by
  have hcount : a.count + b.count = a.count + c.count := congrArg count h
  exact congrArg Ticks.mk ((UInt64.add_right_inj a.count).1 hcount)

theorem toNat_ofWord (n : UInt32) : (ofWord n).count.toNat = n.toNat := UInt32.toNat_toUInt64 n

end Ticks

end Handheld
