import Handheld.Proofs.Word.Mask
import Handheld.Psr

/-!
# Laws of the status word

Flags with masks of their own do not disturb each other, and the live bank is a matter of the mode
field alone.
-/

namespace Handheld.Psr

/-! ## 1. Flags -/

/-- The four flags that instructions compute: N, Z, C and V. -/
def conditionFlags : Word := 0xF0000000

theorem and_assign_of_disjoint {m n : Word} (h : m &&& n = 0) (p : Psr) (on : Bool) :
    (p.assign m on).bits &&& n = p.bits &&& n := by
  -- Clearing and setting both stay inside `m`.
  cases on with
  | false => exact Word.and_not_and_of_disjoint h p.bits
  | true => exact Word.or_and_of_disjoint h p.bits

theorem test_assign_of_disjoint {m n : Word} (h : m &&& n = 0) (p : Psr) (on : Bool) :
    (p.assign m on).test n = p.test n := by
  unfold test
  rw [and_assign_of_disjoint h]

/-- A test of a part of what two status words agree in. -/
theorem test_eq_of_and_eq {p q : Psr} {m n : Word} (h : p.bits &&& n = q.bits &&& n)
    (hm : n &&& m = m) : p.test m = q.test m := by
  unfold test
  rw [← hm, ← UInt32.and_assoc, ← UInt32.and_assoc, h]

theorem test_assign_self {m : Word} (hm : m ≠ 0) (p : Psr) (on : Bool) :
    (p.assign m on).test m = on := by
  cases on with
  | false =>
    have h : p.bits &&& ~~~m &&& m = 0 := by
      rw [UInt32.and_assoc, UInt32.not_and_self, UInt32.and_zero]
    simp [assign, test, h]
  | true =>
    simp [assign, test, Word.or_and_self, hm]

theorem assign_comm {m n : Word} (h : m &&& n = 0) (p : Psr) (a b : Bool) :
    (p.assign m a).assign n b = (p.assign n b).assign m a := by
  have h' : n &&& m = 0 := by rw [UInt32.and_comm, h]
  unfold assign
  cases a <;> cases b <;> simp only [Bool.false_eq_true, if_true, if_false]
  · rw [UInt32.and_assoc, UInt32.and_comm (~~~m), ← UInt32.and_assoc]
  · rw [Word.or_and_not_comm h']
  · rw [Word.or_and_not_comm h]
  · rw [UInt32.or_assoc, UInt32.or_comm m, ← UInt32.or_assoc]

/-- Giving a flag the value it has changes nothing. -/
theorem assign_test {m : Word} {k : Nat} (hk : m.toNat = 2 ^ k) (p : Psr) :
    p.assign m (p.test m) = p := by
  unfold assign test
  rcases Word.and_twoPow p.bits hk with h | h
  · simp [h, Word.and_not_eq_self_of_and_eq_zero h]
  · simp [h, Word.ne_zero_of_twoPow hk, Word.or_eq_self_of_and_eq h]

/-! ## 2. Results -/

theorem test_withResult_overflow (p : Psr) (r : AluResult) :
    (p.withResult r).test overflow = r.overflow :=
  test_assign_self (by decide) _ r.overflow

theorem test_withResult_carry (p : Psr) (r : AluResult) :
    (p.withResult r).test carry = r.carry :=
  (test_assign_of_disjoint (by decide) _ r.overflow).trans
    (test_assign_self (by decide) _ r.carry)

theorem test_withResult_of_disjoint {m : Word} (hcarry : carry &&& m = 0)
    (hoverflow : overflow &&& m = 0) (p : Psr) (r : AluResult) :
    (p.withResult r).test m = (p.withSign r.value).test m :=
  (test_assign_of_disjoint hoverflow _ r.overflow).trans
    (test_assign_of_disjoint hcarry _ r.carry)

theorem test_withResult_zero (p : Psr) (r : AluResult) :
    (p.withResult r).test zero = (r.value == 0) :=
  (test_withResult_of_disjoint (by decide) (by decide) p r).trans
    (test_assign_self (by decide) _ _)

theorem test_withResult_negative (p : Psr) (r : AluResult) :
    (p.withResult r).test negative = r.value.bit 31 :=
  (test_withResult_of_disjoint (by decide) (by decide) p r).trans
    ((test_assign_of_disjoint (by decide) _ _).trans (test_assign_self (by decide) _ _))

/-- A result with an overflow that is the old one leaves the overflow alone. -/
theorem withResult_keep_overflow (p : Psr) (v : Word) (c : Bool) :
    p.withResult ⟨v, c, p.test overflow⟩ = (p.withSign v).assign carry c := by
  -- What is assigned to V is what V reads after the other flags are set.
  have hkeep : ((p.withSign v).assign carry c).test overflow = p.test overflow := by
    unfold withSign
    rw [test_assign_of_disjoint (by decide), test_assign_of_disjoint (by decide),
      test_assign_of_disjoint (by decide)]
  show ((p.withSign v).assign carry c).assign overflow (p.test overflow) = _
  rw [← hkeep]
  exact assign_test (k := 28) (by decide) _

/-- With carry and overflow the old ones, only N and Z are set. -/
theorem withResult_keep (p : Psr) (v : Word) :
    p.withResult ⟨v, p.test carry, p.test overflow⟩ = p.withSign v := by
  have hkeep : (p.withSign v).test carry = p.test carry := by
    unfold withSign
    rw [test_assign_of_disjoint (by decide), test_assign_of_disjoint (by decide)]
  rw [withResult_keep_overflow, ← hkeep]
  exact assign_test (k := 29) (by decide) _

/-- Flags computed from a result do not depend on the instruction set. -/
theorem withResult_assign_thumbState (p : Psr) (r : AluResult) (on : Bool) :
    (p.assign thumbState on).withResult r = (p.withResult r).assign thumbState on := by
  unfold withResult withSign
  -- T moves out past the four flags, one by one.
  rw [assign_comm (m := thumbState) (n := negative) (by decide),
    assign_comm (m := thumbState) (n := zero) (by decide),
    assign_comm (m := thumbState) (n := carry) (by decide),
    assign_comm (m := thumbState) (n := overflow) (by decide)]

/-! ## 3. Control bits -/

/-- The bits that instructions do not compute: T, I, F, the mode field and the reserved bits. -/
def control (p : Psr) : Word := p.bits &&& ~~~conditionFlags

theorem control_withSign (p : Psr) (v : Word) : (p.withSign v).control = p.control := by
  unfold withSign control
  rw [and_assign_of_disjoint (by decide), and_assign_of_disjoint (by decide)]

theorem control_withSign64 (p : Psr) (v : UInt64) : (p.withSign64 v).control = p.control := by
  unfold withSign64 control
  rw [and_assign_of_disjoint (by decide), and_assign_of_disjoint (by decide)]

theorem control_assign_carry (p : Psr) (on : Bool) : (p.assign carry on).control = p.control :=
  and_assign_of_disjoint (by decide) p on

theorem control_withResult (p : Psr) (r : AluResult) : (p.withResult r).control = p.control := by
  unfold withResult
  rw [control, and_assign_of_disjoint (by decide), ← control, control_assign_carry,
    control_withSign]

/-- The control bits hold every mask that leaves the condition flags out. -/
theorem and_eq_of_control_eq {p q : Psr} (h : p.control = q.control) {m : Word}
    (hm : ~~~conditionFlags &&& m = m) : p.bits &&& m = q.bits &&& m := by
  rw [← hm, ← UInt32.and_assoc, ← UInt32.and_assoc]
  exact congrArg (· &&& m) h

/-! ## 4. Modes and banks -/

theorem mode?_eq_of_modeBits_eq {p q : Psr} (h : p.modeBits = q.modeBits) :
    p.mode? = q.mode? := by
  change p.bits &&& 0x1F = q.bits &&& 0x1F at h
  unfold mode? Mode.ofBits?
  rw [h]

theorem bank_eq_of_modeBits_eq {p q : Psr} (h : p.modeBits = q.modeBits) : p.bank = q.bank := by
  unfold bank
  rw [mode?_eq_of_modeBits_eq h]

theorem bank_assign {m : Word} (h : m &&& modeMask = 0) (p : Psr) (on : Bool) :
    (p.assign m on).bank = p.bank :=
  bank_eq_of_modeBits_eq (and_assign_of_disjoint h p on)

theorem mode?_of_modeBits {p : Psr} {m : Mode} (h : p.modeBits = m.bits) : p.mode? = some m := by
  have hm : modeBits ⟨m.bits⟩ = m.bits := by cases m <;> rfl
  rw [mode?_eq_of_modeBits_eq (h.trans hm.symm)]
  exact Mode.ofBits?_bits m

theorem bank_of_modeBits {p : Psr} {m : Mode} (h : p.modeBits = m.bits) : p.bank = m.bank := by
  unfold bank
  rw [mode?_of_modeBits h]
  rfl

theorem mode_eq_of_bank {m m' : Mode} (hm : m.isException = true) (h : m'.bank = m.bank) :
    m' = m := by
  revert hm h
  cases m <;> cases m' <;> decide

/-- Only the mode itself has the bank of an exception mode. -/
theorem mode?_of_bank {p : Psr} {m : Mode} (hm : m.isException = true) (h : p.bank = m.bank) :
    p.mode? = some m := by
  unfold bank at h
  cases hmode : p.mode? with
  | none =>
    -- An unassigned pattern uses bank 0, which belongs to no exception mode.
    rw [hmode] at h
    change 0 = m.bank at h
    rw [Mode.isException, ← h] at hm
    exact absurd hm (by decide)
  | some m' =>
    rw [hmode] at h
    rw [mode_eq_of_bank hm h]

theorem modeBits_withModeBits (p : Psr) (m : Mode) : (p.withModeBits m.bits).modeBits = m.bits := by
  show p.bits.overlay modeMask m.bits &&& modeMask = m.bits
  rw [Word.overlay_and_self]
  cases m <;> rfl

theorem bank_withModeBits (p : Psr) (m : Mode) : (p.withModeBits m.bits).bank = m.bank :=
  bank_of_modeBits (modeBits_withModeBits p m)

end Handheld.Psr
