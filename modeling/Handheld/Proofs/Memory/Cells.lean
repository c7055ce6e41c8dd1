import Handheld.Memory
import Handheld.Proofs.Width
import Handheld.Proofs.Word.Field

/-!
# The cells of an access

The bytes of an aligned access reach cells of one region, one after the other, or they reach none.
So an access never straddles the end of a region or of a mirror, and two addresses that reach one
cell begin accesses that reach the same cells.
-/

namespace Handheld

/-! ## 1. Aligned addresses -/

namespace Width

theorem size_pos (w : Width) : 0 < w.size := by cases w <;> decide

theorem size_dvd_four (w : Width) : w.size ∣ 4 := by cases w <;> decide

theorem toNat_align (w : Width) (a : Word) : (w.align a).toNat = w.size * (a.toNat / w.size) := by
  have hlt := a.toNat_lt
  cases w with
  | byte =>
    show a.toNat = 1 * (a.toNat / 1)
    omega
  | half =>
    have hmask : (~~~1 : Word).toNat = (2 ^ 31 - 1) * 2 ^ 1 := by decide
    show (a &&& ~~~1).toNat = 2 * (a.toNat / 2)
    rw [Word.toNat_and_mask hmask]
    omega
  | word =>
    have hmask : (~~~3 : Word).toNat = (2 ^ 30 - 1) * 2 ^ 2 := by decide
    show (a &&& ~~~3).toNat = 4 * (a.toNat / 4)
    rw [Word.toNat_and_mask hmask]
    omega

/-- The address of byte `i` of the access at `a`. -/
def address (w : Width) (a : Word) (i : Nat) : Word := w.align a + UInt32.ofNat i

theorem address_zero (w : Width) (a : Word) : w.address a 0 = w.align a := UInt32.add_zero _

theorem toNat_address (w : Width) (a : Word) {i : Nat} (hi : i < w.size) :
    (w.address a i).toNat = w.size * (a.toNat / w.size) + i := by
  have hlt := a.toNat_lt
  have hofNat : (UInt32.ofNat i).toNat = i :=
    UInt32.toNat_ofNat_of_lt' (Nat.lt_trans hi (by cases w <;> decide))
  unfold address
  rw [UInt32.toNat_add, toNat_align, hofNat]
  cases w with
  | byte | half | word => simp only [size] at hi ⊢; omega

/-- An access stays within one sixteen-mebibyte block of addresses. -/
theorem top_address (w : Width) (a : Word) {i : Nat} (hi : i < w.size) :
    w.address a i >>> 24 = a >>> 24 := by
  apply UInt32.toNat_inj.1
  rw [Word.toNat_shiftRight (by decide), Word.toNat_shiftRight (by decide), w.toNat_address a hi]
  show _ / 2 ^ 24 = a.toNat / 2 ^ 24
  cases w with
  | byte | half | word => simp only [size] at hi ⊢; omega

/-- Every address is that of some byte of the access it begins. -/
theorem exists_address_eq (w : Width) (a : Word) : ∃ i < w.size, w.address a i = a := by
  have hlt : a.toNat % w.size < w.size := Nat.mod_lt _ w.size_pos
  refine ⟨a.toNat % w.size, hlt, ?_⟩
  apply UInt32.toNat_inj.1
  rw [w.toNat_address a hlt]
  exact Nat.div_add_mod a.toNat w.size

end Width

/-! ## 2. Neighbouring cells -/

namespace Cell

variable {k i b n : Nat}

theorem add_le_of_dvd (hb : k ∣ b) (hn : k ∣ n) (h : b < n) : b + k ≤ n := by
  have hle : k ≤ n - b := Nat.le_of_dvd (Nat.sub_pos_of_lt h) (Nat.dvd_sub hn hb)
  omega

theorem add_lt_iff_of_dvd (hb : k ∣ b) (hi : i < k) (hn : k ∣ n) : b + i < n ↔ b < n := by
  constructor
  · intro h
    omega
  · intro h
    have hle := add_le_of_dvd hb hn h
    omega

theorem add_mod_of_dvd (hb : k ∣ b) (hi : i < k) (hn : k ∣ n) (hpos : 0 < n) :
    (b + i) % n = b % n + i := by
  have hmod : k ∣ b % n := (Nat.dvd_mod_iff hn).2 hb
  have hle := add_le_of_dvd hmod hn (Nat.mod_lt b hpos)
  rw [Nat.add_mod, Nat.mod_eq_of_lt (show i < n by omega), Nat.mod_eq_of_lt (by omega)]

/-- The second cell comes `i` bytes after the first, which is at the start of a block of `k`. -/
def Follows (k i : Nat) (c c' : Cell) : Prop :=
  c'.region = c.region ∧ c'.offset = c.offset + i ∧ k ∣ c.offset

variable {a a' : Word}

theorem ofVideo_of_lt (h : a.toNat % 0x20000 < 0x18000) :
    ofVideo a = .vram ⟨a.toNat % 0x20000, h⟩ := dif_pos h

theorem ofVideo_of_not_lt (h : ¬ a.toNat % 0x20000 < 0x18000) :
    ∃ j : Fin 0x18000, ofVideo a = .vram j ∧ j.val + 0x8000 = a.toNat % 0x20000 := by
  refine ⟨⟨a.toNat % 0x20000 - 0x8000, by omega⟩, dif_neg h, ?_⟩
  dsimp only
  omega

theorem follows_ofVideo (hk : k ∣ 4) (hi : i < k) (ha : k ∣ a.toNat)
    (hnat : a'.toNat = a.toNat + i) : Follows k i (ofVideo a) (ofVideo a') := by
  have hwindow : k ∣ 0x20000 := hk.trans (by decide)
  have hmod : a'.toNat % 0x20000 = a.toNat % 0x20000 + i := by
    rw [hnat]
    exact add_mod_of_dvd ha hi hwindow (by decide)
  have hdvd : k ∣ a.toNat % 0x20000 := (Nat.dvd_mod_iff hwindow).2 ha
  have hlt : a'.toNat % 0x20000 < 0x18000 ↔ a.toNat % 0x20000 < 0x18000 := by
    rw [hmod]
    exact add_lt_iff_of_dvd hdvd hi (hk.trans (by decide))
  -- Both addresses are below the last quarter of the window, or both are in it.
  by_cases h : a.toNat % 0x20000 < 0x18000
  · rw [ofVideo_of_lt h, ofVideo_of_lt (hlt.2 h)]
    exact ⟨rfl, hmod, hdvd⟩
  · obtain ⟨j, hj, hsum⟩ := ofVideo_of_not_lt h
    obtain ⟨j', hj', hsum'⟩ := ofVideo_of_not_lt (mt hlt.1 h)
    have hfolded : k ∣ 0x8000 := hk.trans (by decide)
    rw [← hsum, Nat.dvd_add_left hfolded] at hdvd
    have hnext : j'.val = j.val + i := by omega
    rw [hj, hj']
    exact ⟨rfl, hnext, hdvd⟩

/-- Two addresses in one aligned block reach neighbouring cells or none. -/
theorem rel_follows_ofAddress? (hk : k ∣ 4) (hi : i < k) (ha : k ∣ a.toNat)
    (htop : a' >>> 24 = a >>> 24) (hnat : a'.toNat = a.toNat + i) :
    Option.Rel (Follows k i) (ofAddress? a) (ofAddress? a') := by
  have hfold {n : Nat} (hn : 4 ∣ n) (hpos : 0 < n) :
      a'.toNat % n = a.toNat % n + i ∧ k ∣ a.toNat % n := by
    have hkn := hk.trans hn
    rw [hnat]
    exact ⟨add_mod_of_dvd ha hi hkn hpos, (Nat.dvd_mod_iff hkn).2 ha⟩
  have hbelow {b b' n : Nat} (hb : k ∣ b) (hb' : b' = b + i) (hn : 4 ∣ n) : b' < n ↔ b < n := by
    rw [hb']
    exact add_lt_iff_of_dvd hb hi (hk.trans hn)
  unfold ofAddress?
  rw [htop]
  split
  case h_1 =>
    have hiff := hbelow ha hnat (n := 0x4000) (by decide)
    by_cases h : a.toNat < 0x4000
    · rw [dif_pos h, dif_pos (hiff.2 h)]
      exact .some ⟨rfl, hnat, ha⟩
    · rw [dif_neg h, dif_neg (mt hiff.1 h)]
      exact .none
  case h_4 =>
    have hmask : (0xFFFFFF : Word).toNat = (2 ^ 24 - 1) * 2 ^ 0 := by decide
    have hoffset (x : Word) : (x &&& 0xFFFFFF).toNat = x.toNat % 0x1000000 := by
      rw [Word.toNat_and_mask hmask]
      omega
    obtain ⟨hnext, hdvd⟩ := hfold (n := 0x1000000) (by decide) (by decide)
    rw [← hoffset, ← hoffset] at hnext
    rw [← hoffset] at hdvd
    have hiff := hbelow hdvd hnext (n := 0x400) (by decide)
    dsimp only
    by_cases h : (a &&& 0xFFFFFF).toNat < 0x400
    · rw [dif_pos h, dif_pos (hiff.2 h)]
      exact .some ⟨rfl, hnext, hdvd⟩
    · rw [dif_neg h, dif_neg (mt hiff.1 h)]
      exact .none
  case h_6 => exact .some (follows_ofVideo hk hi ha hnat)
  case h_16 => exact .none
  all_goals exact .some ⟨rfl, hfold (by decide) (by decide)⟩

/-- The bytes of an access reach cells of one region, one after the other, or none of them reaches
any. -/
theorem ofAddress?_address (w : Width) (a : Word) :
    (∀ i < w.size, ofAddress? (w.address a i) = none) ∨
      ∃ r k, w.size ∣ k ∧ ∀ i < w.size, ∃ c, ofAddress? (w.address a i) = some c ∧
        c.region = r ∧ c.offset = k + i := by
  have hrel (i : Nat) (hi : i < w.size) :
      Option.Rel (Follows w.size i) (ofAddress? (w.align a)) (ofAddress? (w.address a i)) := by
    have hbase : (w.align a).toNat = w.size * (a.toNat / w.size) := w.toNat_align a
    apply rel_follows_ofAddress? w.size_dvd_four hi
    · rw [hbase]
      exact Nat.dvd_mul_right _ _
    · rw [w.top_address a hi, ← w.address_zero a, w.top_address a w.size_pos]
    · rw [hbase, w.toNat_address a hi]
  cases hfirst : ofAddress? (w.align a) with
  | none =>
    refine .inl fun i hi => ?_
    have h := hrel i hi
    rw [hfirst] at h
    generalize ofAddress? (w.address a i) = c at h ⊢
    cases h
    rfl
  | some c =>
    right
    have hdvd : w.size ∣ c.offset := by
      have h := hrel 0 w.size_pos
      rw [w.address_zero, hfirst] at h
      cases h with
      | some h => exact h.2.2
    refine ⟨c.region, c.offset, hdvd, fun i hi => ?_⟩
    have h := hrel i hi
    rw [hfirst] at h
    generalize ofAddress? (w.address a i) = c' at h ⊢
    cases h with
    | some h => exact ⟨_, rfl, h.1, h.2.1⟩

/-! ## 3. Mirrors -/

theorem eq_of_region_of_offset {c c' : Cell} (hregion : c.region = c'.region)
    (hoffset : c.offset = c'.offset) : c = c' := by
  -- Cells of different constructors are in different regions.
  cases c <;> cases c' <;> simp only [region, reduceCtorEq] at hregion
  all_goals exact congrArg _ (Fin.ext hoffset)

theorem eq_of_add_eq {k m n i j : Nat} (hm : k ∣ m) (hn : k ∣ n) (hi : i < k) (hj : j < k)
    (h : m + i = n + j) : m = n := by
  obtain ⟨p, rfl⟩ := hm
  obtain ⟨q, rfl⟩ := hn
  have hquotient := congrArg (· / k) h
  have hpos : 0 < k := Nat.lt_of_le_of_lt (Nat.zero_le i) hi
  simp only [Nat.mul_add_div hpos, Nat.div_eq_of_lt hi, Nat.div_eq_of_lt hj,
    Nat.add_zero] at hquotient
  rw [hquotient]

/-- Two accesses that meet in one cell, or that both reach nothing, reach the same cells. -/
theorem ofAddress?_address_congr {w : Width} {j l : Nat} (hi : i < w.size) (hj : j < w.size)
    (h : ofAddress? (w.address a i) = ofAddress? (w.address a' j)) (hl : l < w.size) :
    ofAddress? (w.address a l) = ofAddress? (w.address a' l) := by
  rcases ofAddress?_address w a with hnone | ⟨r, m, hm, hcells⟩
  · rcases ofAddress?_address w a' with hnone' | ⟨r', n, -, hcells'⟩
    · rw [hnone l hl, hnone' l hl]
    · obtain ⟨c, hc, -, -⟩ := hcells' j hj
      rw [hnone i hi, hc] at h
      cases h
  · rcases ofAddress?_address w a' with hnone' | ⟨r', n, hn, hcells'⟩
    · obtain ⟨c, hc, -, -⟩ := hcells i hi
      rw [hnone' j hj, hc] at h
      cases h
    · -- The cell is `i` bytes into the first access and `j` into the second, so both begin alike.
      obtain ⟨c, hc, hcr, hcm⟩ := hcells i hi
      obtain ⟨c', hc', hcr', hcn⟩ := hcells' j hj
      obtain rfl : c = c' := Option.some.inj ((hc.symm.trans h).trans hc')
      obtain ⟨d, hd, hdr, hdm⟩ := hcells l hl
      obtain ⟨d', hd', hdr', hdn⟩ := hcells' l hl
      have hstart : m = n := eq_of_add_eq hm hn hi hj (hcm.symm.trans hcn)
      have hsame : d = d' := by
        apply eq_of_region_of_offset
        · rw [hdr, hdr', ← hcr, ← hcr']
        · rw [hdm, hdn, hstart]
      rw [hd, hd', hsame]

/-- Mirrors stay mirrors when their low bits are cleared. -/
theorem ofAddress?_align_congr (w : Width) (h : ofAddress? a = ofAddress? a') :
    ofAddress? (w.align a) = ofAddress? (w.align a') := by
  obtain ⟨i, hi, ha⟩ := w.exists_address_eq a
  obtain ⟨j, hj, ha'⟩ := w.exists_address_eq a'
  rw [← ha, ← ha'] at h
  rw [← w.address_zero a, ← w.address_zero a']
  exact ofAddress?_address_congr hi hj h w.size_pos

/-- Two bytes of an access that is mapped reach two cells. -/
theorem ofAddress?_address_injective {w : Width} {c : Cell} {j : Nat} (hi : i < w.size)
    (hj : j < w.size) (hc : ofAddress? (w.address a i) = some c)
    (hc' : ofAddress? (w.address a j) = some c) : i = j := by
  rcases ofAddress?_address w a with hnone | ⟨r, m, -, hcells⟩
  · rw [hnone i hi] at hc
    cases hc
  · obtain ⟨d, hd, -, hdm⟩ := hcells i hi
    obtain ⟨d', hd', -, hdn⟩ := hcells j hj
    obtain rfl : c = d := Option.some.inj (hc.symm.trans hd)
    obtain rfl : c = d' := Option.some.inj (hc'.symm.trans hd')
    omega

end Cell

end Handheld
