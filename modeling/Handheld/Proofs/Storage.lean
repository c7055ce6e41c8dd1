import Handheld.Proofs.Memory.Cells
import Handheld.Proofs.Memory.Confined
import Mathlib.Data.Nat.ModEq

/-!
# Storage

To a program that saves registers and gets them back, memory is storage: what was written last is
read, and a write changes nothing beside it.  A bus need not be storage everywhere, for blocks
repeat and some addresses are not RAM.  This file says what it takes on a set of addresses, proves
that words written in a row are read back, and that a window of a flat memory, or of the console's
RAM, is storage as long as it does not meet itself again.
-/

namespace Handheld

/-! ## 1. Windows -/

namespace Word

/-- The address is one of the `n` from `base` on. -/
def InWindow (base : Word) (n : Nat) (a : Word) : Prop := (a - base).toNat < n

theorem toNat_sub_of_inWindow {base a : Word} {n : Nat} (h : InWindow base n a) :
    ∃ i < n, a.toNat = (base.toNat + i) % 2 ^ 32 := by
  have hlt := a.toNat_lt
  have hbase := base.toNat_lt
  refine ⟨(a - base).toNat, h, ?_⟩
  rw [UInt32.toNat_sub]
  omega

theorem add_four_add_ofNat (a : Word) (i : Nat) :
    a + 4 + UInt32.ofNat (4 * i) = a + UInt32.ofNat (4 * (i + 1)) := by
  rw [Nat.mul_succ, UInt32.ofNat_add, UInt32.add_comm (UInt32.ofNat _), ← UInt32.add_assoc]
  rfl

/-- What holds of the addresses in a row, taken apart at the first of them. -/
theorem forall_bytes_succ {W : Word → Prop} {a : Word} {n : Nat}
    (h : ∀ i < n + 1, W (a + UInt32.ofNat i)) : W a ∧ ∀ i < n, W (a + 1 + UInt32.ofNat i) := by
  constructor
  · rw [← UInt32.add_zero a]
    exact h 0 (Nat.zero_lt_succ n)
  · intro i hi
    rw [add_one_add_ofNat]
    exact h (i + 1) (Nat.succ_lt_succ hi)

theorem forall_words_succ {W : Word → Prop} {a : Word} {n : Nat}
    (h : ∀ i < n + 1, W (a + UInt32.ofNat (4 * i))) :
    W a ∧ ∀ i < n, W (a + 4 + UInt32.ofNat (4 * i)) := by
  constructor
  · rw [← UInt32.add_zero a]
    exact h 0 (Nat.zero_lt_succ n)
  · intro i hi
    rw [add_four_add_ofNat]
    exact h (i + 1) (Nat.succ_lt_succ hi)

theorem toNat_add_ofNat (a : Word) (i : Nat) :
    (a + UInt32.ofNat i).toNat = (a.toNat + i) % 2 ^ 32 := by
  rw [UInt32.toNat_add, UInt32.toNat_ofNat', Nat.add_mod_mod]

/-- The bytes of `n` words in a row, wherever the first of them is, make up a window that begins on
a word. -/
theorem inWindow_address {a : Word} {n i j : Nat} (hn : n ≤ 2 ^ 30) (hi : i < n) (hj : j < 4) :
    InWindow (Width.word.align a) (4 * n) (Width.word.address (a + UInt32.ofNat (4 * i)) j) := by
  have hlt := a.toNat_lt
  have hbase : (Width.word.align a).toNat = 4 * (a.toNat / 4) := Width.word.toNat_align a
  have haddress : (Width.word.address (a + UInt32.ofNat (4 * i)) j).toNat =
      4 * ((a + UInt32.ofNat (4 * i)).toNat / 4) + j := Width.word.toNat_address _ hj
  rw [toNat_add_ofNat] at haddress
  show (Width.word.address _ j - Width.word.align a).toNat < 4 * n
  rw [UInt32.toNat_sub, haddress, hbase]
  omega

/-- Two of the words have no byte in common. -/
theorem align_add_ne {a : Word} {i j : Nat} (hi : i < 2 ^ 30) (hj : j < 2 ^ 30) (hne : i ≠ j) :
    Width.word.align (a + UInt32.ofNat (4 * i)) ≠ Width.word.align (a + UInt32.ofNat (4 * j)) := by
  intro heq
  have hlt := a.toNat_lt
  have hnat := congrArg UInt32.toNat heq
  rw [Width.word.toNat_align, Width.word.toNat_align, toNat_add_ofNat, toNat_add_ofNat] at hnat
  change 4 * (_ / 4) = 4 * (_ / 4) at hnat
  omega

end Word

/-! ## 2. Buses that store -/

namespace Bus

variable {β : Type} [Bus β]

/-- The last of the words read in a row, taken off. -/
theorem readWords_succ_last (bus : β) (a : Word) (n : Nat) :
    readWords bus a (n + 1) =
      ((readWords bus a n).1 ++ [(read32 (readWords bus a n).2 (a + UInt32.ofNat (4 * n))).1],
        (read32 (readWords bus a n).2 (a + UInt32.ofNat (4 * n))).2) := by
  induction n generalizing bus a with
  | zero =>
    have hzero : a + UInt32.ofNat (4 * 0) = a := UInt32.add_zero a
    show ([(read32 bus a).1], (read32 bus a).2) = _
    rw [hzero]
    rfl
  | succ n ih =>
    show ((read32 bus a).1 :: (readWords (read32 bus a).2 (a + 4) (n + 1)).1,
      (readWords (read32 bus a).2 (a + 4) (n + 1)).2) = _
    rw [ih, Word.add_four_add_ofNat]
    rfl

/-- What every write of a byte of a word keeps, a write of words in a row keeps. -/
theorem writeWords_keeps {P : β → Prop} {a : Word} {ws : List Word}
    (hstep : ∀ bus, P bus → ∀ i < ws.length, ∀ j < 4, ∀ v,
      P (write8 bus (Width.word.address (a + UInt32.ofNat (4 * i)) j) v))
    {bus : β} (h : P bus) : P (writeWords bus a ws) := by
  induction ws generalizing bus a with
  | nil => exact h
  | cons w ws ih =>
    have hzero : a + UInt32.ofNat (4 * 0) = a := UInt32.add_zero a
    have hfirst : P (Width.word.write bus a w) := by
      rw [Width.word.write_eq_writeBytes]
      refine writeBytes_keeps (fun bus hbus j hj v => ?_) h
      have hbyte := hstep bus hbus 0 (Nat.zero_lt_succ _) j hj v
      rwa [hzero] at hbyte
    refine ih (fun bus hbus i hi j hj v => ?_) hfirst
    rw [Word.add_four_add_ofNat]
    exact hstep bus hbus (i + 1) (Nat.succ_lt_succ hi) j hj v

/-- On the addresses of `W` the buses of `P` store bytes: a read, wherever it is made, changes no
byte there, and a write there changes the byte at its address and no other. -/
structure Stores (P : β → Prop) (W : Word → Prop) : Prop where
  after_read {bus : β} (h : P bus) (a : Word) : P (read8 bus a).2
  after_write {bus : β} {a : Word} (h : P bus) (ha : W a) (v : Byte) : P (write8 bus a v)
  read_read (bus : β) (a : Word) {b : Word} (hb : W b) :
    (read8 (read8 bus a).2 b).1 = (read8 bus b).1
  read_write_self {bus : β} {a : Word} (h : P bus) (ha : W a) (v : Byte) :
    (read8 (write8 bus a v) a).1 = v
  read_write_of_ne {bus : β} {a b : Word} (h : P bus) (ha : W a) (hb : W b) (hne : a ≠ b)
    (v : Byte) : (read8 (write8 bus a v) b).1 = (read8 bus b).1

/-- All bytes of the word at `a` are among the addresses. -/
def CoversWord (W : Word → Prop) (a : Word) : Prop := ∀ i < 4, W (Width.word.address a i)

namespace Stores

variable {P : β → Prop} {W : Word → Prop} {a b : Word} {n : Nat}

/-! ## 3. Reads -/

theorem after_readBytes (h : Stores P W) {bus : β} (hbus : P bus) : P (readBytes bus a n).2 := by
  induction n generalizing bus a with
  | zero => exact hbus
  | succ n ih => exact ih (h.after_read hbus a)

theorem after_wide_read (h : Stores P W) (w : Width) {bus : β} (hbus : P bus) (a : Word) :
    P (w.read bus a).2 := by
  rw [← congrArg Prod.snd (w.readBytes_eq_read bus a)]
  exact h.after_readBytes hbus

theorem read8_readBytes (h : Stores P W) (bus : β) (hb : W b) :
    (read8 (readBytes bus a n).2 b).1 = (read8 bus b).1 := by
  induction n generalizing bus a with
  | zero => rfl
  | succ n ih =>
    show (read8 (readBytes (read8 bus a).2 (a + 1) n).2 b).1 = _
    rw [ih, h.read_read bus a hb]

/-- A read of any width changes no byte of the storage. -/
theorem read8_wide_read (h : Stores P W) (w : Width) (bus : β) (a : Word) (hb : W b) :
    (read8 (w.read bus a).2 b).1 = (read8 bus b).1 := by
  rw [← congrArg Prod.snd (w.readBytes_eq_read bus a)]
  exact h.read8_readBytes bus hb

theorem readBytes_eq (h : Stores P W) (bus : β) (hW : ∀ i < n, W (a + UInt32.ofNat i)) :
    (readBytes bus a n).1 = (List.range n).map fun i => (read8 bus (a + UInt32.ofNat i)).1 := by
  induction n generalizing bus a with
  | zero => rfl
  | succ n ih =>
    have hzero : a + UInt32.ofNat 0 = a := UInt32.add_zero a
    have hrest := (Word.forall_bytes_succ hW).2
    show (read8 bus a).1 :: (readBytes (read8 bus a).2 (a + 1) n).1 = _
    rw [ih _ hrest, List.range_succ_eq_map, List.map_cons, List.map_map, hzero]
    congr 1
    apply List.map_congr_left
    intro i hi
    rw [h.read_read bus a (hrest i (List.mem_range.1 hi)), Word.add_one_add_ofNat]
    rfl

/-- A word is known by its bytes. -/
theorem read32_congr (h : Stores P W) {bus bus' : β} (ha : CoversWord W a)
    (heq : ∀ i < 4, (read8 bus (Width.word.address a i)).1 =
      (read8 bus' (Width.word.address a i)).1) : (read32 bus a).1 = (read32 bus' a).1 := by
  apply Width.word.eq_of_toBytes_eq
  have hbytes (bus : β) := congrArg Prod.fst (Width.word.readBytes_eq_read bus a)
  refine (hbytes bus).symm.trans (Eq.trans ?_ (hbytes bus'))
  rw [h.readBytes_eq bus ha, h.readBytes_eq bus' ha]
  exact List.map_congr_left fun i hi => heq i (List.mem_range.1 hi)

theorem read32_read (h : Stores P W) (w : Width) (bus : β) (b : Word) (ha : CoversWord W a) :
    (read32 (w.read bus b).2 a).1 = (read32 bus a).1 :=
  h.read32_congr ha fun i hi => h.read8_wide_read w bus b (ha i hi)

/-- Words read in a row are what each of them reads as. -/
theorem readWords_eq_map (h : Stores P W) {bus : β} {rs : List Reg} {f : Reg → Word}
    (hW : ∀ i < rs.length, CoversWord W (a + UInt32.ofNat (4 * i)))
    (hwords : ∀ i, (hi : i < rs.length) →
      (read32 bus (a + UInt32.ofNat (4 * i))).1 = f rs[i]) :
    (readWords bus a rs.length).1 = rs.map f := by
  induction rs generalizing bus a with
  | nil => rfl
  | cons r rs ih =>
    have hzero : a + UInt32.ofNat (4 * 0) = a := UInt32.add_zero a
    have hfirst := hwords 0 (Nat.zero_lt_succ _)
    rw [hzero] at hfirst
    have hrest := (Word.forall_words_succ hW).2
    show (read32 bus a).1 :: (readWords (read32 bus a).2 (a + 4) rs.length).1 = f r :: rs.map f
    rw [hfirst, ih hrest fun i hi => ?_]
    · rfl
    · -- The first read changes none of the words after it.
      refine (h.read32_read .word bus a (hrest i hi)).trans ?_
      rw [Word.add_four_add_ofNat]
      exact hwords (i + 1) (Nat.succ_lt_succ hi)

/-! ## 4. Writes -/

theorem read8_writeBytes_of_ne (h : Stores P W) {bus : β} (hbus : P bus) {bs : List Byte}
    (hW : ∀ i < bs.length, W (a + UInt32.ofNat i)) (hb : W b)
    (hne : ∀ i < bs.length, a + UInt32.ofNat i ≠ b) :
    (read8 (writeBytes bus a bs) b).1 = (read8 bus b).1 := by
  have hstep : ∀ bus', (P bus' ∧ (read8 bus' b).1 = (read8 bus b).1) → ∀ i < bs.length, ∀ v,
      P (write8 bus' (a + UInt32.ofNat i) v) ∧
        (read8 (write8 bus' (a + UInt32.ofNat i) v) b).1 = (read8 bus b).1 := by
    rintro bus' ⟨hbus', hread⟩ i hi v
    exact ⟨h.after_write hbus' (hW i hi) v,
      (h.read_write_of_ne hbus' (hW i hi) hb (hne i hi) v).trans hread⟩
  exact (Bus.writeBytes_keeps hstep ⟨hbus, rfl⟩).2

theorem read8_writeBytes (h : Stores P W) {bus : β} (hbus : P bus) {bs : List Byte}
    (hW : ∀ i < bs.length, W (a + UInt32.ofNat i)) (hlen : bs.length ≤ 2 ^ 32) {i : Nat}
    (hi : i < bs.length) : (read8 (writeBytes bus a bs) (a + UInt32.ofNat i)).1 = bs[i] := by
  induction bs generalizing bus a i with
  | nil => cases hi
  | cons v bs ih =>
    have hzero : a + UInt32.ofNat 0 = a := UInt32.add_zero a
    obtain ⟨hfirst, hrest⟩ := Word.forall_bytes_succ hW
    rw [List.length_cons] at hlen
    cases i with
    | zero =>
      rw [hzero]
      refine (h.read8_writeBytes_of_ne (h.after_write hbus hfirst v) hrest hfirst ?_).trans
        (h.read_write_self hbus hfirst v)
      intro i hi heq
      have hnat := congrArg UInt32.toNat heq
      rw [Word.add_one_add_ofNat, UInt32.toNat_add, UInt32.toNat_ofNat_of_lt' (by
        show i + 1 < 2 ^ 32
        omega)] at hnat
      have hlt := a.toNat_lt
      omega
    | succ i =>
      rw [← Word.add_one_add_ofNat]
      exact ih (h.after_write hbus hfirst v) hrest (by omega) (Nat.lt_of_succ_lt_succ hi)

theorem after_write32 (h : Stores P W) {bus : β} (hbus : P bus) (ha : CoversWord W a) (v : Word) :
    P (write32 bus a v) := by
  show P (Width.word.write bus a v)
  rw [Width.word.write_eq_writeBytes]
  refine Bus.writeBytes_keeps (P := P) (fun bus hbus i hi v => ?_) hbus
  rw [Width.length_toBytes] at hi
  exact h.after_write hbus (ha i hi) v

theorem read32_write32 (h : Stores P W) {bus : β} (hbus : P bus) (ha : CoversWord W a) (v : Word) :
    (read32 (write32 bus a v) a).1 = v := by
  apply Width.word.eq_of_toBytes_eq
  refine (congrArg Prod.fst (Width.word.readBytes_eq_read _ a)).symm.trans ?_
  rw [h.readBytes_eq _ ha]
  refine List.map_congr_left fun i hi => ?_
  have hlength : (Width.word.toBytes v).length = 4 := Width.word.length_toBytes v
  have hi : i < (Width.word.toBytes v).length := List.mem_range.1 hi
  have hbytes : ∀ i < (Width.word.toBytes v).length, W (Width.word.address a i) := ha
  show (read8 (Width.word.write bus a v) _).1 = _
  rw [Width.word.write_eq_writeBytes]
  exact (h.read8_writeBytes hbus hbytes (by omega) hi).trans (Width.word.getElem_toBytes v hi)

theorem read32_write32_of_ne (h : Stores P W) {bus : β} (hbus : P bus) (ha : CoversWord W a)
    (hb : CoversWord W b) (hne : Width.word.align a ≠ Width.word.align b) (v : Word) :
    (read32 (write32 bus a v) b).1 = (read32 bus b).1 := by
  refine h.read32_congr hb fun j hj => ?_
  show (read8 (Width.word.write bus a v) _).1 = _
  rw [Width.word.write_eq_writeBytes]
  refine h.read8_writeBytes_of_ne hbus ha (hb j hj) fun i hi heq => hne ?_
  -- A common byte would lie in one aligned word.
  have hnat := congrArg UInt32.toNat heq
  have ha' := Width.word.toNat_address a hi
  have hb' := Width.word.toNat_address b hj
  apply UInt32.toNat_inj.1
  rw [Width.word.toNat_align, Width.word.toNat_align]
  change 4 * (a.toNat / 4) = 4 * (b.toNat / 4)
  change _ = 4 * (a.toNat / 4) + i at ha'
  change _ = 4 * (b.toNat / 4) + j at hb'
  change (Width.word.address a i).toNat = (Width.word.address b j).toNat at hnat
  change i < 4 at hi
  omega

/-- Words written in a row are read back one by one, and a word that has no byte in common with them
reads as before. -/
theorem read32_writeWords (h : Stores P W) {bus : β} (hbus : P bus) {ws : List Word}
    (hlen : ws.length ≤ 2 ^ 30) (hW : ∀ i < ws.length, CoversWord W (a + UInt32.ofNat (4 * i))) :
    (∀ i, (hi : i < ws.length) →
      (read32 (writeWords bus a ws) (a + UInt32.ofNat (4 * i))).1 = ws[i]) ∧
    (∀ b, CoversWord W b →
      (∀ i < ws.length, Width.word.align (a + UInt32.ofNat (4 * i)) ≠ Width.word.align b) →
      (read32 (writeWords bus a ws) b).1 = (read32 bus b).1) := by
  induction ws generalizing bus a with
  | nil => exact ⟨fun i hi => absurd hi (Nat.not_lt_zero i), fun _ _ _ => rfl⟩
  | cons v ws ih =>
    have hzero : a + UInt32.ofNat (4 * 0) = a := UInt32.add_zero a
    obtain ⟨hfirst, hrest⟩ := Word.forall_words_succ hW
    rw [List.length_cons] at hlen
    obtain ⟨hread, hother⟩ := ih (h.after_write32 hbus hfirst v) (by omega) hrest
    constructor
    · rintro (_ | i) hi
      · -- The words after the first are other words.
        rw [hzero]
        refine (hother a hfirst fun i hi => ?_).trans (h.read32_write32 hbus hfirst v)
        have hne := Word.align_add_ne (a := a) (i := i + 1) (j := 0) (by omega) (by decide)
          (Nat.succ_ne_zero i)
        rwa [hzero, ← Word.add_four_add_ofNat] at hne
      · rw [← Word.add_four_add_ofNat]
        exact hread i (Nat.lt_of_succ_lt_succ hi)
    · intro b hb hne
      have hne0 := hne 0 (Nat.zero_lt_succ _)
      rw [hzero] at hne0
      refine (hother b hb fun i hi => ?_).trans (h.read32_write32_of_ne hbus hfirst hb hne0 v)
      rw [Word.add_four_add_ofNat]
      exact hne (i + 1) (Nat.succ_lt_succ hi)

end Stores

end Bus

/-! ## 5. Flat memories -/

namespace FlatRam

variable (ram : FlatRam) (a b : Word)

theorem size_poke (v : Byte) : (ram.poke a v).bytes.size = ram.bytes.size := by
  simp only [poke, ByteArray.size, ByteArray.data_set, Array.size_set]

theorem getElem?_index : ram.bytes.data[a.toNat % ram.bytes.size]? = some (ram.peek a) :=
  getElem?_pos ram.bytes.data _ (ram.index a).isLt

theorem peek_poke (v : Byte) :
    (ram.poke a v).peek b = if ram.index a = ram.index b then v else ram.peek b := by
  have hindex : ram.index a = ram.index b ↔ a.toNat % ram.bytes.size = b.toNat % ram.bytes.size :=
    Fin.ext_iff
  apply Option.some.inj
  rw [← getElem?_index, size_poke]
  refine (Array.getElem?_set (ram.index a).isLt).trans ?_
  show (if a.toNat % ram.bytes.size = b.toNat % ram.bytes.size then some v else _) = _
  by_cases h : ram.index a = ram.index b
  · rw [if_pos h, if_pos (hindex.1 h)]
  · rw [if_neg h, if_neg (mt hindex.2 h)]
    exact ram.getElem?_index b

theorem size_writeWords (ws : List Word) : (Bus.writeWords ram a ws).bytes.size = ram.bytes.size :=
  Bus.writeWords_keeps (P := fun ram' : FlatRam => ram'.bytes.size = ram.bytes.size)
    (fun ram' hsize _ _ _ _ v => (ram'.size_poke _ v).trans hsize) rfl

/-- Words written in a row change the bytes that they reach and no others. -/
theorem getElem?_writeWords_of_ne {ws : List Word} {n : Nat}
    (hne : ∀ i < ws.length, ∀ j < 4,
      n ≠ ram.index (Width.word.address (a + UInt32.ofNat (4 * i)) j)) :
    (Bus.writeWords ram a ws).bytes.data[n]? = ram.bytes.data[n]? := by
  let Keeps (ram' : FlatRam) : Prop :=
    ram'.bytes.size = ram.bytes.size ∧ ram'.bytes.data[n]? = ram.bytes.data[n]?
  have hstep : ∀ ram', Keeps ram' → ∀ i < ws.length, ∀ j < 4, ∀ v,
      Keeps (Bus.write8 ram' (Width.word.address (a + UInt32.ofNat (4 * i)) j) v) := by
    rintro ram' ⟨hsize, hbyte⟩ i hi j hj v
    refine ⟨(ram'.size_poke _ v).trans hsize, ?_⟩
    have hindex :
        (Width.word.address (a + UInt32.ofNat (4 * i)) j).toNat % ram'.bytes.size ≠ n := by
      rw [hsize]
      exact (hne i hi j hj).symm
    rw [← hbyte]
    exact Array.getElem?_set_ne (ram'.index _).isLt hindex
  have hkeeps : Keeps (Bus.writeWords ram a ws) := Bus.writeWords_keeps hstep ⟨rfl, rfl⟩
  exact hkeeps.2

end FlatRam

/-- A block whose size is a power of two has one byte for each address of a window no larger. -/
theorem Word.eq_of_mod_eq {base a b : Word} {k n : Nat} (hn : n ≤ 2 ^ k) (ha : InWindow base n a)
    (hb : InWindow base n b) (h : a.toNat % 2 ^ k = b.toNat % 2 ^ k) : a = b := by
  apply UInt32.toNat_inj.1
  rcases Nat.lt_or_ge k 32 with hk | hk
  · obtain ⟨i, hi, ha⟩ := toNat_sub_of_inWindow ha
    obtain ⟨j, hj, hb⟩ := toNat_sub_of_inWindow hb
    -- The block divides the address space, so the window may go past its end.
    have hdvd : 2 ^ k ∣ 2 ^ 32 := Nat.pow_dvd_pow 2 (Nat.le_of_lt hk)
    rw [ha, hb, Nat.mod_mod_of_dvd _ hdvd, Nat.mod_mod_of_dvd _ hdvd] at h
    have hij : i % 2 ^ k = j % 2 ^ k := Nat.ModEq.add_left_cancel' base.toNat h
    rw [Nat.mod_eq_of_lt (Nat.lt_of_lt_of_le hi hn), Nat.mod_eq_of_lt (Nat.lt_of_lt_of_le hj hn)]
      at hij
    rw [ha, hb, hij]
  · have hpow : 2 ^ 32 ≤ 2 ^ k := Nat.pow_le_pow_right (by decide) hk
    rwa [Nat.mod_eq_of_lt (Nat.lt_of_lt_of_le a.toNat_lt hpow),
      Nat.mod_eq_of_lt (Nat.lt_of_lt_of_le b.toNat_lt hpow)] at h

/-- A flat memory whose size is a power of two is storage on every window that is no larger. -/
theorem FlatRam.stores (base : Word) {k n : Nat} (hn : n ≤ 2 ^ k) :
    Bus.Stores (fun ram : FlatRam => ram.bytes.size = 2 ^ k) (Word.InWindow base n) where
  after_read h _ := h
  after_write {ram a} h _ v := (ram.size_poke a v).trans h
  read_read _ _ _ _ := rfl
  read_write_self {ram a} _ _ v := by
    show (ram.poke a v).peek a = v
    rw [peek_poke, if_pos rfl]
  read_write_of_ne {ram a b} h ha hb hne v := by
    have hindex : ram.index a ≠ ram.index b := fun heq => by
      have hmod : a.toNat % ram.bytes.size = b.toNat % ram.bytes.size := congrArg Fin.val heq
      rw [h] at hmod
      exact hne (Word.eq_of_mod_eq hn ha hb hmod)
    show (ram.poke a v).peek b = ram.peek b
    rw [peek_poke, if_neg hindex]

/-- So it stores words in a row, as many as fit, from any address on. -/
theorem FlatRam.stores_words (a : Word) {k n : Nat} (hn : n ≤ 2 ^ 30) (hfit : 4 * n ≤ 2 ^ k) :
    ∃ W, Bus.Stores (fun ram : FlatRam => ram.bytes.size = 2 ^ k) W ∧
      ∀ i < n, Bus.CoversWord W (a + UInt32.ofNat (4 * i)) :=
  ⟨_, stores (Width.word.align a) hfit, fun _ hi _ hj => Word.inWindow_address hn hi hj⟩

/-! ## 6. Work RAM -/

/-- The address is in a region of RAM whose block shows in order. -/
def Region.OnFlat (a : Word) : Prop := ∃ r : Region, r.isFlat = true ∧ a >>> 24 ∈ r.topBytes

namespace Region.OnFlat

variable {a b : Word}

theorem reachesRam (h : OnFlat a) : Cell.ReachesRam a := by
  obtain ⟨r, hflat, htop⟩ := h
  obtain ⟨c, hc, rfl, -⟩ := Cell.ofAddress?_of_isFlat hflat htop
  exact ⟨c, hc, isRam_of_isFlat hflat⟩

/-- Something is mapped there, whatever is on the data lines. -/
theorem exists_mapped (h : OnFlat a) (m : Memory) : ∃ v, m.mapped? a = some v := by
  obtain ⟨c, hc, hram⟩ := h.reachesRam
  unfold Memory.mapped?
  rw [hc, Option.bind_some]
  cases c with
  | bios _ | io _ | rom _ => cases hram
  | ewram _ | iwram _ | palette _ | vram _ | oam _ | sram _ => exact ⟨_, rfl⟩

theorem top_ne (h : OnFlat a) : a >>> 24 ≠ 4 := by
  obtain ⟨r, hflat, htop⟩ := h
  intro hio
  rw [hio] at htop
  revert hflat htop
  cases r <;> decide

/-- The blocks repeat after 1 KiB at the earliest. -/
theorem eq_of_ofAddress?_eq {base : Word} {n : Nat} (hn : n ≤ 0x400) (ha : OnFlat a)
    (hina : Word.InWindow base n a) (hinb : Word.InWindow base n b)
    (h : Cell.ofAddress? a = Cell.ofAddress? b) (hb : OnFlat b) : a = b := by
  obtain ⟨r, hflat, htop⟩ := ha
  obtain ⟨r', hflat', htop'⟩ := hb
  obtain ⟨c, hc, hregion, hoffset⟩ := Cell.ofAddress?_of_isFlat hflat htop
  obtain ⟨c', hc', hregion', hoffset'⟩ := Cell.ofAddress?_of_isFlat hflat' htop'
  obtain rfl : c = c' := Option.some.inj (hc.symm.trans (h.trans hc'))
  obtain rfl : r = r' := hregion.symm.trans hregion'
  obtain ⟨k, hk, hsize⟩ : ∃ k, 0x400 ≤ 2 ^ k ∧ r.size = 2 ^ k := by
    cases r with
    | bios | io | vram | rom => cases hflat
    | ewram => exact ⟨18, by decide, rfl⟩
    | iwram => exact ⟨15, by decide, rfl⟩
    | palette | oam => exact ⟨10, by decide, rfl⟩
    | sram => exact ⟨16, by decide, rfl⟩
  rw [hsize] at hoffset hoffset'
  exact Word.eq_of_mod_eq (hn.trans hk) hina hinb (hoffset.symm.trans hoffset')

end Region.OnFlat

/-- The console's memory is storage on every window of at most 1 KiB in those regions. -/
theorem Memory.stores (base : Word) {n : Nat} (hn : n ≤ 0x400) :
    Bus.Stores (fun _ : Memory => True) (fun a => Word.InWindow base n a ∧ Region.OnFlat a) where
  after_read _ _ := trivial
  after_write _ _ _ := trivial
  read_read m a {b} hb := by
    obtain ⟨v, hv⟩ := hb.2.exists_mapped m
    show ((m.read8 a).2.read8 b).1 = (m.read8 b).1
    rw [read8_eq, read8_eq, read8_eq]
    unfold peek8
    rw [mapped?_withOpenBus, hv]
    rfl
  read_write_self {m a} _ ha v := by
    show ((m.write8 a v).read8 a).1 = v
    rw [read8_eq]
    unfold peek8
    rw [m.mapped?_write8_self v ha.2.reachesRam rfl]
    rfl
  read_write_of_ne {m a b} _ ha hb hne v := by
    have hcell : Cell.ofAddress? b ≠ Cell.ofAddress? a := fun heq =>
      hne (Region.OnFlat.eq_of_ofAddress?_eq hn ha.2 ha.1 hb.1 heq.symm hb.2)
    show ((m.write8 a v).read8 b).1 = (m.read8 b).1
    rw [read8_eq, read8_eq]
    unfold peek8
    rw [m.mapped?_write8_of_ne v ha.2.top_ne hcell, openBus_write8]

theorem Memory.stores_words (a : Word) {n : Nat} (hn : n ≤ 0x100)
    (hflat : ∀ i < n, Region.OnFlat (a + UInt32.ofNat (4 * i))) :
    ∃ W, Bus.Stores (fun _ : Memory => True) W ∧
      ∀ i < n, Bus.CoversWord W (a + UInt32.ofNat (4 * i)) := by
  refine ⟨_, stores (Width.word.align a) (n := 4 * n) (by omega), fun i hi j hj => ?_⟩
  obtain ⟨r, hr, htop⟩ := hflat i hi
  refine ⟨Word.inWindow_address (by omega) hi hj, r, hr, ?_⟩
  rw [Width.word.top_address _ hj]
  exact htop

end Handheld
