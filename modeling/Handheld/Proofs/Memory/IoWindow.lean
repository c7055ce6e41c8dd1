import Handheld.Proofs.Memory.Blocks
import Handheld.Proofs.Memory.RegisterBytes

/-!
# Writes in the I/O window

A byte written in the window is seen at its own address, by the rule of the byte that stands there,
and at no other.  What the display shows is what a program reads back.
-/

namespace Handheld

/-- The address of an I/O offset. -/
def ioAddress (o : Fin 0x400) : Word := 0x04000000 + UInt32.ofNat o

/-! ## 1. Addresses -/

theorem toNat_ioAddress (o : Fin 0x400) : (ioAddress o).toNat = 2 ^ 24 * 4 + o.val := by
  have hlt := o.isLt
  unfold ioAddress
  rw [UInt32.toNat_add, toNat_ofNat_ioOffset]
  show (2 ^ 24 * 4 + o.val) % 2 ^ 32 = 2 ^ 24 * 4 + o.val
  omega

theorem ioAddress_top (o : Fin 0x400) : ioAddress o >>> 24 = 4 := by
  have hlt := o.isLt
  rw [← UInt32.toNat_inj, Word.toNat_shiftRight (by decide), toNat_ioAddress]
  show (2 ^ 24 * 4 + o.val) / 2 ^ 24 = 4
  omega

theorem ioAddress_offset (o : Fin 0x400) : (ioAddress o &&& 0xFFFFFF).toNat = o.val := by
  have hlt := o.isLt
  have hmask : (0xFFFFFF : Word).toNat = (2 ^ 24 - 1) * 2 ^ 0 := by decide
  rw [Word.toNat_and_mask hmask, toNat_ioAddress]
  omega

theorem Cell.ofAddress?_ioAddress (o : Fin 0x400) : ofAddress? (ioAddress o) = some (.io o) := by
  rw [ofAddress?_of_window (ioAddress_top o)]
  simp only [ioAddress_offset, o.isLt, dif_pos]

theorem Cell.eq_ioAddress {a : Word} {o : Fin 0x400} (h : ofAddress? a = some (.io o)) :
    a = ioAddress o := by
  have htop : a >>> 24 = 4 := by
    by_contra htop
    exact ofAddress?_ne_io htop o h
  rw [ofAddress?_of_window htop] at h
  split at h
  · cases h
    apply Word.eq_of_window htop
    exact UInt32.ofNat_toNat.symm
  · cases h

namespace Memory

variable (m : Memory) (v : Byte)

/-! ## 2. Cells -/

theorem lookup_io (o : Fin 0x400) :
    m.lookup (.io o) =
      (Register.ofOffset? (UInt32.ofNat o)).map fun r => (m.register r).byteAt (UInt32.ofNat o) :=
  m.lookupIo_eq _

theorem mapped?_ioAddress (o : Fin 0x400) : m.mapped? (ioAddress o) = m.lookup (.io o) := by
  unfold mapped?
  rw [Cell.ofAddress?_ioAddress]
  rfl

theorem write8_ioAddress (o : Fin 0x400) : m.write8 (ioAddress o) v = m.store (.io o) v := by
  unfold write8
  rw [Cell.ofAddress?_ioAddress]

theorem lookup_store_io_self (o : Fin 0x400) :
    (m.store (.io o) v).lookup (.io o) =
      (ByteRule.ofOffset? o).bind fun rule => (m.lookup (.io o)).map fun old => rule.after old v := by
  rw [lookup_io, lookup_io, ByteRule.ofOffset?_eq]
  cases hr : Register.ofOffset? (UInt32.ofNat o) with
  | none => rfl
  | some r =>
    refine congrArg some ((m.byteAt_register_storeIo _ v hr _).trans ?_)
    rw [if_pos rfl]

theorem lookup_store_io_of_ne {c : Cell} {o : Fin 0x400} (h : c ≠ .io o) :
    (m.store (.io o) v).lookup c = m.lookup c := by
  cases c with
  | io o' =>
    rw [lookup_io, lookup_io]
    cases hr : Register.ofOffset? (UInt32.ofNat o') with
    | none => rfl
    | some r =>
      refine congrArg some ?_
      by_cases hsame : Register.ofOffset? (UInt32.ofNat o) = some r
      · -- The two bytes of one register.
        refine (m.byteAt_register_storeIo _ v hsame _).trans (if_neg fun hbit => h ?_)
        rw [ofNat_ioOffset_inj (Register.eq_of_ofOffset? hsame hr hbit)]
      · exact congrArg (Half.byteAt · _) (m.register_storeIo_of_ne _ v hsame)
  | bios _ | ewram _ | iwram _ | palette _ | vram _ | oam _ | rom _ | sram _ =>
    show (m.storeIo _ v).lookup _ = m.lookup _
    unfold storeIo
    split <;> rfl

/-! ## 3. What the display shows -/

theorem peek8_window {o : Word} (h : o.toNat < 0x400) {r : Register}
    (hr : Register.ofOffset? o = some r) : m.peek8 (0x04000000 + o) = (m.register r).byteAt o := by
  have haddress : ioAddress ⟨o.toNat, h⟩ = 0x04000000 + o := by
    unfold ioAddress
    rw [UInt32.ofNat_toNat]
  have hlookup := m.lookup_io ⟨o.toNat, h⟩
  rw [UInt32.ofNat_toNat, hr] at hlookup
  unfold peek8
  rw [← haddress, mapped?_ioAddress, hlookup]
  rfl

/-- The halfword that stands at an address, byte by byte. -/
def peek16 (a : Word) : Half := Half.ofBytes (m.peek8 a) (m.peek8 (a + 1))

/-- A register is what is read back at its two addresses. -/
theorem peek16_register (r : Register) : m.peek16 (0x04000000 + r.offset) = m.register r := by
  obtain ⟨hlow, hhigh, hfirst, hsecond, heven, hodd⟩ := r.offset_spec
  unfold peek16
  rw [UInt32.add_assoc, m.peek8_window hlow (Register.ofOffset?_eq_some_iff.2 hfirst),
    m.peek8_window hhigh (Register.ofOffset?_eq_some_iff.2 hsecond)]
  unfold Half.byteAt
  rw [heven, if_neg (by decide), if_pos hodd]
  exact Half.ofBytes_low_high _

/-- A byte written in the I/O window changes no byte but the one at its address, and that one by its
rule; no block changes.  The display goes by what is read back. -/
theorem io_read_over_write (m : Memory) (o : Fin 0x400) (v : Byte) :
    let m' := Bus.write8 m (ioAddress o) v
    (∀ a, a ≠ ioAddress o → m'.mapped? a = m.mapped? a) ∧
    (match ByteRule.ofOffset? o with
      | some rule => ∃ old, m.mapped? (ioAddress o) = some old ∧
        m'.mapped? (ioAddress o) = some (rule.after old v)
      | none => m.mapped? (ioAddress o) = none ∧ m'.mapped? (ioAddress o) = none) ∧
    (∀ r, m'.contents r = m.contents r) ∧ m'.openBus = m.openBus ∧
    m'.io.dispcnt = m'.peek16 0x04000000 ∧ m'.io.dispstat = m'.peek16 0x04000004 ∧
    (∀ n : Background, m'.io.bgControl n = m'.peek16 (0x04000008 + 2 * UInt32.ofNat n) ∧
      m'.io.bgScrollX n = m'.peek16 (0x04000010 + 4 * UInt32.ofNat n) ∧
      m'.io.bgScrollY n = m'.peek16 (0x04000012 + 4 * UInt32.ofNat n)) ∧
    m'.io.vcountSetting = (m'.peek8 0x04000005).toUInt16 ∧
    m'.io.vblankIrqEnabled = (m'.peek8 0x04000004).toNat.testBit 3 ∧
    m'.io.vcountIrqEnabled = (m'.peek8 0x04000004).toNat.testBit 5 := by
  intro m'
  have hwrite : m' = m.store (.io o) v := m.write8_ioAddress v o
  -- What the display shows holds of any state, so also of the one after the write.
  have hstatus : m'.io.dispstat = m'.peek16 0x04000004 :=
    (m'.peek16_register (.display .displayStatus)).symm
  have hlow : m'.io.dispstat.low = m'.peek8 0x04000004 := by
    rw [hstatus]
    exact Half.low_ofBytes _ _
  have hhigh : m'.io.dispstat.high = m'.peek8 0x04000005 := by
    rw [hstatus]
    exact Half.high_ofBytes _ _
  have hregister (r : Register) {a : Word} (ha : a = 0x04000000 + r.offset) :
      m'.register r = m'.peek16 a := by
    rw [ha, m'.peek16_register]
  refine ⟨fun a ha => ?_, ?_, fun r => ?_, ?_, hregister (.display .displayControl) rfl, hstatus,
    fun n => ⟨?_, ?_, ?_⟩, ?_, ?_, ?_⟩
  · rw [hwrite]
    unfold mapped?
    cases hc : Cell.ofAddress? a with
    | none => rfl
    | some c =>
      have hne : c ≠ .io o := by
        rintro rfl
        exact ha (Cell.eq_ioAddress hc)
      exact m.lookup_store_io_of_ne v hne
  · rw [hwrite, mapped?_ioAddress, mapped?_ioAddress, lookup_store_io_self, lookup_io,
      ByteRule.ofOffset?_eq]
    cases Register.ofOffset? (UInt32.ofNat o) with
    | none => exact ⟨rfl, rfl⟩
    | some r => exact ⟨_, rfl, rfl⟩
  · rw [hwrite]
    exact m.contents_store_io v o r
  · rw [hwrite]
    exact m.openBus_store v (.io o)
  · exact hregister (.display (.control n)) (UInt32.add_assoc 0x04000000 0x008 _)
  · exact hregister (.display (.scrollX n)) (UInt32.add_assoc 0x04000000 0x010 _)
  · exact hregister (.display (.scrollY n)) (UInt32.add_assoc 0x04000000 0x012 _)
  · rw [← hhigh, Half.toUInt16_high]
    rfl
  · rw [← hlow, Half.testBit_low _ (by decide)]
    exact Half.and_bne_zero _ rfl
  · rw [← hlow, Half.testBit_low _ (by decide)]
    exact Half.and_bne_zero _ rfl

end Memory

end Handheld
