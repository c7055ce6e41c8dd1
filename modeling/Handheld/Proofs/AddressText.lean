import Handheld.Observe.Console
import Handheld.Proofs.Numeral

/-!
# Addresses as texts

A text names a number if, without its underscores, it is a numeral in base sixteen behind one of the
three prefixes or a numeral in base ten, with at most one plus sign in front of the digits.  An
address is read from the texts that name it and from no others, and a byte of memory is shown under
each of them.
-/

namespace Handheld

/-! ## 1. The texts that name a number -/

namespace AddressText

/-- The characters of a text that are not underscores. -/
def bare (text : String) : List Char := text.toList.filter (· != '_')

/-- The base that the beginning of a text chooses, and what follows the prefix. -/
inductive Prefixed : List Char → Nat → List Char → Prop
  | lower (rest : List Char) : Prefixed ('0' :: 'x' :: rest) 16 rest
  | upper (rest : List Char) : Prefixed ('0' :: 'X' :: rest) 16 rest
  | dollar (rest : List Char) : Prefixed ('$' :: rest) 16 rest
  | decimal {cs : List Char} (hlower : ¬ ['0', 'x'] <+: cs) (hupper : ¬ ['0', 'X'] <+: cs)
      (hdollar : ¬ ['$'] <+: cs) : Prefixed cs 10 cs

/-- The text without underscores is a numeral of the base that its prefix chooses, with at most one
plus sign before the digits. -/
def Names (text : String) (n : Nat) : Prop :=
  ∃ base cs digits, Prefixed (bare text) base cs ∧ (cs = digits ∨ cs = '+' :: digits) ∧
    Numeral.Spells base digits n

/-! ## 2. Reading -/

theorem prefixed_base {cs rest : List Char} {base : Nat} (h : Prefixed cs base rest) :
    base ≤ 16 := by
  cases h <;> decide

theorem not_isDigit_plus (base d : Nat) : ¬ Numeral.IsDigit base '+' d := by
  rintro ⟨-, hlower | hupper⟩
  · exact absurd (List.mem_of_getElem? hlower) (by decide)
  · exact absurd (List.mem_of_getElem? hupper) (by decide)

theorem number?_eq_some_iff {base : Nat} (hbase : base ≤ 16) (cs : List Char) (a : Word) :
    number? base cs = some a ↔
      ∃ digits, (cs = digits ∨ cs = '+' :: digits) ∧ Numeral.Spells base digits a.toNat := by
  have hfits : ∀ digits, ((Numeral.read? base digits).bind fun n =>
      if n < UInt32.size then some (UInt32.ofNat n) else none) = some a ↔
        Numeral.Spells base digits a.toNat := by
    intro digits
    rw [← Numeral.read?_eq_some_iff hbase]
    simp only [Option.bind_eq_some_iff, Option.ite_none_right_eq_some, Option.some.injEq]
    constructor
    · rintro ⟨n, hread, hlt, rfl⟩
      rw [hread, UInt32.toNat_ofNat_of_lt' hlt]
    · intro hread
      exact ⟨a.toNat, hread, a.toNat_lt, UInt32.ofNat_toNat⟩
  unfold number?
  split
  next rest =>
    rw [hfits]
    constructor
    · intro h
      exact ⟨rest, .inr rfl, h⟩
    · rintro ⟨digits, rfl | hplus, h⟩
      · obtain ⟨d, hd⟩ := h.isDigit
        exact absurd hd (not_isDigit_plus base d)
      · rwa [List.tail_eq_of_cons_eq hplus]
  next hsign =>
    rw [hfits]
    constructor
    · intro h
      exact ⟨cs, .inl rfl, h⟩
    · rintro ⟨digits, rfl | hplus, h⟩
      · exact h
      · exact absurd hplus (hsign digits)

theorem parse?_eq_number? (text : String) :
    ∃ base cs, Prefixed (bare text) base cs ∧ parse? text = number? base cs := by
  unfold parse? bare
  split
  next rest h => exact ⟨16, rest, h ▸ .lower rest, rfl⟩
  next rest h => exact ⟨16, rest, h ▸ .upper rest, rfl⟩
  next rest h => exact ⟨16, rest, h ▸ .dollar rest, rfl⟩
  next hlower hupper hdollar =>
    refine ⟨10, _, .decimal ?_ ?_ ?_, rfl⟩
    · rintro ⟨rest, h⟩
      exact hlower rest h.symm
    · rintro ⟨rest, h⟩
      exact hupper rest h.symm
    · rintro ⟨rest, h⟩
      exact hdollar rest h.symm

theorem Prefixed.unique {cs rest rest' : List Char} {base base' : Nat} (h : Prefixed cs base rest)
    (h' : Prefixed cs base' rest') : base = base' ∧ rest = rest' := by
  cases h <;> cases h' <;> simp_all

/-- An address is read from the texts that name it. -/
theorem parse?_eq_some_iff (text : String) (a : Word) :
    parse? text = some a ↔ Names text a.toNat := by
  obtain ⟨base, cs, hprefix, hparse⟩ := parse?_eq_number? text
  rw [hparse, number?_eq_some_iff (prefixed_base hprefix)]
  constructor
  · rintro ⟨digits, hsign, hspells⟩
    exact ⟨base, cs, digits, hprefix, hsign, hspells⟩
  · rintro ⟨base', cs', digits, hprefix', hsign, hspells⟩
    obtain ⟨rfl, rfl⟩ := hprefix.unique hprefix'
    exact ⟨digits, hsign, hspells⟩

/-- No address is read from the texts that name none. -/
theorem parse?_eq_none_iff (text : String) :
    parse? text = none ↔ ∀ n < UInt32.size, ¬ Names text n := by
  constructor
  · intro hnone n hn hnames
    have hsome : parse? text = some (UInt32.ofNat n) := by
      rwa [parse?_eq_some_iff, UInt32.toNat_ofNat_of_lt' hn]
    rw [hnone] at hsome
    cases hsome
  · intro hnames
    refine Option.eq_none_iff_forall_ne_some.mpr fun a hsome => ?_
    exact hnames a.toNat a.toNat_lt ((parse?_eq_some_iff text a).mp hsome)

/-! ## 3. The written forms of an address -/

theorem names_display {text : String} {a : Word}
    (h : bare text = (Value.word a).display.toList) : Names text a.toNat := by
  have hspells := Numeral.spells_hexDigits 7 a.toNat
  rw [Nat.mod_eq_of_lt (show a.toNat < 16 ^ 8 from a.toNat_lt)] at hspells
  have hbare : bare text = '0' :: 'x' :: Numeral.hexDigits 8 a.toNat :=
    h.trans String.toList_ofList
  exact ⟨16, _, _, hbare ▸ .lower _, .inl rfl, hspells⟩

theorem names_repr {text : String} {n : Nat} (h : bare text = n.repr.toList) : Names text n := by
  rw [Nat.toList_repr] at h
  -- Every character is a figure, so that no prefix stands in front.
  have hfigure : ∀ c ∈ bare text, c.isDigit = true := fun c hc =>
    Nat.isDigit_of_mem_toDigits (by decide) (by decide) (h ▸ hc)
  have hprefix (cs : List Char) (c : Char) (hc : c ∈ cs) (hno : c.isDigit = false) :
      ¬ cs <+: bare text := by
    intro hstart
    rw [hfigure c (hstart.subset hc)] at hno
    cases hno
  refine ⟨10, _, _, .decimal ?_ ?_ ?_, .inl rfl, h ▸ Numeral.spells_toDigits n⟩
  · exact hprefix _ 'x' (by decide) (by decide)
  · exact hprefix _ 'X' (by decide) (by decide)
  · exact hprefix _ '$' (by decide) (by decide)

end AddressText

/-- Leading zeros, a plus sign behind the prefix and an underscore inside it name the same address;
the first number that is no address is named by no address's text. -/
example : AddressText.parse? "0_x_+0_0300_7F_00" = some 0x03007F00 ∧
    AddressText.parse? "4294967296" = none := by decide

/-! ## 4. Bytes by address -/

theorem after?_append (start rest : String) : after? start (start ++ rest) = some rest := by
  have hprefix : ∀ cs rest : List Char, cs.isPrefixOf? (cs ++ rest) = some rest := by
    intro cs rest
    induction cs with
    | nil => rfl
    | cons c cs ih => simp [List.isPrefixOf?, ih]
  rw [after?, String.toList_append, hprefix, Option.map_some, String.ofList_toList]

namespace Console

theorem query_memory (console : Console) (text : String) :
    console.query ("memory." ++ text) = queryMemory console.memory text := by
  have hcpu : after? "cpu." ("memory." ++ text) = none := by
    rw [after?, String.toList_append]
    rfl
  have hio : after? "io." ("memory." ++ text) = none := by
    rw [after?, String.toList_append]
    rfl
  unfold query
  simp only [hcpu, hio, after?_append]

/-- An address is read from a text exactly if the text names it, and from no other text.  The two
written forms of an address name it, with underscores wherever they may stand, and a byte of memory
is shown under every text that names its address. -/
theorem query_address (text : String) :
    (∀ a, AddressText.parse? text = some a ↔ AddressText.Names text a.toNat) ∧
    (AddressText.parse? text = none ↔ ∀ n < UInt32.size, ¬ AddressText.Names text n) ∧
    (∀ a, AddressText.bare text = (Value.word a).display.toList ∨
        AddressText.bare text = a.toNat.repr.toList → AddressText.parse? text = some a) ∧
    ∀ (console : Console) (v : Value), console.query ("memory." ++ text) = some v ↔
      ∃ a, AddressText.Names text a.toNat ∧ v = .byte (console.memory.peek8 a) := by
  have hread := AddressText.parse?_eq_some_iff text
  refine ⟨hread, AddressText.parse?_eq_none_iff text, ?written, fun console v => ?shown⟩
  case written =>
    rintro a (h | h)
    · exact (hread a).mpr (AddressText.names_display h)
    · exact (hread a).mpr (AddressText.names_repr h)
  case shown =>
    rw [query_memory, queryMemory, Option.map_eq_some_iff]
    constructor
    · rintro ⟨a, ha, rfl⟩
      exact ⟨a, (hread a).mp ha, rfl⟩
    · rintro ⟨a, ha, rfl⟩
      exact ⟨a, (hread a).mpr ha, rfl⟩

/-- The written form of an address with an underscore inside its prefix, and the same address in
base ten. -/
theorem query_address_scattered :
    AddressText.parse? "0_x0300_7F_00" = some 0x03007F00 ∧
      AddressText.parse? "50_364_160" = some 0x03007F00 :=
  ⟨(query_address "0_x0300_7F_00").2.2.1 0x03007F00 (.inl (by decide)),
    (query_address "50_364_160").2.2.1 0x03007F00 (.inr (by decide))⟩

end Console

end Handheld
