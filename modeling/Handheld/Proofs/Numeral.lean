import Handheld.Numeral
import Mathlib.Data.List.Forall2
import Mathlib.Data.Nat.Digits.Lemmas

/-!
# Numerals and their value

A digit is a place in a row of sixteen characters, the letters in either case, and a numeral is a
sequence of digits with the positional value of its row of places.  Reading accepts the numerals of
its base and nothing else, and the two ways in which numbers are written spell the numbers they are
made of.
-/

namespace Handheld.Numeral

/-! ## 1. Digits -/

def lowerDigits : List Char :=
  ['0', '1', '2', '3', '4', '5', '6', '7', '8', '9', 'a', 'b', 'c', 'd', 'e', 'f']

def upperDigits : List Char :=
  ['0', '1', '2', '3', '4', '5', '6', '7', '8', '9', 'A', 'B', 'C', 'D', 'E', 'F']

/-- The character `c` stands for `d` in numbers of the given base. -/
def IsDigit (base : Nat) (c : Char) (d : Nat) : Prop :=
  d < base ∧ (lowerDigits[d]? = some c ∨ upperDigits[d]? = some c)

theorem lowerDigits_figure : ∀ d < 10, lowerDigits[d]? = some (Char.ofNat (d + 48)) := by decide

theorem lowerDigits_letter :
    ∀ d < 16, 10 ≤ d → lowerDigits[d]? = some (Char.ofNat (d + 87)) := by decide

theorem upperDigits_letter :
    ∀ d < 16, 10 ≤ d → upperDigits[d]? = some (Char.ofNat (d + 55)) := by decide

theorem char_eq_ofNat {c : Char} {n : Nat} (h : c.toNat = n) : c = Char.ofNat n := by
  rw [← h, Char.ofNat_toNat]

theorem isDigit_of_digit? {base d : Nat} {c : Char} (hbase : base ≤ 16)
    (h : digit? base c = some d) : IsDigit base c d := by
  have hle : ∀ a b : Char, a ≤ b ↔ a.toNat ≤ b.toNat := fun a b => by
    rw [Char.le_def, UInt32.le_iff_toNat_le]
    rfl
  simp only [digit?, Option.ite_none_right_eq_some, Option.some.injEq, hle] at h
  obtain ⟨hlt, hd⟩ := h
  rw [hd] at hlt
  refine ⟨hlt, ?_⟩
  split at hd
  next hfigure =>
    have hbounds : 48 ≤ c.toNat ∧ c.toNat ≤ 57 := hfigure
    left
    rw [lowerDigits_figure d (by omega), char_eq_ofNat (by omega : c.toNat = d + 48)]
  next hfigure =>
  split at hd
  next hlower =>
    have hbounds : 97 ≤ c.toNat ∧ c.toNat ≤ 122 := hlower
    left
    rw [lowerDigits_letter d (by omega) (by omega), char_eq_ofNat (by omega : c.toNat = d + 87)]
  next hlower =>
  split at hd
  next hupper =>
    have hbounds : 65 ≤ c.toNat ∧ c.toNat ≤ 90 := hupper
    right
    rw [upperDigits_letter d (by omega) (by omega), char_eq_ofNat (by omega : c.toNat = d + 55)]
  next hupper => omega

/-- What is a digit in base sixteen is the same digit in every base that is large enough for it. -/
theorem digit?_of_lt {base d : Nat} {c : Char} (h : digit? 16 c = some d) (hlt : d < base) :
    digit? base c = some d := by
  simp only [digit?, Option.ite_none_right_eq_some, Option.some.injEq] at h ⊢
  obtain ⟨hsixteen, hd⟩ := h
  rw [hd] at hsixteen
  have hsame : (if '0' ≤ c ∧ c ≤ '9' then c.toNat - 48
      else if 'a' ≤ c ∧ c ≤ 'z' then c.toNat - 87
      else if 'A' ≤ c ∧ c ≤ 'Z' then c.toNat - 55 else base) = d := by
    split_ifs at hd ⊢ <;> first | exact hd | omega
  rw [hsame]
  exact ⟨hlt, rfl⟩

theorem digit?_eq_some_iff {base d : Nat} {c : Char} (hbase : base ≤ 16) :
    digit? base c = some d ↔ IsDigit base c d := by
  refine ⟨isDigit_of_digit? hbase, fun ⟨hlt, hrow⟩ => digit?_of_lt ?_ hlt⟩
  have hrows : ∀ d < 16, lowerDigits[d]?.bind (digit? 16) = some d ∧
      upperDigits[d]?.bind (digit? 16) = some d := by decide
  obtain ⟨hlower, hupper⟩ := hrows d (by omega)
  cases hrow with
  | inl h => rwa [h] at hlower
  | inr h => rwa [h] at hupper

/-! ## 2. Numerals -/

/-- The characters are digits of the base, at least one, and the value of their row is `n`. -/
def Spells (base : Nat) (cs : List Char) (n : Nat) : Prop :=
  cs ≠ [] ∧ ∃ ds, List.Forall₂ (IsDigit base) cs ds ∧ Nat.ofDigits base ds.reverse = n

theorem spells_digit {base d : Nat} {c : Char} (h : IsDigit base c d) : Spells base [c] d :=
  ⟨List.cons_ne_nil _ _, [d], .cons h .nil, Nat.ofDigits_singleton⟩

/-- One more digit at the end multiplies by the base. -/
theorem Spells.concat {base d n : Nat} {c : Char} {cs : List Char} (h : Spells base cs n)
    (hc : IsDigit base c d) : Spells base (cs ++ [c]) (base * n + d) := by
  obtain ⟨-, ds, hds, rfl⟩ := h
  refine ⟨by simp, ds ++ [d], List.rel_append hds (.cons hc .nil), ?_⟩
  rw [List.reverse_append, List.reverse_singleton, List.singleton_append, Nat.ofDigits_cons,
    Nat.add_comm]

theorem Spells.isDigit {base n : Nat} {c : Char} {cs : List Char} (h : Spells base (c :: cs) n) :
    ∃ d, IsDigit base c d := by
  obtain ⟨-, ds, hds, -⟩ := h
  obtain ⟨d, _, hd, -⟩ := List.forall₂_cons_left_iff.mp hds
  exact ⟨d, hd⟩

/-! ## 3. Reading -/

theorem continue?_eq_some_iff {base m : Nat} (hbase : base ≤ 16) (n : Nat) (cs : List Char) :
    continue? base n cs = some m ↔ ∃ ds, List.Forall₂ (IsDigit base) cs ds ∧
      base ^ ds.length * n + Nat.ofDigits base ds.reverse = m := by
  induction cs generalizing n with
  | nil => simp [continue?]
  | cons c cs ih =>
    -- The digit read next stands above all that follow it.
    have hvalue : ∀ d (ds : List Nat), base ^ ds.length * (base * n + d) +
        Nat.ofDigits base ds.reverse =
          base ^ (d :: ds).length * n + Nat.ofDigits base (d :: ds).reverse := by
      intro d ds
      rw [List.reverse_cons, Nat.ofDigits_append, Nat.ofDigits_singleton, List.length_reverse,
        List.length_cons, pow_succ]
      ring
    simp only [continue?, Option.bind_eq_some_iff, digit?_eq_some_iff hbase, ih]
    constructor
    · rintro ⟨d, hd, ds, hds, hm⟩
      exact ⟨d :: ds, .cons hd hds, by rw [← hvalue, hm]⟩
    · rintro ⟨_, hds, hm⟩
      obtain ⟨d, ds, hd, hrest, rfl⟩ := List.forall₂_cons_left_iff.mp hds
      exact ⟨d, hd, ds, hrest, by rw [hvalue, hm]⟩

/-- Reading accepts the numerals of its base, and nothing else. -/
theorem read?_eq_some_iff {base n : Nat} (hbase : base ≤ 16) (cs : List Char) :
    read? base cs = some n ↔ Spells base cs n := by
  cases cs with
  | nil => simp [read?, Spells]
  | cons c cs => simp [read?, Spells, continue?_eq_some_iff hbase]

/-! ## 4. Writing -/

theorem isDigit_hexDigit (d : Nat) (h : d < 16) : IsDigit 16 (hexDigit d) d := by
  have hrow : ∀ d < 16, upperDigits[d]? = some (hexDigit d) := by decide
  exact ⟨h, .inr (hrow d h)⟩

theorem isDigit_digitChar (d : Nat) (h : d < 10) : IsDigit 10 d.digitChar d := by
  have hrow : ∀ d < 10, lowerDigits[d]? = some d.digitChar := by decide
  exact ⟨h, .inl (hrow d h)⟩

/-- The last digits of a number in base sixteen spell it, as far as they go. -/
theorem spells_hexDigits (width n : Nat) :
    Spells 16 (hexDigits (width + 1) n) (n % 16 ^ (width + 1)) := by
  induction width generalizing n with
  | zero => exact spells_digit (isDigit_hexDigit _ (Nat.mod_lt _ (by decide)))
  | succ width ih =>
    have hsplit : n % 16 ^ (width + 2) = 16 * (n / 16 % 16 ^ (width + 1)) + n % 16 := by
      rw [pow_succ' 16 (width + 1), Nat.mod_mul, Nat.add_comm]
    rw [hsplit]
    exact (ih (n / 16)).concat (isDigit_hexDigit _ (Nat.mod_lt _ (by decide)))

theorem spells_toDigits (n : Nat) : Spells 10 (Nat.toDigits 10 n) n := by
  induction n using Nat.strongRecOn with
  | ind n ih =>
    rw [Nat.toDigits_eq_if (by decide)]
    split
    next hlt => exact spells_digit (isDigit_digitChar n hlt)
    next hge =>
      have hsmaller : n / 10 < n := Nat.div_lt_self (by omega) (by decide)
      have hspells := (ih _ hsmaller).concat (isDigit_digitChar (n % 10) (Nat.mod_lt _ (by decide)))
      rwa [Nat.div_add_mod] at hspells

end Handheld.Numeral
