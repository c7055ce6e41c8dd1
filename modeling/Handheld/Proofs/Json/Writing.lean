import Handheld.Json.Writer
import Handheld.Proofs.Json.Grammar
import Mathlib.Data.List.Basic

/-!
# What is written is read

The written form of an ordinary value is one of its spellings, so reading it gives the value back.
-/

namespace Handheld.Json

/-! ## 1. Numbers -/

/-- Digits in base ten do not begin with a zero, but for zero itself. -/
theorem head?_toDigits (n : Nat) (h : (Nat.toDigits 10 n).head? = some '0') :
    Nat.toDigits 10 n = ['0'] := by
  induction n using Nat.strongRecOn with
  | ind n ih =>
    rw [Nat.toDigits_eq_if (by decide)] at h ⊢
    split at h
    next hlt =>
      rw [if_pos hlt]
      exact congrArg (fun c => [c]) (Option.some.inj h)
    next hge =>
      -- The first digit is that of a smaller number, which is not zero.
      have hsmaller : n / 10 < n := Nat.div_lt_self (by omega) (by decide)
      rw [List.head?_append_of_ne_nil _ Nat.toDigits_ne_nil] at h
      have hzero : n / 10 = 0 := by
        rw [← Nat.ofDigitChars_ten_toDigits (n := n / 10), ih _ hsmaller h]
        rfl
      omega

theorem isWhole_toDigits (n : Nat) : IsWhole (Nat.toDigits 10 n) :=
  ⟨⟨Nat.toDigits_ne_nil, fun _ => Nat.isDigit_of_mem_toDigits (by decide) (by decide)⟩,
    head?_toDigits n⟩

/-! ## 2. Strings -/

theorem spellsParts_escaped (c : Char) {parts : List StringPart} {cs s : List Char}
    (h : SpellsParts parts cs) (hs : charsOfParts? parts = some s) :
    ∃ parts, SpellsParts parts (escaped c ++ cs) ∧ charsOfParts? parts = some (c :: s) := by
  have hchar : charsOfParts? (.char c :: parts) = some (c :: s) := by
    unfold charsOfParts?
    rw [hs]
    rfl
  unfold escaped
  split
  next hquote =>
    subst hquote
    exact ⟨_, .escape rfl h, hchar⟩
  next hquote =>
  split
  next hbackslash =>
    subst hbackslash
    exact ⟨_, .escape rfl h, hchar⟩
  next hbackslash =>
  split
  next hcontrol =>
    -- A control character is written by its number, which is below both ranges of surrogates.
    have hdigits : ∀ n < 32, Numeral.read? 16
        ['0', '0', Nat.digitChar (n / 16), Nat.digitChar (n % 16)] = some n := by decide
    have hhigh : isHighSurrogate c.toNat = false := by
      unfold isHighSurrogate
      simp only [Bool.and_eq_false_iff, decide_eq_false_iff_not]
      omega
    have hlow : isLowSurrogate c.toNat = false := by
      unfold isLowSurrogate
      simp only [Bool.and_eq_false_iff, decide_eq_false_iff_not]
      omega
    refine ⟨_, .unit (hdigits c.toNat hcontrol) h, ?_⟩
    unfold charsOfParts?
    rw [hhigh, hlow, hs, Char.ofNat_toNat]
    rfl
  next hcontrol => exact ⟨_, .plain hquote hbackslash (Nat.le_of_not_lt hcontrol) h, hchar⟩

theorem exists_spellsParts (s : List Char) :
    ∃ parts, SpellsParts parts (s.flatMap escaped ++ ['"']) ∧ charsOfParts? parts = some s := by
  induction s with
  | nil => exact ⟨[], .close, rfl⟩
  | cons c s ih =>
    obtain ⟨parts, hparts, hs⟩ := ih
    rw [List.flatMap_cons, List.append_assoc]
    exact spellsParts_escaped c hparts hs

theorem spellsString_writeString (s : String) :
    SpellsString (some s) (s.toList.flatMap escaped ++ ['"']) := by
  obtain ⟨parts, hparts, hs⟩ := exists_spellsParts s.toList
  refine ⟨parts, hparts, ?_⟩
  rw [hs, Option.map_some, String.ofList_toList]

/-! ## 3. Values -/

/-- The written form spells the value. -/
def Writable (j : Json) : Prop := Spells (.value j) (write j)

theorem writable_null : Writable null := .null

theorem writable_bool (b : Bool) : Writable (bool b) := by
  cases b with
  | false => exact .false
  | true => exact .true

theorem writable_ofNat (n : Nat) : Writable (ofNat n) := by
  have h := SpellsNumber.natural (isWhole_toDigits n)
  rw [Nat.ofDigitChars_ten_toDigits] at h
  exact .number h

theorem spells_writeItems {vs : List Json} (hne : vs ≠ []) (h : ∀ v ∈ vs, Writable v) :
    Spells (.items vs) (writeItems vs) := by
  induction vs with
  | nil => exact absurd rfl hne
  | cons v vs ih =>
    obtain ⟨hv, hvs⟩ := List.forall_mem_cons.1 h
    -- A comma is written between two items, and the bracket after the last.
    cases vs with
    | nil => exact .lastItem isBlank_nil hv isBlank_nil
    | cons v' vs => exact .item isBlank_nil hv isBlank_nil (ih (by simp) hvs)

theorem writable_array {vs : List Json} (h : ∀ v ∈ vs, Writable v) : Writable (array vs) := by
  cases vs with
  | nil => exact .emptyArray isBlank_nil
  | cons v vs => exact .array (spells_writeItems (by simp) h)

theorem spells_writeMembers {ms : List (String × Json)} (hne : ms ≠ [])
    (h : ∀ m ∈ ms, Writable m.2) :
    Spells (.members (ms.map fun (name, v) => (some name, v)))
      (writeMembers (ms.map fun (name, v) => (some name, v))) := by
  induction ms with
  | nil => exact absurd rfl hne
  | cons m ms ih =>
    obtain ⟨hm, hms⟩ := List.forall_mem_cons.1 h
    have hname := spellsString_writeString m.1
    cases ms with
    | nil =>
      exact .lastMember isBlank_nil hname isBlank_nil isBlank_nil hm isBlank_nil
    | cons m' ms =>
      exact .member isBlank_nil hname isBlank_nil isBlank_nil hm isBlank_nil (ih (by simp) hms)

theorem writable_ofMembers {ms : List (String × Json)} (h : ∀ m ∈ ms, Writable m.2) :
    Writable (ofMembers ms) := by
  cases ms with
  | nil => exact .emptyObject isBlank_nil
  | cons m ms => exact .object (spells_writeMembers (by simp) h)

theorem Ordinary.writable {j : Json} (h : Ordinary j) : Writable j := by
  induction h with
  | null => exact writable_null
  | bool b => exact writable_bool b
  | ofNat n => exact writable_ofNat n
  | string s => exact .string (spellsString_writeString s)
  | array _ ih => exact writable_array ih
  | ofMembers _ ih => exact writable_ofMembers ih

theorem Ordinary.isText {j : Json} (h : Ordinary j) : IsText j j.toText :=
  ⟨[], write j, [], isBlank_nil, h.writable, isBlank_nil, by simp [toText]⟩

end Handheld.Json
