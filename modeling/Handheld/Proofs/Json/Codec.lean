import Handheld.Json.Codec
import Handheld.Proofs.Json.Fields
import Handheld.Proofs.Json.Reading
import Handheld.Proofs.Json.Writing

/-!
# Lawful codecs

A codec comes from outside, and all that is relied on is how it is documented to behave: `Lawful`
says so of each of its parts.  Records of any fields follow from that, and so does every value that
is read as it was written.  The plain codec is lawful.
-/

namespace Handheld

open Json (Field Gives IsForm IsRecord IsText)

/-! ## 1. Laws -/

/-- The documented behaviour of a codec. -/
structure Codec.Lawful (codec : Codec) : Prop where
  /-- An ordinary value is written as one of its texts. -/
  write {j : Json} (h : j.Ordinary) : IsText j (codec.write j)
  /-- What is read of a text is what its reader finds in the value of the whole text.  What is no
  text, or has something left over at its end, is an error. -/
  read? {α : Type} {item? : Json → Option α} {text : String} {a : α} :
    codec.read? item? text = some a ↔ ∃ j, IsText j text ∧ item? j = some a
  /-- An unsigned integer is a number in plain digits that its type has room for. -/
  natBelow? {bound n : Nat} {j : Json} :
    codec.natBelow? bound j = some n ↔ n < bound ∧ j = .ofNat n
  bool? {b : Bool} {j : Json} : codec.bool? j = some b ↔ j = .bool b
  orNull?_null {α : Type} {item? : Json → Option α} : codec.orNull? item? .null = some none
  orNull?_of_ne {α : Type} {item? : Json → Option α} {j : Json} (h : j ≠ .null) :
    codec.orNull? item? j = (item? j).map some
  /-- A list is read item by item. -/
  list? {α : Type} {item? : Json → Option α} {l : List α} {j : Json} :
    codec.list? item? j = some l ↔
      ∃ vs, j = .array vs ∧ List.Forall₂ (fun v a => item? v = some a) vs l
  /-- A list of a fixed length is a list of no other length. -/
  vector? {α : Type} {item? : Json → Option α} {n : Nat} {v : Vector α n} {j : Json} :
    codec.vector? n item? j = some v ↔ codec.list? item? j = some v.toList
  /-- The fields of an object come in any order and each at most once.  Other names are passed
  over. -/
  record?_ofMembers {names : List String} {ms : List (String × Json)}
    {given : List (Option Json)} :
    codec.record? names (.ofMembers ms) = some given ↔ List.Forall₂ (Gives ms) names given
  /-- The fields of an array come in order.  There are none too many, and those that are missing at
  the end are not given. -/
  record?_array {names : List String} {vs : List Json} {given : List (Option Json)} :
    codec.record? names (.array vs) = some given ↔
      vs.length ≤ names.length ∧
        given = vs.map some ++ List.replicate (names.length - vs.length) none
  record?_other {names : List String} {j : Json} (hobject : ∀ ms, j ≠ .ofMembers ms)
    (harray : ∀ vs, j ≠ .array vs) : codec.record? names j = none
  /-- A field that is not given is the default. -/
  field?_none {α : Type} {item? : Json → Option α} {default : α} :
    codec.field? item? default none = some default
  field?_some {α : Type} {item? : Json → Option α} {default : α} {j : Json} :
    codec.field? item? default (some j) = item? j

/-- What is read from a value is what is written as that value. -/
def Json.Encodes {α : Type} (item? : Json → Option α) (enc : α → Json) : Prop :=
  ∀ {j a}, item? j = some a ↔ j = enc a

namespace Codec.Lawful

variable {codec : Codec} (hcodec : codec.Lawful)

include hcodec

/-! ## 2. Items -/

section Items

variable {α : Type} {item? : Json → Option α} {enc : α → Json}

/-- Numbers below a bound, for a type that has one for each of them. -/
theorem encodes_below {bound : Nat} {of : Nat → α} {num : α → Nat} (hlt : ∀ a, num a < bound)
    (hnum : ∀ n < bound, num (of n) = n) (hof : ∀ a, of (num a) = a) :
    Json.Encodes (fun j => (codec.natBelow? bound j).map of) fun a => .ofNat (num a) := by
  intro j a
  rw [Option.map_eq_some_iff]
  constructor
  · rintro ⟨n, hn, rfl⟩
    obtain ⟨hlt, rfl⟩ := hcodec.natBelow?.1 hn
    exact congrArg Json.ofNat (hnum n hlt).symm
  · rintro rfl
    exact ⟨num a, hcodec.natBelow?.2 ⟨hlt a, rfl⟩, hof a⟩

theorem encodes_byte : Json.Encodes codec.byte? fun b => .ofNat b.toNat :=
  hcodec.encodes_below UInt8.toNat_lt (fun _ h => UInt8.toNat_ofNat_of_lt' h) fun _ =>
    UInt8.ofNat_toNat

theorem encodes_half : Json.Encodes codec.half? fun h => .ofNat h.toNat :=
  hcodec.encodes_below UInt16.toNat_lt (fun _ h => UInt16.toNat_ofNat_of_lt' h) fun _ =>
    UInt16.ofNat_toNat

theorem encodes_word : Json.Encodes codec.word? fun w => .ofNat w.toNat :=
  hcodec.encodes_below UInt32.toNat_lt (fun _ h => UInt32.toNat_ofNat_of_lt' h) fun _ =>
    UInt32.ofNat_toNat

theorem encodes_long : Json.Encodes codec.long? fun n => .ofNat n.toNat :=
  hcodec.encodes_below UInt64.toNat_lt (fun _ h => UInt64.toNat_ofNat_of_lt' h) fun _ =>
    UInt64.ofNat_toNat

theorem encodes_bool : Json.Encodes codec.bool? .bool := hcodec.bool?

/-- A value that may be missing, where none of the others is written as `null`. -/
theorem encodes_orNull (h : Json.Encodes item? enc) (hnull : ∀ a, enc a ≠ .null) :
    Json.Encodes (codec.orNull? item?) fun o => (o.map enc).getD .null := by
  intro j o
  by_cases hj : j = .null
  · subst hj
    rw [hcodec.orNull?_null, Option.some.injEq]
    cases o with
    | none => exact iff_of_true rfl rfl
    | some a => exact iff_of_false nofun (hnull a).symm
  · rw [hcodec.orNull?_of_ne hj, Option.map_eq_some_iff]
    cases o with
    | none => exact iff_of_false nofun hj
    | some a =>
      show _ ↔ j = enc a
      rw [← h]
      simp

theorem encodes_list (h : Json.Encodes item? enc) :
    Json.Encodes (codec.list? item?) fun l => .array (l.map enc) := by
  intro j l
  have heq : (fun v a => item? v = some a) = fun v a => v = enc a := by
    funext v a
    exact propext h
  simp only [hcodec.list?, heq, ← List.forall₂_map_right_iff (f := enc), List.forall₂_eq_eq_eq,
    exists_eq_right]

theorem encodes_vector (h : Json.Encodes item? enc) (n : Nat) :
    Json.Encodes (codec.vector? n item?) fun v => .ofVector enc v := by
  intro j v
  rw [hcodec.vector?, hcodec.encodes_list h]
  rfl

end Items

/-! ## 3. Records -/

/-- The fields of a record are found, and say what the record is, exactly in its forms. -/
theorem record?_iff {fields : List Field} {j : Json} :
    (∃ given, codec.record? (fields.map Field.name) j = some given ∧
      List.Forall₂ Field.Holds fields given) ↔ IsRecord fields j := by
  by_cases hobject : ∃ ms, j = .ofMembers ms
  · obtain ⟨ms, rfl⟩ := hobject
    rw [Json.isRecord_ofMembers_iff, ← Json.isObjectOf_iff]
    simp only [hcodec.record?_ofMembers]
  by_cases harray : ∃ vs, j = .array vs
  · obtain ⟨vs, rfl⟩ := harray
    rw [Json.isRecord_array_iff, ← Json.isArrayOf_iff]
    simp only [hcodec.record?_array, List.length_map, and_assoc, exists_and_left, exists_eq_left]
  · have hnone : codec.record? (fields.map Field.name) j = none :=
      hcodec.record?_other (fun ms h => hobject ⟨ms, h⟩) fun vs h => harray ⟨vs, h⟩
    rw [hnone]
    refine iff_of_false (by simp) ?_
    rintro (⟨ms, h, -⟩ | ⟨vs, h, -⟩)
    · exact hobject ⟨ms, h⟩
    · exact harray ⟨vs, h⟩

/-- All fields are found, with these values, exactly in the forms of the members. -/
theorem record?_eq_members_iff {members : List (String × Json)} {j : Json} :
    codec.record? (members.map Prod.fst) j = some (members.map fun m => some m.2) ↔
      IsForm members j := by
  have hholds : ∀ given,
      List.Forall₂ Field.Holds (members.map fun m => .exactly m.1 m.2) given ↔
        given = members.map fun m => some m.2 := by
    intro given
    have hone : (fun (m : String × Json) given => (Field.exactly m.1 m.2).Holds given) =
        fun m given => some m.2 = given := by
      funext m given
      cases given <;> simp [Field.Holds, Field.exactly, eq_comm]
    rw [List.forall₂_map_left_iff, hone, ← List.forall₂_map_left_iff, List.forall₂_eq_eq_eq,
      eq_comm]
  rw [← Json.isRecord_exactly_iff, ← hcodec.record?_iff]
  simp only [hholds, exists_eq_right, List.map_map]
  rfl

theorem field?_eq_some_iff {α : Type} {item? : Json → Option α} {tells : α → Json → Prop}
    {default a : α} {name : String} {given : Option Json}
    (htells : ∀ {j a}, item? j = some a ↔ tells a j) :
    codec.field? item? default given = some a ↔
      (Field.orDefault name tells default a).Holds given := by
  cases given with
  | none =>
    rw [hcodec.field?_none, Option.some.injEq]
    exact eq_comm
  | some v =>
    rw [hcodec.field?_some]
    exact htells

end Codec.Lawful

/-! ## 4. The plain codec -/

namespace Json

theorem natBelow?_eq_some_iff {bound n : Nat} {j : Json} :
    natBelow? bound j = some n ↔ n < bound ∧ j = ofNat n := by
  unfold natBelow? ofNat
  split
  next m =>
    constructor
    · intro h
      split at h
      next hlt =>
        cases h
        exact ⟨hlt, rfl⟩
      next => cases h
    · rintro ⟨hlt, heq⟩
      cases heq
      exact if_pos hlt
  next hne => exact iff_of_false nofun fun ⟨_, heq⟩ => hne n heq

/-- Reading every item of a list. -/
theorem mapM_eq_some_iff {β γ : Type} {f : β → Option γ} {l : List β} {l' : List γ} :
    l.mapM f = some l' ↔ List.Forall₂ (fun b c => f b = some c) l l' := by
  induction l generalizing l' with
  | nil => simp [eq_comm]
  | cons b l ih =>
    rw [List.mapM_cons, List.forall₂_cons_left_iff]
    simp only [bind, Option.bind_eq_some_iff, pure, Option.some.injEq, ih]
    constructor
    · rintro ⟨c, hc, l', hl, rfl⟩
      exact ⟨c, l', hc, hl, rfl⟩
    · rintro ⟨c, l', hc, hl, rfl⟩
      exact ⟨c, hc, l', hl, rfl⟩

theorem list?_eq_some_iff {α : Type} {item? : Json → Option α} {l : List α} {j : Json} :
    list? item? j = some l ↔
      ∃ vs, j = array vs ∧ List.Forall₂ (fun v a => item? v = some a) vs l := by
  unfold list?
  split
  next items => simp only [mapM_eq_some_iff, array.injEq, exists_eq_left']
  next hne => exact iff_of_false nofun fun ⟨vs, heq, _⟩ => hne vs heq

theorem vector?_eq_some_iff {α : Type} {item? : Json → Option α} {n : Nat} {v : Vector α n}
    {j : Json} : vector? n item? j = some v ↔ list? item? j = some v.toList := by
  unfold vector?
  rw [Option.bind_eq_some_iff]
  constructor
  · rintro ⟨l, hl, hv⟩
    split at hv
    next hlength =>
      cases hv
      exact hl
    next => cases hv
  · intro h
    exact ⟨_, h, dif_pos v.length_toList⟩

section Members

variable {ms : List (String × Json)} {names : List String} {given : List (Option Json)}

theorem member?_eq_some_iff {name : String} {given : Option Json} :
    member? ms name = some given ↔ Gives ms name given := by
  rw [gives_iff_filter]
  unfold member?
  split
  next heq =>
    rw [heq]
    cases given <;> simp
  next n v heq =>
    have hn : n = name := by
      have hmem : (n, v) ∈ ms.filter (·.1 == name) := heq ▸ List.mem_singleton_self _
      simpa using (List.mem_filter.1 hmem).2
    rw [heq, hn]
    cases given <;> simp
  next hne hne' =>
    refine iff_of_false nofun fun heq => ?_
    cases given with
    | none => exact hne heq
    | some v => exact hne' _ _ heq

theorem named?_eq_some_iff {members : List (Option String × Json)} :
    named? members = some ms ↔ object members = ofMembers ms := by
  unfold named? ofMembers
  rw [mapM_eq_some_iff, object.injEq]
  -- A member is named exactly if its name is an ordinary string.
  have hone : ∀ (m : Option String × Json) (m' : String × Json),
      m.1.map (·, m.2) = some m' ↔ m = (some m'.1, m'.2) := by
    rintro ⟨name, v⟩ ⟨name', v'⟩
    cases name <;> simp
  simp only [hone]
  rw [← List.forall₂_map_right_iff (f := fun m : String × Json => (some m.1, m.2)),
    List.forall₂_eq_eq_eq]

theorem record?_ofMembers_iff :
    record? names (ofMembers ms) = some given ↔ List.Forall₂ (Gives ms) names given := by
  show (named? _).bind (fun ms => names.mapM (member? ms)) = _ ↔ _
  rw [named?_eq_some_iff.2 rfl]
  simp only [Option.bind_some, mapM_eq_some_iff, member?_eq_some_iff]

theorem record?_array_iff {vs : List Json} :
    record? names (array vs) = some given ↔ vs.length ≤ names.length ∧
      given = vs.map some ++ List.replicate (names.length - vs.length) none := by
  show (if _ then _ else _) = _ ↔ _
  rw [Option.ite_none_right_eq_some, Option.some.injEq, eq_comm (b := given)]

theorem record?_eq_none {j : Json} (hobject : ∀ ms, j ≠ ofMembers ms) (harray : ∀ vs, j ≠ array vs) :
    record? names j = none := by
  cases j with
  | object members =>
    have hnamed : named? members = none :=
      Option.eq_none_iff_forall_ne_some.2 fun ms h => hobject ms (named?_eq_some_iff.1 h)
    show (named? members).bind _ = none
    rw [hnamed]
    rfl
  | array vs => exact absurd rfl (harray vs)
  | _ => rfl

end Members

end Json

theorem Codec.lawful_plain : Codec.plain.Lawful where
  write h := h.isText
  read? := by
    intro α item? text a
    show (Json.parse? text).bind item? = some a ↔ _
    simp only [Option.bind_eq_some_iff, Json.parse?_eq_some_iff]
  natBelow? := Json.natBelow?_eq_some_iff
  bool? := by
    intro b j
    cases j <;> simp [plain, Json.bool?]
  orNull?_null := rfl
  orNull?_of_ne := by
    intro α item? j h
    cases j with
    | null => exact absurd rfl h
    | _ => rfl
  list? := Json.list?_eq_some_iff
  vector? := Json.vector?_eq_some_iff
  record?_ofMembers := Json.record?_ofMembers_iff
  record?_array := Json.record?_array_iff
  record?_other := Json.record?_eq_none
  field?_none := rfl
  field?_some := rfl

end Handheld
