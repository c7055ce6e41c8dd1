import Handheld.Json
import Mathlib.Data.List.Forall2

/-!
# The forms of a record

A record is an object that names each of its fields at most once, with any other names besides, or
the array of its fields in order.  `Field` says of one field which values stand for it and whether
it may be left out, and `IsRecord` is the form of the whole.
-/

namespace Handheld.Json

/-! ## 1. Numbers and members -/

/-- A number, but not one of those below the bound. -/
def NotBelow (bound : Nat) (j : Json) : Prop := ∃ n, j = number n ∧ ∀ k < bound, n ≠ .natural k

theorem NotBelow.ne_ofNat {bound n : Nat} (hn : n < bound) : ¬ NotBelow bound (ofNat n) := by
  rintro ⟨m, heq, hne⟩
  exact hne n hn (number.inj heq).symm

/-- The members give this value to the name and no second one, or none at all. -/
def Gives (ms : List (String × Json)) (name : String) : Option Json → Prop
  | none => ∀ m ∈ ms, m.1 ≠ name
  | some v => ∃ before after, ms = before ++ (name, v) :: after ∧
      (∀ m ∈ before, m.1 ≠ name) ∧ ∀ m ∈ after, m.1 ≠ name

section Members

variable {ms ms' ms₁ ms₂ : List (String × Json)} {name : String} {v : Json} {given : Option Json}

theorem filter_eq_nil_of_ne (h : ∀ m ∈ ms, m.1 ≠ name) : ms.filter (·.1 == name) = [] :=
  List.filter_eq_nil_iff.2 fun m hm => by simpa using h m hm

/-- The members of a name, all together. -/
theorem gives_iff_filter :
    Gives ms name given ↔ ms.filter (·.1 == name) = given.toList.map (name, ·) := by
  cases given with
  | none => simp [Gives, List.filter_eq_nil_iff]
  | some v =>
    show (∃ before after, _) ↔ ms.filter (·.1 == name) = [(name, v)]
    rw [List.filter_eq_cons_iff]
    constructor
    · rintro ⟨before, after, rfl, hbefore, hafter⟩
      exact ⟨before, after, rfl, fun m hm => by simpa using hbefore m hm, by simp,
        filter_eq_nil_of_ne hafter⟩
    · rintro ⟨before, after, rfl, hbefore, -, hafter⟩
      rw [List.filter_eq_nil_iff] at hafter
      exact ⟨before, after, rfl, fun m hm => by simpa using hbefore m hm,
        fun m hm => by simpa using hafter m hm⟩

theorem Gives.unique {given' : Option Json} (h : Gives ms name given) (h' : Gives ms name given') :
    given = given' := by
  have heq := (gives_iff_filter.1 h).symm.trans (gives_iff_filter.1 h')
  have hpair : Function.Injective fun v : Json => (name, v) := fun _ _ h => (Prod.mk.inj h).2
  have hlist := hpair.list_map heq
  rw [← Option.head?_toList (o := given), hlist, Option.head?_toList]

theorem Gives.eq_of_mem (h : Gives ms name given) (hm : (name, v) ∈ ms) : given = some v := by
  have hmem : (name, v) ∈ ms.filter (·.1 == name) := List.mem_filter.2 ⟨hm, by simp⟩
  rw [gives_iff_filter.1 h] at hmem
  cases given with
  | none => cases hmem
  | some w =>
    cases List.mem_singleton.1 hmem
    rfl

/-- Members whose names differ give each its value. -/
theorem gives_of_mem (hnodup : (ms.map Prod.fst).Nodup) (hm : (name, v) ∈ ms) :
    Gives ms name (some v) := by
  obtain ⟨before, after, rfl⟩ := List.append_of_mem hm
  simp only [List.map_append, List.map_cons, List.nodup_append, List.nodup_cons] at hnodup
  obtain ⟨-, ⟨hafter, -⟩, hbefore⟩ := hnodup
  refine ⟨before, after, rfl, fun m hm heq => ?_, fun m hm heq => ?_⟩
  · exact hbefore m.1 (List.mem_map_of_mem hm) name List.mem_cons_self heq
  · exact hafter (heq ▸ List.mem_map_of_mem hm)

/-- The order of the members does not matter. -/
theorem gives_perm (h : ms.Perm ms') : Gives ms name given ↔ Gives ms' name given := by
  rw [gives_iff_filter, gives_iff_filter]
  have hfilter := h.filter (·.1 == name)
  cases given with
  | none =>
    show _ = [] ↔ _ = []
    exact ⟨fun heq => (heq ▸ hfilter).nil_eq.symm, fun heq => (heq ▸ hfilter).eq_nil⟩
  | some v =>
    show _ = [_] ↔ _ = [_]
    exact ⟨fun heq => List.perm_singleton.1 (heq ▸ hfilter.symm),
      fun heq => List.perm_singleton.1 (heq ▸ hfilter)⟩

/-- Nor does a member of another name. -/
theorem gives_insert_of_ne {other : String} (h : other ≠ name) :
    Gives (ms₁ ++ (other, v) :: ms₂) name given ↔ Gives (ms₁ ++ ms₂) name given := by
  rw [gives_iff_filter, gives_iff_filter, List.filter_append, List.filter_append,
    List.filter_cons_of_neg (by simpa using h)]

/-- A member is all there is of its name, or there is a second one. -/
theorem gives_middle : Gives (ms₁ ++ (name, v) :: ms₂) name given ↔
    given = some v ∧ Gives (ms₁ ++ ms₂) name none := by
  constructor
  · intro h
    obtain rfl := h.eq_of_mem (List.mem_append_right ms₁ List.mem_cons_self)
    refine ⟨rfl, ?_⟩
    -- All members of the name together are one, so there is none before it and none after.
    have hlength := congrArg List.length (gives_iff_filter.1 h)
    rw [List.filter_append, List.filter_cons_of_pos (by simp), List.length_append,
      List.length_cons] at hlength
    rw [gives_iff_filter, List.filter_append]
    refine List.eq_nil_of_length_eq_zero ?_
    simp only [Option.toList_some, List.map_cons, List.map_nil, List.length_cons,
      List.length_nil] at hlength
    rw [List.length_append]
    omega
  · rintro ⟨rfl, h⟩
    exact ⟨ms₁, ms₂, rfl, fun m hm => h m (List.mem_append_left _ hm),
      fun m hm => h m (List.mem_append_right _ hm)⟩

/-- A name that comes twice is given nothing. -/
theorem not_gives_of_twice {v' : Json} {ms₃ : List (String × Json)} :
    ¬ Gives (ms₁ ++ (name, v) :: (ms₂ ++ (name, v') :: ms₃)) name given := fun h =>
  (gives_middle.1 h).2 (name, v') (by simp) rfl

end Members

/-! ## 2. Records -/

/-- A field of one particular record: its name, the values that say what it is, and whether it is
such that it may be left out. -/
structure Field where
  name : String
  tells : Json → Prop
  optional : Prop

namespace Field

/-- What is given for the field, if anything, says what it is. -/
def Holds (f : Field) : Option Json → Prop
  | some v => f.tells v
  | none => f.optional

/-- A field that must be given, as this value. -/
def exactly (name : String) (v : Json) : Field := ⟨name, (· = v), False⟩

/-- A field that may be left out if it is the default. -/
def orDefault {α : Type} (name : String) (tells : α → Json → Prop) (default a : α) : Field :=
  ⟨name, tells a, a = default⟩

end Field

/-- The object gives each field at most once, and what it gives or leaves out is right. -/
def IsObjectOf (fields : List Field) (ms : List (String × Json)) : Prop :=
  ∀ f ∈ fields, ∃ given, Gives ms f.name given ∧ f.Holds given

/-- The array is that of the fields in order, of which the last ones may be left out. -/
def IsArrayOf : List Field → List Json → Prop
  | [], vs => vs = []
  | f :: fs, [] => f.optional ∧ IsArrayOf fs []
  | f :: fs, v :: vs => f.tells v ∧ IsArrayOf fs vs

def IsRecord (fields : List Field) (j : Json) : Prop :=
  (∃ ms, j = ofMembers ms ∧ IsObjectOf fields ms) ∨ ∃ vs, j = array vs ∧ IsArrayOf fields vs

section Records

variable {fields : List Field} {ms : List (String × Json)}

theorem isObjectOf_iff :
    (∃ given, List.Forall₂ (Gives ms) (fields.map Field.name) given ∧
        List.Forall₂ Field.Holds fields given) ↔ IsObjectOf fields ms := by
  simp only [List.forall₂_map_left_iff]
  unfold IsObjectOf
  induction fields with
  | nil => simp
  | cons f fs ih =>
    rw [List.forall_mem_cons, ← ih]
    constructor
    · rintro ⟨vs, hgives, hholds⟩
      cases hgives with
      | cons hgive hgives =>
        cases hholds with
        | cons hhold hholds => exact ⟨⟨_, hgive, hhold⟩, _, hgives, hholds⟩
    · rintro ⟨⟨v, hgive, hhold⟩, vs, hgives, hholds⟩
      exact ⟨v :: vs, .cons hgive hgives, .cons hhold hholds⟩

theorem isArrayOf_iff {vs : List Json} :
    (vs.length ≤ fields.length ∧ List.Forall₂ Field.Holds fields
      (vs.map some ++ List.replicate (fields.length - vs.length) none)) ↔ IsArrayOf fields vs := by
  induction fields generalizing vs with
  | nil => cases vs <;> simp [IsArrayOf]
  | cons f fs ih =>
    cases vs with
    | nil =>
      -- The fields that are missing at the end are read as those of an empty array.
      have hnil := @ih []
      simp only [List.length_nil, List.map_nil, List.nil_append, Nat.sub_zero, Nat.zero_le,
        true_and] at hnil
      simp only [List.length_nil, List.map_nil, List.nil_append, Nat.sub_zero, Nat.zero_le,
        true_and, List.length_cons, List.replicate_succ, List.forall₂_cons, hnil]
      rfl
    | cons v vs =>
      simp only [List.length_cons, List.map_cons, List.cons_append, List.forall₂_cons,
        Nat.add_sub_add_right, Nat.add_le_add_iff_right]
      rw [and_left_comm, ih]
      rfl

/-- The object gives each of these members and no second one of its name, or the array is that of
their values. -/
def IsForm (members : List (String × Json)) (j : Json) : Prop :=
  (∃ ms, j = ofMembers ms ∧ ∀ m ∈ members, Gives ms m.1 (some m.2)) ∨
    j = array (members.map Prod.snd)

theorem isForm_ofMembers (hnodup : (ms.map Prod.fst).Nodup) : IsForm ms (ofMembers ms) :=
  .inl ⟨ms, rfl, fun _ hm => gives_of_mem hnodup hm⟩

theorem isArrayOf_exactly_iff {members : List (String × Json)} {vs : List Json} :
    IsArrayOf (members.map fun m => .exactly m.1 m.2) vs ↔ vs = members.map Prod.snd := by
  induction members generalizing vs with
  | nil => rfl
  | cons m members ih =>
    cases vs with
    | nil => simp [IsArrayOf, Field.exactly]
    | cons v vs =>
      rw [List.map_cons, List.map_cons, List.cons.injEq, ← ih]
      rfl

theorem isRecord_exactly_iff {members : List (String × Json)} {j : Json} :
    IsRecord (members.map fun m => .exactly m.1 m.2) j ↔ IsForm members j := by
  have hobject : ∀ ms, IsObjectOf (members.map fun m => .exactly m.1 m.2) ms ↔
      ∀ m ∈ members, Gives ms m.1 (some m.2) := by
    intro ms
    unfold IsObjectOf
    rw [List.forall_mem_map]
    refine forall₂_congr fun m _ => ⟨?_, fun h => ⟨_, h, rfl⟩⟩
    rintro ⟨given, h, hholds⟩
    cases given with
    | none => exact hholds.elim
    | some v =>
      cases (hholds : v = m.2)
      exact h
  unfold IsRecord IsForm
  simp only [hobject, isArrayOf_exactly_iff, exists_eq_right]

theorem ofMembers_injective {ms ms' : List (String × Json)} (h : ofMembers ms = ofMembers ms') :
    ms = ms' := by
  refine List.map_injective_iff.2 ?_ (object.inj h)
  rintro ⟨name, v⟩ ⟨name', v'⟩ heq
  simpa using heq

theorem isRecord_ofMembers_iff : IsRecord fields (ofMembers ms) ↔ IsObjectOf fields ms := by
  constructor
  · rintro (⟨ms', heq, h⟩ | ⟨vs, heq, -⟩)
    · exact ofMembers_injective heq ▸ h
    · cases heq
  · exact fun h => .inl ⟨ms, rfl, h⟩

theorem IsArrayOf.tells {vs : List Json} (h : IsArrayOf fields vs) {i : Nat} {f : Field} {v : Json}
    (hf : fields[i]? = some f) (hv : vs[i]? = some v) : f.tells v := by
  induction fields generalizing vs i with
  | nil => cases hf
  | cons f' fs ih =>
    cases vs with
    | nil => cases hv
    | cons v' vs =>
      cases i with
      | zero =>
        cases hf
        cases hv
        exact h.1
      | succ i => exact ih h.2 hf hv

theorem isRecord_array_iff {vs : List Json} : IsRecord fields (array vs) ↔ IsArrayOf fields vs := by
  constructor
  · rintro (⟨ms, heq, -⟩ | ⟨vs', heq, h⟩)
    · cases heq
    · exact array.inj heq ▸ h
  · exact fun h => .inr ⟨vs, rfl, h⟩

/-- Two values that tell the same may stand for each other. -/
theorem isObjectOf_congr {ms₁ ms₂ : List (String × Json)} {name : String} {v v' : Json}
    (h : ∀ f ∈ fields, f.name = name → (f.tells v ↔ f.tells v')) :
    IsObjectOf fields (ms₁ ++ (name, v) :: ms₂) ↔ IsObjectOf fields (ms₁ ++ (name, v') :: ms₂) := by
  unfold IsObjectOf
  refine forall₂_congr fun f hf => ?_
  by_cases hname : name = f.name
  · subst hname
    simp only [gives_middle, and_assoc, exists_eq_left]
    exact and_congr_right fun _ => h f hf rfl
  · simp only [gives_insert_of_ne hname]

theorem IsObjectOf.tells {f : Field} {v : Json} (h : IsObjectOf fields ms) (hf : f ∈ fields)
    (hm : (f.name, v) ∈ ms) : f.tells v := by
  obtain ⟨given, hgiven, hholds⟩ := h f hf
  cases hgiven.eq_of_mem hm
  exact hholds

theorem isObjectOf_of_mem (hnodup : (ms.map Prod.fst).Nodup)
    (h : ∀ f ∈ fields, ∃ v, (f.name, v) ∈ ms ∧ f.tells v) : IsObjectOf fields ms := fun f hf =>
  let ⟨v, hm, hv⟩ := h f hf
  ⟨some v, gives_of_mem hnodup hm, hv⟩

theorem not_isObjectOf_of_twice {f : Field} (hf : f ∈ fields) {ms₁ ms₂ ms₃ : List (String × Json)}
    {v v' : Json} :
    ¬ IsObjectOf fields (ms₁ ++ (f.name, v) :: (ms₂ ++ (f.name, v') :: ms₃)) := fun h =>
  let ⟨_, hgiven, _⟩ := h f hf
  not_gives_of_twice hgiven

end Records

/-! ## 3. Fields with a default -/

section Defaults

variable {α : Type} {item? : Json → Option α} {tells : α → Json → Prop} {default a : α}
  {name : String}

/-- To write the default out is to leave the field away. -/
theorem Field.orDefault_tells_iff (htells : ∀ {j a}, item? j = some a ↔ tells a j) {v : Json}
    (h : tells default v) :
    (Field.orDefault name tells default a).tells v ↔
      (Field.orDefault name tells default a).optional := by
  constructor
  · intro ha
    exact Option.some.inj ((htells.2 ha).symm.trans (htells.2 h))
  · rintro rfl
    exact h

/-- The other object says the same of a record with these defaults: it has one more member, of a
name that is no field or a default written out, or the same members in another order. -/
inductive Restates (defaults : List Field) :
    List (String × Json) → List (String × Json) → Prop where
  | unknown {ms₁ ms₂ : List (String × Json)} {name : String} {v : Json}
      (h : name ∉ defaults.map Field.name) :
      Restates defaults (ms₁ ++ ms₂) (ms₁ ++ (name, v) :: ms₂)
  | permuted {ms ms' : List (String × Json)} (h : ms.Perm ms') : Restates defaults ms ms'
  | spelledOut {ms₁ ms₂ : List (String × Json)} {f : Field} {v : Json} (hf : f ∈ defaults)
      (hnone : Gives (ms₁ ++ ms₂) f.name none) (hv : f.tells v) :
      Restates defaults (ms₁ ++ ms₂) (ms₁ ++ (f.name, v) :: ms₂)

/-- These are the defaults of the fields: the same names, and to write a default out is to leave the
field away. -/
structure AreDefaults (defaults fields : List Field) : Prop where
  nodup : (fields.map Field.name).Nodup
  each : List.Forall₂
    (fun g f => g.name = f.name ∧ ∀ v, g.tells v → (f.tells v ↔ f.optional)) defaults fields

namespace AreDefaults

variable {defaults fields : List Field}

theorem names (h : AreDefaults defaults fields) :
    fields.map Field.name = defaults.map Field.name := by
  have hnames : List.Forall₂ Eq (defaults.map Field.name) (fields.map Field.name) :=
    List.forall₂_map_left_iff.2 (List.forall₂_map_right_iff.2 (h.each.imp fun _ _ h => h.1))
  rw [List.forall₂_eq_eq_eq] at hnames
  exact hnames.symm

theorem tells_iff (h : AreDefaults defaults fields) {f g : Field} (hf : f ∈ fields)
    (hg : g ∈ defaults) (hname : g.name = f.name) {v : Json} (hv : g.tells v) :
    f.tells v ↔ f.optional := by
  obtain ⟨hnodup, heach⟩ := h
  induction heach with
  | nil => cases hf
  | @cons g' f' gs fs hhead htail ih =>
    -- Of equal names both fields are the first ones or neither is.
    rw [List.map_cons, List.nodup_cons] at hnodup
    have hnames : fs.map Field.name = gs.map Field.name := names ⟨hnodup.2, htail⟩
    rcases List.mem_cons.1 hf with rfl | hf <;> rcases List.mem_cons.1 hg with rfl | hg
    · exact hhead.2 v hv
    · exact absurd (hname ▸ hnames ▸ List.mem_map_of_mem hg) hnodup.1
    · exact absurd (hhead.1 ▸ hname ▸ List.mem_map_of_mem hf) hnodup.1
    · exact ih hf hg hnodup.2

end AreDefaults

theorem Restates.isObjectOf_iff {defaults fields : List Field} {ms ms' : List (String × Json)}
    (h : Restates defaults ms ms') (hdefaults : AreDefaults defaults fields) :
    IsObjectOf fields ms ↔ IsObjectOf fields ms' := by
  unfold IsObjectOf
  refine forall₂_congr fun f hf => ?_
  cases h with
  | unknown hname =>
    refine exists_congr fun given => and_congr_left fun _ => (gives_insert_of_ne ?_).symm
    rintro rfl
    exact hname (hdefaults.names ▸ List.mem_map_of_mem hf)
  | permuted hperm => exact exists_congr fun given => and_congr_left fun _ => gives_perm hperm
  -- Only the field that is written out can tell the two objects apart.
  | @spelledOut ms₁ ms₂ g v hg hnone hv =>
    by_cases hname : g.name = f.name
    · have hiff := hdefaults.tells_iff hf hg hname hv
      rw [hname] at hnone ⊢
      have hsome : Gives (ms₁ ++ (f.name, v) :: ms₂) f.name (some v) :=
        gives_middle.2 ⟨rfl, hnone⟩
      constructor
      · rintro ⟨given, hgiven, hholds⟩
        cases hgiven.unique hnone
        exact ⟨some v, hsome, hiff.2 hholds⟩
      · rintro ⟨given, hgiven, hholds⟩
        cases hgiven.unique hsome
        exact ⟨none, hnone, hiff.1 hholds⟩
    · exact exists_congr fun given => and_congr_left fun _ => (gives_insert_of_ne hname).symm

end Defaults

end Handheld.Json
