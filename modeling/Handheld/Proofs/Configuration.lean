import Handheld.Proofs.Json.Codec
import Handheld.Snapshot
import Mathlib.Logic.Relation

/-!
# Configuration texts

A configuration text says what differs from the standard: it may leave out any field that is as in
the standard one, in the configuration and again within its timing.  Order, unknown names and
defaults written out make no difference; a field given twice, a number out of range and anything
after the object make the text invalid.  All of this holds of any lawful codec.
-/

namespace Handheld

open Json (AreDefaults Encodes Field IsObjectOf IsRecord IsText Ordinary Restates)

variable {codec : Codec} (hcodec : codec.Lawful)

/-! ## 1. Frame timing -/

namespace FrameTiming

/-- The fields of this timing. -/
def fields (t : FrameTiming) : List Field :=
  [.orDefault "scanlines" (fun n j => j = .ofNat n.toNat) standard.scanlines t.scanlines,
    .orDefault "visible_scanlines" (fun n j => j = .ofNat n.toNat) standard.visibleScanlines
      t.visibleScanlines,
    .orDefault "cycles_per_frame" (fun n j => j = .ofNat n.toNat) standard.cyclesPerFrame
      t.cyclesPerFrame]

variable {t : FrameTiming} {j : Json}

include hcodec in
theorem ofJson?_eq_some_iff : ofJson? codec j = some t ↔ IsRecord t.fields j := by
  have hhalf : Encodes codec.half? _ := hcodec.encodes_half
  have hword : Encodes codec.word? _ := hcodec.encodes_word
  rw [← hcodec.record?_iff]
  show _ ↔ ∃ given, codec.record? fieldNames j = some given ∧
    List.Forall₂ Field.Holds t.fields given
  unfold ofJson?
  simp only [bind, Option.bind_eq_some_iff]
  refine exists_congr fun given => and_congr_right fun _ => ?_
  constructor
  · intro h
    split at h
    next scanlines visible cycles =>
      -- Each field is told by what is given for it, or is the default.
      simp only [Option.bind_eq_some_iff] at h
      obtain ⟨s, hs, v, hv, n, hn, h⟩ := h
      cases h
      exact .cons ((hcodec.field?_eq_some_iff hhalf).1 hs)
        (.cons ((hcodec.field?_eq_some_iff hhalf).1 hv)
          (.cons ((hcodec.field?_eq_some_iff hword).1 hn) .nil))
    next => cases h
  · rintro (_ | ⟨hs, _ | ⟨hv, _ | ⟨hn, _ | _⟩⟩⟩)
    simp only [Option.bind_eq_some_iff]
    exact ⟨_, (hcodec.field?_eq_some_iff hhalf).2 hs, _, (hcodec.field?_eq_some_iff hhalf).2 hv,
      _, (hcodec.field?_eq_some_iff hword).2 hn, rfl⟩

theorem areDefaults (t : FrameTiming) : AreDefaults standard.fields t.fields where
  nodup := show fieldNames.Nodup by decide
  each :=
    -- A value tells one number only, as it is read as one by some codec.
    have hcodec := Codec.lawful_plain
    .cons ⟨rfl, fun _ h => Field.orDefault_tells_iff hcodec.encodes_half h⟩
      (.cons ⟨rfl, fun _ h => Field.orDefault_tells_iff hcodec.encodes_half h⟩
        (.cons ⟨rfl, fun _ h => Field.orDefault_tells_iff hcodec.encodes_word h⟩ .nil))

theorem ordinary (t : FrameTiming) : Ordinary t.toJson := by
  refine .ofMembers ?_
  simp only [List.forall_mem_cons, List.not_mem_nil, false_implies, implies_true, and_true]
  exact ⟨.ofNat _, .ofNat _, .ofNat _⟩

theorem isRecord_toJson (t : FrameTiming) : IsRecord t.fields t.toJson := by
  refine .inl ⟨_, rfl, Json.isObjectOf_of_mem (show fieldNames.Nodup by decide) ?_⟩
  simp only [fields, List.forall_mem_cons, List.not_mem_nil, false_implies, implies_true, and_true]
  exact ⟨⟨_, .head _, rfl⟩, ⟨_, .tail _ (.head _), rfl⟩, ⟨_, .tail _ (.tail _ (.head _)), rfl⟩⟩

/-- How far the numbers of each field reach. -/
def bounds : List (String × Nat) :=
  [("scanlines", UInt16.size), ("visible_scanlines", UInt16.size),
    ("cycles_per_frame", UInt32.size)]

/-- No timing is told by this: a field comes twice in it, or the number of one is out of range. -/
inductive Invalid : Json → Prop where
  | twice {ts₁ ts₂ ts₃ : List (String × Json)} {name : String} {v v' : Json}
      (h : name ∈ fieldNames) :
      Invalid (.ofMembers (ts₁ ++ (name, v) :: (ts₂ ++ (name, v') :: ts₃)))
  | member {ts : List (String × Json)} {name : String} {bound : Nat} {v : Json}
      (hname : (name, bound) ∈ bounds) (hm : (name, v) ∈ ts) (hv : v.NotBelow bound) :
      Invalid (.ofMembers ts)
  | item {vs : List Json} {name : String} {bound i : Nat} {v : Json}
      (hname : bounds[i]? = some (name, bound)) (hm : vs[i]? = some v) (hv : v.NotBelow bound) :
      Invalid (.array vs)

/-- The field of a bound tells only numbers below it. -/
theorem exists_field (t : FrameTiming) {i : Nat} {name : String} {bound : Nat}
    (h : bounds[i]? = some (name, bound)) :
    ∃ f, t.fields[i]? = some f ∧ f.name = name ∧ ∀ v, f.tells v → ¬ v.NotBelow bound := by
  rcases i with _ | _ | _ | i
  · cases h
    exact ⟨_, rfl, rfl, fun _ hv => hv ▸ Json.NotBelow.ne_ofNat t.scanlines.toNat_lt⟩
  · cases h
    exact ⟨_, rfl, rfl, fun _ hv => hv ▸ Json.NotBelow.ne_ofNat t.visibleScanlines.toNat_lt⟩
  · cases h
    exact ⟨_, rfl, rfl, fun _ hv => hv ▸ Json.NotBelow.ne_ofNat t.cyclesPerFrame.toNat_lt⟩
  · cases h

theorem Invalid.not_isRecord (h : Invalid j) (t : FrameTiming) : ¬ IsRecord t.fields j := by
  cases h with
  | twice hname =>
    rw [Json.isRecord_ofMembers_iff]
    obtain ⟨f, hf, rfl⟩ := List.mem_map.1 (show _ ∈ t.fields.map Field.name from hname)
    exact Json.not_isObjectOf_of_twice hf
  | member hname hm hv =>
    rw [Json.isRecord_ofMembers_iff]
    intro h
    obtain ⟨i, hi⟩ := List.mem_iff_getElem?.1 hname
    obtain ⟨f, hf, rfl, htells⟩ := t.exists_field hi
    exact htells _ (h.tells (List.mem_of_getElem? hf) hm) hv
  | item hname hm hv =>
    rw [Json.isRecord_array_iff]
    intro h
    obtain ⟨f, hf, -, htells⟩ := t.exists_field hname
    exact htells _ (h.tells hf hm) hv

end FrameTiming

/-! ## 2. Configuration -/

include hcodec in
theorem encodes_image : Encodes (imageOfJson? codec) imageToJson := by
  intro j image
  have hlist : Encodes (codec.list? codec.byte?) _ := hcodec.encodes_list hcodec.encodes_byte
  unfold imageOfJson? imageToJson
  rw [Option.map_eq_some_iff]
  constructor
  · rintro ⟨bytes, hbytes, rfl⟩
    exact hlist.1 hbytes
  · intro h
    exact ⟨image.data.toList, hlist.2 h, rfl⟩

theorem ordinary_image (image : ByteArray) : Ordinary (imageToJson image) :=
  .array fun v hv => by
    obtain ⟨b, -, rfl⟩ := List.mem_map.1 hv
    exact .ofNat _

namespace Config

include hcodec in
theorem encodes_bios :
    Encodes (codec.orNull? (imageOfJson? codec)) fun o => (o.map imageToJson).getD .null :=
  hcodec.encodes_orNull (encodes_image hcodec) fun _ => nofun

include hcodec in
theorem encodes_entryPoint :
    Encodes (codec.orNull? codec.word?) fun o => (o.map fun a => .ofNat a.toNat).getD .null :=
  hcodec.encodes_orNull hcodec.encodes_word fun _ => nofun

/-- The fields of this configuration. -/
def fields (c : Config) : List Field :=
  [.orDefault "rom_data" (fun image j => j = imageToJson image) standard.rom c.rom,
    .orDefault "bios" (fun o j => j = (o.map imageToJson).getD .null) standard.bios c.bios,
    .orDefault "skip_bios" (fun b j => j = .bool b) standard.skipBios c.skipBios,
    .orDefault "entry_point" (fun o j => j = (o.map fun a => .ofNat a.toNat).getD .null)
      standard.entryPoint c.entryPoint,
    .orDefault "start_in_thumb" (fun b j => j = .bool b) standard.startInThumb c.startInThumb,
    .orDefault "timing" (fun t j => IsRecord t.fields j) standard.timing c.timing]

variable {c : Config} {j : Json}

include hcodec in
theorem ofJson?_eq_some_iff : ofJson? codec j = some c ↔ IsRecord c.fields j := by
  have himage : Encodes (imageOfJson? codec) _ := encodes_image hcodec
  have hbios : Encodes (codec.orNull? (imageOfJson? codec)) _ := encodes_bios hcodec
  have hbool : Encodes codec.bool? _ := hcodec.encodes_bool
  have hentry : Encodes (codec.orNull? codec.word?) _ := encodes_entryPoint hcodec
  rw [← hcodec.record?_iff]
  show _ ↔ ∃ given, codec.record? fieldNames j = some given ∧
    List.Forall₂ Field.Holds c.fields given
  unfold ofJson?
  simp only [bind, Option.bind_eq_some_iff]
  refine exists_congr fun given => and_congr_right fun _ => ?_
  constructor
  · intro h
    split at h
    next =>
      simp only [Option.bind_eq_some_iff] at h
      obtain ⟨rom, h₁, bios, h₂, skip, h₃, entry, h₄, thumb, h₅, t, h₆, h⟩ := h
      cases h
      exact .cons ((hcodec.field?_eq_some_iff himage).1 h₁)
        (.cons ((hcodec.field?_eq_some_iff hbios).1 h₂)
          (.cons ((hcodec.field?_eq_some_iff hbool).1 h₃)
            (.cons ((hcodec.field?_eq_some_iff hentry).1 h₄)
              (.cons ((hcodec.field?_eq_some_iff hbool).1 h₅)
                (.cons ((hcodec.field?_eq_some_iff (FrameTiming.ofJson?_eq_some_iff hcodec)).1 h₆)
                  .nil)))))
    next => cases h
  · rintro (_ | ⟨h₁, _ | ⟨h₂, _ | ⟨h₃, _ | ⟨h₄, _ | ⟨h₅, _ | ⟨h₆, _ | _⟩⟩⟩⟩⟩⟩)
    simp only [Option.bind_eq_some_iff]
    exact ⟨_, (hcodec.field?_eq_some_iff himage).2 h₁, _, (hcodec.field?_eq_some_iff hbios).2 h₂,
      _, (hcodec.field?_eq_some_iff hbool).2 h₃, _, (hcodec.field?_eq_some_iff hentry).2 h₄,
      _, (hcodec.field?_eq_some_iff hbool).2 h₅,
      _, (hcodec.field?_eq_some_iff (FrameTiming.ofJson?_eq_some_iff hcodec)).2 h₆, rfl⟩

theorem areDefaults (c : Config) : AreDefaults standard.fields c.fields where
  nodup := show fieldNames.Nodup by decide
  each :=
    have hcodec := Codec.lawful_plain
    .cons ⟨rfl, fun _ h => Field.orDefault_tells_iff (encodes_image hcodec) h⟩
      (.cons ⟨rfl, fun _ h => Field.orDefault_tells_iff (encodes_bios hcodec) h⟩
        (.cons ⟨rfl, fun _ h => Field.orDefault_tells_iff hcodec.encodes_bool h⟩
          (.cons ⟨rfl, fun _ h => Field.orDefault_tells_iff (encodes_entryPoint hcodec) h⟩
            (.cons ⟨rfl, fun _ h => Field.orDefault_tells_iff hcodec.encodes_bool h⟩
              (.cons ⟨rfl, fun _ h =>
                Field.orDefault_tells_iff (FrameTiming.ofJson?_eq_some_iff hcodec) h⟩ .nil)))))

theorem ordinary (c : Config) : Ordinary c.toJson := by
  refine .ofMembers ?_
  simp only [List.forall_mem_cons, List.not_mem_nil, false_implies, implies_true, and_true]
  refine ⟨ordinary_image _, ?_, .bool _, ?_, .bool _, c.timing.ordinary⟩
  · cases c.bios with
    | none => exact .null
    | some image => exact ordinary_image image
  · cases c.entryPoint with
    | none => exact .null
    | some a => exact .ofNat _

theorem isRecord_toJson (c : Config) : IsRecord c.fields c.toJson := by
  refine .inl ⟨_, rfl, Json.isObjectOf_of_mem (show fieldNames.Nodup by decide) ?_⟩
  simp only [fields, List.forall_mem_cons, List.not_mem_nil, false_implies, implies_true, and_true]
  exact ⟨⟨_, .head _, rfl⟩, ⟨_, .tail _ (.head _), rfl⟩, ⟨_, .tail _ (.tail _ (.head _)), rfl⟩,
    ⟨_, .tail _ (.tail _ (.tail _ (.head _))), rfl⟩,
    ⟨_, .tail _ (.tail _ (.tail _ (.tail _ (.head _)))), rfl⟩,
    ⟨_, .tail _ (.tail _ (.tail _ (.tail _ (.tail _ (.head _))))), c.timing.isRecord_toJson⟩⟩

section Texts

include hcodec

theorem read?_eq_some_iff {text : String} :
    read? codec text = some c ↔ ∃ j, IsText j text ∧ IsRecord c.fields j := by
  unfold read?
  simp only [hcodec.read?, ofJson?_eq_some_iff hcodec]

theorem read?_write (c : Config) : read? codec (c.write codec) = some c :=
  (read?_eq_some_iff hcodec).2 ⟨c.toJson, hcodec.write c.ordinary, c.isRecord_toJson⟩

/-! ## 3. Object texts -/

theorem read?_object_iff {ms : List (String × Json)} {text : String}
    (htext : IsText (.ofMembers ms) text) :
    read? codec text = some c ↔ IsObjectOf c.fields ms := by
  rw [read?_eq_some_iff hcodec, ← Json.isRecord_ofMembers_iff]
  constructor
  · rintro ⟨j, hj, h⟩
    exact hj.unique htext ▸ h
  · exact fun h => ⟨_, htext, h⟩

end Texts

/-- Two objects say the same: one restates the other, or the timing of one that of the other. -/
inductive Rewords : List (String × Json) → List (String × Json) → Prop where
  | restated {ms ms' : List (String × Json)} (h : Restates standard.fields ms ms') : Rewords ms ms'
  | retimed {ms₁ ms₂ ts ts' : List (String × Json)}
      (h : Restates FrameTiming.standard.fields ts ts') :
      Rewords (ms₁ ++ ("timing", .ofMembers ts) :: ms₂) (ms₁ ++ ("timing", .ofMembers ts') :: ms₂)

theorem Rewords.isObjectOf_iff {ms ms' : List (String × Json)} (h : Rewords ms ms') :
    IsObjectOf c.fields ms ↔ IsObjectOf c.fields ms' := by
  cases h with
  | restated h => exact h.isObjectOf_iff c.areDefaults
  -- The timing is told by both objects alike, and the other fields do not look at it.
  | @retimed _ _ ts ts' h =>
    have htells : IsRecord c.timing.fields (.ofMembers ts) ↔
        IsRecord c.timing.fields (.ofMembers ts') := by
      rw [Json.isRecord_ofMembers_iff, Json.isRecord_ofMembers_iff]
      exact h.isObjectOf_iff c.timing.areDefaults
    refine Json.isObjectOf_congr ?_
    simp only [fields, List.forall_mem_cons, Field.orDefault, List.not_mem_nil, false_implies,
      implies_true, and_true, String.reduceEq, true_and, forall_const]
    exact htells

theorem isObjectOf_iff_of_rewords {ms ms' : List (String × Json)}
    (h : Relation.ReflTransGen Rewords ms ms') :
    IsObjectOf c.fields ms ↔ IsObjectOf c.fields ms' := by
  induction h with
  | refl => rfl
  | tail _ hlast ih => exact ih.trans hlast.isObjectOf_iff

/-- A field comes twice, or there is a number that is out of range, or the timing is invalid. -/
inductive Invalid : List (String × Json) → Prop where
  | twice {ms₁ ms₂ ms₃ : List (String × Json)} {name : String} {v v' : Json}
      (h : name ∈ fieldNames) : Invalid (ms₁ ++ (name, v) :: (ms₂ ++ (name, v') :: ms₃))
  | image {ms : List (String × Json)} {name : String} {vs : List Json} {v : Json}
      (hname : name = "rom_data" ∨ name = "bios") (hm : (name, .array vs) ∈ ms) (hv : v ∈ vs)
      (h : v.NotBelow UInt8.size) : Invalid ms
  | entryPoint {ms : List (String × Json)} {v : Json} (hm : ("entry_point", v) ∈ ms)
      (h : v.NotBelow UInt32.size) : Invalid ms
  | timing {ms : List (String × Json)} {v : Json} (hm : ("timing", v) ∈ ms)
      (h : FrameTiming.Invalid v) : Invalid ms

theorem not_notBelow_of_mem_image {image : ByteArray} {vs : List Json}
    (himage : .array vs = imageToJson image) {v : Json} (hv : v ∈ vs) :
    ¬ v.NotBelow UInt8.size := by
  cases himage
  obtain ⟨b, -, rfl⟩ := List.mem_map.1 hv
  exact Json.NotBelow.ne_ofNat b.toNat_lt

theorem Invalid.not_isObjectOf {ms : List (String × Json)} (h : Invalid ms) (c : Config) :
    ¬ IsObjectOf c.fields ms := by
  intro hobject
  cases h with
  | twice hname =>
    obtain ⟨f, hf, rfl⟩ := List.mem_map.1 (show _ ∈ c.fields.map Field.name from hname)
    exact Json.not_isObjectOf_of_twice hf hobject
  | @image _ _ vs _ hname hm hv h =>
    rcases hname with rfl | rfl
    · exact not_notBelow_of_mem_image (hobject.tells (.head _) hm) hv h
    · have hbios : Json.array vs = (c.bios.map imageToJson).getD .null :=
        hobject.tells (.tail _ (.head _)) hm
      cases heq : c.bios with
      | none => rw [heq] at hbios; cases hbios
      | some image => exact not_notBelow_of_mem_image (heq ▸ hbios) hv h
  | entryPoint hm h =>
    have hentry : _ = (c.entryPoint.map fun a => Json.ofNat a.toNat).getD .null :=
      hobject.tells (.tail _ (.tail _ (.tail _ (.head _)))) hm
    subst hentry
    cases heq : c.entryPoint with
    | none =>
      rw [heq] at h
      obtain ⟨n, hn, -⟩ := h
      cases hn
    | some a =>
      rw [heq] at h
      exact Json.NotBelow.ne_ofNat a.toNat_lt h
  | timing hm h =>
    have htiming := hobject.tells (.tail _ (.tail _ (.tail _ (.tail _ (.tail _ (.head _)))))) hm
    exact h.not_isRecord c.timing htiming

/-- Through any lawful codec a text of an object says what differs from the standard, however it says
it; an invalid object and anything after the object are refused. -/
theorem read?_partial (codec : Codec) (hcodec : codec.Lawful) :
    (∀ (c : Config) (ms : List (String × Json)) (text : String), IsText (.ofMembers ms) text →
      (read? codec text = some c ↔ IsObjectOf c.fields ms)) ∧
    (∀ c : Config, read? codec (c.write codec) = some c) ∧
    (∀ (ms ms' : List (String × Json)) (text text' : String), IsText (.ofMembers ms) text →
      IsText (.ofMembers ms') text' → Relation.ReflTransGen Rewords ms ms' →
        read? codec text' = read? codec text) ∧
    (∀ (ms : List (String × Json)) (text : String), IsText (.ofMembers ms) text → Invalid ms →
      read? codec text = none) ∧
    (∀ (ms : List (String × Json)) (text rest : String), IsText (.ofMembers ms) text →
      ¬ Json.IsBlank rest.toList → read? codec (text ++ rest) = none) := by
  refine ⟨fun c ms text htext => read?_object_iff hcodec htext, read?_write hcodec,
    fun ms ms' text text' htext htext' h => ?_, fun ms text htext h => ?_,
    fun ms text rest htext hrest => ?_⟩
  · refine Option.ext fun c => ?_
    rw [read?_object_iff hcodec htext, read?_object_iff hcodec htext',
      isObjectOf_iff_of_rewords h]
  · refine Option.eq_none_iff_forall_not_mem.2 fun c hc => ?_
    exact h.not_isObjectOf c ((read?_object_iff hcodec htext).1 hc)
  · refine Option.eq_none_iff_forall_not_mem.2 fun c hc => ?_
    obtain ⟨j, hj, -⟩ := (read?_eq_some_iff hcodec).1 hc
    exact htext.not_isText_append hrest hj

theorem read?_partial_thumb :
    ofText? "\x7b\"start_in_thumb\":true\x7d" = some { standard with startInThumb := true } ∧
    ofText? "\x7b\"x\":[null],\"start_in_thumb\":true\x7d" =
      some { standard with startInThumb := true } ∧
    ofText? "\x7b\"entry_point\":4294967296\x7d" = none ∧
    ofText? ("\x7b\"start_in_thumb\":true\x7d" ++ "?") = none := by
  obtain ⟨hobject, -, hsame, hinvalid, hafter⟩ := read?_partial .plain Codec.lawful_plain
  have htext {ms : List (String × Json)} {text : String} (hms : ∀ m ∈ ms, Ordinary m.2)
      (h : (Json.ofMembers ms).toText = text) : IsText (.ofMembers ms) text :=
    h ▸ (Ordinary.ofMembers hms).isText
  have hlist : Ordinary (.array [.null]) := .array (by simp [Ordinary.null])
  have hshort : IsText (.ofMembers [("start_in_thumb", .bool true)])
      "\x7b\"start_in_thumb\":true\x7d" :=
    htext (by simp [Ordinary.bool]) (by decide +kernel)
  have hlong : IsText (.ofMembers [("x", .array [.null]), ("start_in_thumb", .bool true)])
      "\x7b\"x\":[null],\"start_in_thumb\":true\x7d" :=
    htext (by simp [Ordinary.bool, hlist]) (by decide +kernel)
  have hlarge : IsText (.ofMembers [("entry_point", .ofNat 4294967296)])
      "\x7b\"entry_point\":4294967296\x7d" :=
    htext (by simp [Ordinary.ofNat]) (by decide +kernel)
  have hrange : (Json.ofNat 4294967296).NotBelow UInt32.size := by
    refine ⟨_, rfl, fun k hk heq => ?_⟩
    cases heq
    exact absurd hk (by decide)
  have hread : ofText? "\x7b\"start_in_thumb\":true\x7d" =
      some { standard with startInThumb := true } := by
    refine (hobject _ _ _ hshort).2 ?_
    simp only [IsObjectOf, fields, List.forall_mem_cons, List.not_mem_nil, false_implies,
      implies_true, and_true]
    refine ⟨⟨none, ?_, rfl⟩, ⟨none, ?_, rfl⟩, ⟨none, ?_, rfl⟩, ⟨none, ?_, rfl⟩,
      ⟨some (.bool true), ⟨[], [], rfl, nofun, nofun⟩, rfl⟩, ⟨none, ?_, rfl⟩⟩
    all_goals
      intro m hm
      cases List.mem_singleton.1 hm
      decide
  have hadded : Restates standard.fields ([] ++ [("start_in_thumb", .bool true)])
      ([] ++ ("x", .array [.null]) :: [("start_in_thumb", .bool true)]) := .unknown (by decide)
  refine ⟨hread, ?_, ?_, ?_⟩
  · rw [← hread]
    exact hsame _ _ _ _ hshort hlong (.single (.restated hadded))
  · exact hinvalid _ _ hlarge (.entryPoint (.head _) hrange)
  · exact hafter _ _ _ hshort fun hblank => absurd (hblank '?' (by decide)) (by decide)

end Config

end Handheld
