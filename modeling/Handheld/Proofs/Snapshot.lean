import Handheld.Memory
import Handheld.Proofs.Json.Codec
import Handheld.Proofs.Steps
import Handheld.Snapshot

/-!
# Saving and restoring

A snapshot of the processor or of the interrupt controller is a text of all its fields.  Through any
lawful codec, what is saved is restored; a text restores a state only if it gives each field that
state's value; and a run that is taken up from a snapshot is the run that was not interrupted.
-/

namespace Handheld

open Json (Encodes IsForm IsText Ordinary)

variable {codec : Codec} (hcodec : codec.Lawful)

/-! ## 1. Processor -/

namespace StackLink

theorem ordinary (p : StackLink) : Ordinary p.toJson :=
  .array fun v hv => by
    rcases List.mem_pair.1 hv with rfl | rfl <;> exact .ofNat _

include hcodec in
theorem encodes : Encodes (ofJson? codec) toJson := by
  intro j p
  have hlist : Encodes (codec.list? codec.word?) _ := hcodec.encodes_list hcodec.encodes_word
  unfold ofJson? toJson
  constructor
  · intro h
    split at h
    next sp lr hwords =>
      cases h
      exact hlist.1 hwords
    next => cases h
  · intro h
    rw [show codec.list? codec.word? j = some [p.sp, p.lr] from hlist.2 h]

end StackLink

namespace Cpu

/-- The fields of a snapshot and what they are in this one. -/
def members (c : Cpu) : List (String × Json) :=
  [("r", .ofVector (fun w => .ofNat w.toNat) c.live), ("cpsr", .ofNat c.cpsr.bits.toNat),
    ("spsr", .ofVector (fun w => .ofNat w.toNat) c.saved),
    ("banked", .ofVector StackLink.toJson c.banked), ("cycles", .ofNat c.cycles.count.toNat)]

theorem toJson_eq (c : Cpu) : c.toJson = .ofMembers c.members := rfl

theorem ordinary (c : Cpu) : Ordinary c.toJson := by
  rw [toJson_eq]
  refine .ofMembers ?_
  simp only [members, List.forall_mem_cons, List.not_mem_nil, false_implies, implies_true, and_true]
  exact ⟨.ofVector (fun _ => .ofNat _) _, .ofNat _, .ofVector (fun _ => .ofNat _) _,
    .ofVector StackLink.ordinary _, .ofNat _⟩

include hcodec

theorem ofJson?_eq_some_iff {j : Json} {c : Cpu} :
    ofJson? codec j = some c ↔ IsForm c.members j := by
  have hwords (n : Nat) : Encodes (codec.vector? n codec.word?) _ :=
    hcodec.encodes_vector hcodec.encodes_word n
  have hlinks : Encodes (codec.vector? 6 (StackLink.ofJson? codec)) _ :=
    hcodec.encodes_vector (StackLink.encodes hcodec) 6
  rw [← hcodec.record?_eq_members_iff]
  show _ ↔ codec.record? fieldNames j = _
  unfold ofJson?
  simp only [bind, Option.bind_eq_some_iff]
  constructor
  · rintro ⟨given, hgiven, h⟩
    rw [hgiven]
    split at h
    next r cpsr spsr banked cycles =>
      -- What each field is read as is what its value was written from.
      simp only [Option.bind_eq_some_iff] at h
      obtain ⟨live, hlive, bits, hbits, saved, hsaved, pairs, hpairs, count, hcount, h⟩ := h
      cases h
      rw [(hwords 16).1 hlive, hcodec.encodes_word.1 hbits, (hwords 5).1 hsaved, hlinks.1 hpairs,
        hcodec.encodes_long.1 hcount]
      rfl
    next => cases h
  · intro h
    refine ⟨_, h, ?_⟩
    simp only [members, List.map_cons, List.map_nil, Option.bind_eq_some_iff]
    exact ⟨_, (hwords 16).2 rfl, _, hcodec.encodes_word.2 rfl, _, (hwords 5).2 rfl,
      _, hlinks.2 rfl, _, hcodec.encodes_long.2 rfl, rfl⟩

theorem read?_eq_some_iff {text : String} {c : Cpu} :
    read? codec text = some c ↔ ∃ j, IsText j text ∧ IsForm c.members j := by
  unfold read?
  simp only [hcodec.read?, ofJson?_eq_some_iff hcodec]

theorem read?_write (c : Cpu) : read? codec (c.write codec) = some c :=
  have hnames : fieldNames.Nodup := by decide
  (read?_eq_some_iff hcodec).2 ⟨c.toJson, hcodec.write c.ordinary, Json.isForm_ofMembers hnames⟩

end Cpu

/-! ## 2. Interrupt controller -/

namespace InterruptController

def members (ic : InterruptController) : List (String × Json) :=
  [("enable", .ofNat ic.enable.toNat), ("flags", .ofNat ic.flags.toNat),
    ("master", .ofNat ic.master.toNat)]

theorem toJson_eq (ic : InterruptController) : ic.toJson = .ofMembers ic.members := rfl

theorem ordinary (ic : InterruptController) : Ordinary ic.toJson := by
  rw [toJson_eq]
  refine .ofMembers ?_
  simp only [members, List.forall_mem_cons, List.not_mem_nil, false_implies, implies_true, and_true]
  exact ⟨.ofNat _, .ofNat _, .ofNat _⟩

include hcodec

theorem ofJson?_eq_some_iff {j : Json} {ic : InterruptController} :
    ofJson? codec j = some ic ↔ IsForm ic.members j := by
  have hhalf : Encodes codec.half? _ := hcodec.encodes_half
  rw [← hcodec.record?_eq_members_iff]
  show _ ↔ codec.record? fieldNames j = _
  unfold ofJson?
  simp only [bind, Option.bind_eq_some_iff]
  constructor
  · rintro ⟨given, hgiven, h⟩
    rw [hgiven]
    split at h
    next enable flags master =>
      simp only [Option.bind_eq_some_iff] at h
      obtain ⟨e, henable, f, hflags, m, hmaster, h⟩ := h
      cases h
      rw [hhalf.1 henable, hhalf.1 hflags, hhalf.1 hmaster]
      rfl
    next => cases h
  · intro h
    refine ⟨_, h, ?_⟩
    simp only [members, List.map_cons, List.map_nil, Option.bind_eq_some_iff]
    exact ⟨_, hhalf.2 rfl, _, hhalf.2 rfl, _, hhalf.2 rfl, rfl⟩

theorem read?_eq_some_iff {text : String} {ic : InterruptController} :
    read? codec text = some ic ↔ ∃ j, IsText j text ∧ IsForm ic.members j := by
  unfold read?
  simp only [hcodec.read?, ofJson?_eq_some_iff hcodec]

theorem read?_write (ic : InterruptController) : read? codec (ic.write codec) = some ic :=
  have hnames : fieldNames.Nodup := by decide
  (read?_eq_some_iff hcodec).2
    ⟨ic.toJson, hcodec.write ic.ordinary, Json.isForm_ofMembers hnames⟩

end InterruptController

/-! ## 3. A run taken up again -/

/-- The texts of a processor and an interrupt controller. -/
structure Snapshot where
  cpu : String
  interrupts : String

namespace Snapshot

def take (codec : Codec) (c : Cpu) (m : Memory) : Snapshot :=
  ⟨c.write codec, m.interrupts.write codec⟩

/-- The processor of a snapshot, and the memory with the interrupt controller of the snapshot. -/
def restore? (codec : Codec) (s : Snapshot) (m : Memory) : Option (Cpu × Memory) := do
  let c ← Cpu.read? codec s.cpu
  let ic ← InterruptController.read? codec s.interrupts
  return (c, { m with interrupts := ic })

/-- Whatever has become of the interrupt controller meanwhile. -/
theorem restore?_take {codec : Codec} (hcodec : codec.Lawful) (c : Cpu) (m : Memory)
    (ic : InterruptController) :
    (take codec c m).restore? codec { m with interrupts := ic } = some (c, m) := by
  unfold take restore?
  dsimp only
  rw [Cpu.read?_write hcodec, InterruptController.read?_write hcodec]
  rfl

/-- Through any lawful codec a snapshot gives back the state it was taken of, no other text is taken
for one, and a run goes on from it as if it had not stopped. -/
theorem round_trip (codec : Codec) (hcodec : codec.Lawful) :
    (∀ c : Cpu, Cpu.read? codec (c.write codec) = some c) ∧
    (∀ ic : InterruptController, InterruptController.read? codec (ic.write codec) = some ic) ∧
    (∀ (c : Cpu) (text : String),
      Cpu.read? codec text = some c ↔ ∃ j, IsText j text ∧ IsForm c.members j) ∧
    (∀ (ic : InterruptController) (text : String),
      InterruptController.read? codec text = some ic ↔
        ∃ j, IsText j text ∧ IsForm ic.members j) ∧
    (∀ (β : Type) [Bus β] (c : Cpu) (bus : β) (n : Nat),
      ∃ restored, Cpu.read? codec ((Cpu.steps n c bus).2.1.write codec) = some restored ∧
        ∀ k, Cpu.steps (n + k) c bus =
          ((Cpu.steps n c bus).1 + (Cpu.steps k restored (Cpu.steps n c bus).2.2).1,
            (Cpu.steps k restored (Cpu.steps n c bus).2.2).2)) ∧
    (∀ (c : Cpu) (m : Memory) (ic : InterruptController) (n : Nat),
      ∃ c' m', (take codec (Cpu.steps n c m).2.1 (Cpu.steps n c m).2.2).restore? codec
          { (Cpu.steps n c m).2.2 with interrupts := ic } = some (c', m') ∧
        ∀ k, Cpu.steps (n + k) c m =
          ((Cpu.steps n c m).1 + (Cpu.steps k c' m').1, (Cpu.steps k c' m').2)) := by
  refine ⟨Cpu.read?_write hcodec, InterruptController.read?_write hcodec,
    fun _ _ => Cpu.read?_eq_some_iff hcodec,
    fun _ _ => InterruptController.read?_eq_some_iff hcodec, fun _ _ c bus n => ?_,
    fun c m ic n => ?_⟩
  -- The restored state is the saved one, so the run is cut in two and put together again.
  · exact ⟨_, Cpu.read?_write hcodec _, fun k => Cpu.steps_add n k c bus⟩
  · exact ⟨_, _, restore?_take hcodec _ _ ic, fun k => Cpu.steps_add n k c m⟩

theorem round_trip_plain :
    InterruptController.toText ⟨1, 0xFFFF, 0⟩ =
      "\x7b\"enable\":1,\"flags\":65535,\"master\":0\x7d" ∧
    InterruptController.ofText? "\x7b\"enable\":1,\"flags\":65535,\"master\":0\x7d" =
      some ⟨1, 0xFFFF, 0⟩ ∧
    ∃ j, IsText j "\x7b\"enable\":1,\"flags\":65535,\"master\":0\x7d" ∧
      IsForm (InterruptController.members ⟨1, 0xFFFF, 0⟩) j := by
  obtain ⟨-, hread, -, hforms, -⟩ := round_trip .plain Codec.lawful_plain
  have htext : InterruptController.toText ⟨1, 0xFFFF, 0⟩ =
      "\x7b\"enable\":1,\"flags\":65535,\"master\":0\x7d" := by decide +kernel
  rw [← htext]
  exact ⟨rfl, hread _, (hforms _ _).1 (hread _)⟩

example : InterruptController.ofText?
    "\x7b\"master\": 0, \"n\": [\x7b\x7d, -1e9],\n\"flags\":65535 ,\"enable\":1\x7d" =
      some ⟨1, 0xFFFF, 0⟩ := by decide +kernel

end Snapshot

end Handheld
