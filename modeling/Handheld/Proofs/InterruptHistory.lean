import Handheld.Proofs.Latch
import Handheld.Proofs.Memory.Registers

/-!
# The interrupt registers remember

After any traffic on the memory, IE and IME hold the bytes last written to them, and a bit of IF is
set exactly if its source has asked since the bit was last written as a one.  So the line to the
processor is high exactly for an interrupt that was asked for, is selected and is still due.
-/

namespace Handheld

/-! ## 1. Operations -/

/-- What can be done to the memory from inside and outside: a source asks, a host sets or clears
registers of the interrupt controller, or an access of some width is made. -/
inductive MemoryOp where
  | request (s : Interrupt)
  | acknowledge (mask : Half)
  | setEnable (v : Half)
  | setMaster (v : Half)
  | read8 (address : Word)
  | read16 (address : Word)
  | read32 (address : Word)
  | write8 (address : Word) (v : Byte)
  | write16 (address : Word) (v : Half)
  | write32 (address v : Word)
deriving DecidableEq, Repr

namespace MemoryOp

def apply (m : Memory) : MemoryOp → Memory
  | request s => m.request s
  | acknowledge mask => { m with interrupts := m.interrupts.acknowledge mask }
  | setEnable v => { m with interrupts := { m.interrupts with enable := v } }
  | setMaster v => { m with interrupts := { m.interrupts with master := v } }
  | read8 address => (Bus.read8 m address).2
  | read16 address => (Bus.read16 m address).2
  | read32 address => (Bus.read32 m address).2
  | write8 address v => Bus.write8 m address v
  | write16 address v => Bus.write16 m address v
  | write32 address v => Bus.write32 m address v

/-- The bytes an operation writes, each with its address.  Setting a register from outside writes
both its bytes. -/
def writes : MemoryOp → List (Word × Byte)
  | request _ | acknowledge _ | read8 _ | read16 _ | read32 _ => []
  | setEnable v => [(0x04000200, v.low), (0x04000201, v.high)]
  | setMaster v => [(0x04000208, v.low), (0x04000209, v.high)]
  | write8 address v => [(address, v)]
  | write16 address v =>
    let base := address &&& ~~~1
    [(base, v.low), (base + 1, v.high)]
  | write32 address v =>
    let base := address &&& ~~~3
    [(base, v.byte 0), (base + 1, v.byte 1), (base + 2, v.byte 2), (base + 3, v.byte 3)]

/-- The operation acknowledges bit `k` of IF: it has a one there in a mask or in a byte it writes. -/
def Clears (k : Nat) : MemoryOp → Prop
  | acknowledge mask => mask.toNat.testBit k = true
  | op => ∃ w ∈ op.writes, InterruptController.Acknowledges k w.1 w.2

end MemoryOp

/-- The byte last written at an address, or zero. -/
def lastByte (ws : List (Word × Byte)) (a : Word) : Byte :=
  ((ws.reverse.find? fun w => w.1 == a).map Prod.snd).getD 0

/-! ## 2. Bytes written one after the other -/

theorem lastByte_concat (ws : List (Word × Byte)) (w : Word × Byte) (a : Word) :
    lastByte (ws ++ [w]) a = if w.1 = a then w.2 else lastByte ws a := by
  unfold lastByte
  rw [List.reverse_concat, List.find?_cons]
  by_cases h : w.1 = a
  · rw [if_pos h, beq_iff_eq.2 h]
    rfl
  · rw [if_neg h, beq_eq_false_iff_ne.2 h]

namespace InterruptController

def writtenAll (ic : InterruptController) (ws : List (Word × Byte)) : InterruptController :=
  ws.foldl (fun ic w => ic.written w.1 w.2) ic

theorem testBit_flags_writtenAll (ic : InterruptController) (ws : List (Word × Byte)) {k : Nat}
    (hk : k < 16) :
    (ic.writtenAll ws).flags.toNat.testBit k = true ↔
      ic.flags.toNat.testBit k = true ∧ ¬ ∃ w ∈ ws, Acknowledges k w.1 w.2 := by
  unfold writtenAll
  induction ws generalizing ic with
  | nil => simp
  | cons w ws ih =>
    rw [List.foldl_cons, ih, testBit_flags_written ic w.1 w.2 hk]
    simp [and_assoc]

/-- Both bytes of IE written. -/
theorem writtenAll_enable (ic : InterruptController) (v : Half) :
    ic.writtenAll [(0x04000200, v.low), (0x04000201, v.high)] = { ic with enable := v } := by
  simp [writtenAll, written, Half.ofBytes_low_high, Half.low_ofBytes, and_not_ofBytes_zero]

/-- Both bytes of IME written. -/
theorem writtenAll_master (ic : InterruptController) (v : Half) :
    ic.writtenAll [(0x04000208, v.low), (0x04000209, v.high)] = { ic with master := v } := by
  simp [writtenAll, written, Half.ofBytes_low_high, Half.low_ofBytes, and_not_ofBytes_zero]

/-- IE and IME hold what was last written to each of their bytes. -/
structure Holds (ic : InterruptController) (ws : List (Word × Byte)) : Prop where
  enable : ic.enable = Half.ofBytes (lastByte ws 0x04000200) (lastByte ws 0x04000201)
  master : ic.master = Half.ofBytes (lastByte ws 0x04000208) (lastByte ws 0x04000209)

theorem Holds.written {ic : InterruptController} {ws : List (Word × Byte)} (h : ic.Holds ws)
    (w : Word × Byte) : (ic.written w.1 w.2).Holds (ws ++ [w]) := by
  constructor
  · unfold InterruptController.written
    rw [lastByte_concat, lastByte_concat, h.enable, Half.low_ofBytes, Half.high_ofBytes]
  · unfold InterruptController.written
    rw [lastByte_concat, lastByte_concat, h.master, Half.low_ofBytes, Half.high_ofBytes]

theorem Holds.writtenAll {ic : InterruptController} {past : List (Word × Byte)} (h : ic.Holds past)
    (ws : List (Word × Byte)) : (ic.writtenAll ws).Holds (past ++ ws) := by
  induction ws generalizing ic past with
  | nil =>
    rw [List.append_nil]
    exact h
  | cons w ws ih =>
    have hnext := ih (h.written w)
    rw [List.append_assoc, List.singleton_append] at hnext
    exact hnext

end InterruptController

/-! ## 3. One operation -/

namespace MemoryOp

open InterruptController

/-- Other than by a request or an acknowledgement, an operation acts on the interrupt registers by the
bytes that it writes. -/
theorem interrupts_apply (m : Memory) {op : MemoryOp} (hrequest : ∀ s, op ≠ .request s)
    (hacknowledge : ∀ mask, op ≠ .acknowledge mask) :
    (op.apply m).interrupts = m.interrupts.writtenAll op.writes := by
  cases op with
  | request s => exact absurd rfl (hrequest s)
  | acknowledge mask => exact absurd rfl (hacknowledge mask)
  | setEnable v => exact (writtenAll_enable m.interrupts v).symm
  | setMaster v => exact (writtenAll_master m.interrupts v).symm
  | read8 address => exact (Memory.registers_read8 m _).2
  | read16 address =>
    show ((((m.read8 _).2).read8 _).2).interrupts = m.interrupts
    rw [(Memory.registers_read8 _ _).2, (Memory.registers_read8 _ _).2]
  | read32 address =>
    show ((((((m.read8 _).2).read8 _).2).read8 _).2.read8 _).2.interrupts = m.interrupts
    rw [(Memory.registers_read8 _ _).2, (Memory.registers_read8 _ _).2,
      (Memory.registers_read8 _ _).2, (Memory.registers_read8 _ _).2]
  | write8 address v => exact Memory.interrupts_write8 m address v
  | write16 address v =>
    show ((m.write8 _ _).write8 _ _).interrupts = _
    rw [Memory.interrupts_write8, Memory.interrupts_write8]
    rfl
  | write32 address v =>
    show ((((m.write8 _ _).write8 _ _).write8 _ _).write8 _ _).interrupts = _
    rw [Memory.interrupts_write8, Memory.interrupts_write8, Memory.interrupts_write8,
      Memory.interrupts_write8]
    rfl

/-- The operation is a request of the source whose bit is `k`. -/
def Requests (k : Nat) (op : MemoryOp) : Prop := ∃ s, op = .request s ∧ s.bit = k

theorem testBit_flags_apply (m : Memory) (op : MemoryOp) {k : Nat} (hk : k < 16) :
    (op.apply m).interrupts.flags.toNat.testBit k = true ↔
      op.Requests k ∨ (m.interrupts.flags.toNat.testBit k = true ∧ ¬ op.Clears k) := by
  cases op with
  | request s =>
    have hrequests : (request s).Requests k ↔ s.bit = k := by simp [Requests]
    have hclears : ¬ (request s).Clears k := by simp [Clears, writes]
    rw [hrequests, and_iff_left hclears]
    exact Memory.testBit_flags_request m s hk
  | acknowledge mask =>
    have hrequests : ¬ (acknowledge mask).Requests k := by simp [Requests]
    rw [or_iff_right hrequests]
    show (m.interrupts.flags &&& ~~~mask).toNat.testBit k = true ↔ _
    rw [UInt16.toNat_and, Nat.testBit_and, Half.testBit_not mask hk]
    simp [Clears]
  | setEnable _ | setMaster _ | read8 _ | read16 _ | read32 _ | write8 _ _ | write16 _ _
  | write32 _ _ =>
    rw [interrupts_apply m (by simp) (by simp), testBit_flags_writtenAll _ _ hk]
    simp [Requests, Clears]

theorem holds_apply {m : Memory} {past : List (Word × Byte)} (h : m.interrupts.Holds past)
    (op : MemoryOp) : (op.apply m).interrupts.Holds (past ++ op.writes) := by
  cases op with
  | request _ | acknowledge _ =>
    rw [writes, List.append_nil]
    exact ⟨h.enable, h.master⟩
  | setEnable _ | setMaster _ | read8 _ | read16 _ | read32 _ | write8 _ _ | write16 _ _
  | write32 _ _ =>
    rw [interrupts_apply m (by simp) (by simp)]
    exact h.writtenAll _

/-! ## 4. A history -/

theorem holds_foldl {m : Memory} (h : m.interrupts.Holds []) (ops : List MemoryOp) :
    (ops.foldl apply m).interrupts.Holds (ops.flatMap writes) := by
  induction ops using List.reverseRecOn with
  | nil => exact h
  | append_singleton ops op ih =>
    rw [List.foldl_append, List.flatMap_append, List.flatMap_singleton]
    exact holds_apply ih op

theorem testBit_flags_foldl (m : Memory) (h : m.interrupts.flags = 0) (ops : List MemoryOp)
    {k : Nat} (hk : k < 16) :
    (ops.foldl apply m).interrupts.flags.toNat.testBit k = true ↔
      ∃ before s after, ops = before ++ .request s :: after ∧ s.bit = k ∧
        ∀ op ∈ after, ¬ op.Clears k := by
  have hclear : ¬ m.interrupts.flags.toNat.testBit k = true := by simp [h]
  rw [latched_foldl_iff (fun m => m.interrupts.flags.toNat.testBit k = true)
    (fun m op => testBit_flags_apply m op hk) hclear]
  constructor
  · rintro ⟨before, op, after, heq, ⟨s, rfl, hs⟩, hafter⟩
    exact ⟨before, s, after, heq, hs, hafter⟩
  · rintro ⟨before, s, after, heq, hs, hafter⟩
    exact ⟨before, .request s, after, heq, ⟨s, rfl, hs⟩, hafter⟩

/-- No source has one of the two highest bits of IF, so they are clear. -/
theorem flags_and_unused (m : Memory) (h : m.interrupts.flags = 0) (ops : List MemoryOp) :
    (ops.foldl apply m).interrupts.flags &&& 0xC000 = 0 := by
  by_contra hne
  -- A bit that is set was requested, and the source would have that bit.
  obtain ⟨k, hk, hflag, hunused⟩ := (Half.and_ne_zero_iff _ _).1 hne
  obtain ⟨-, s, -, -, hs, -⟩ := (testBit_flags_foldl m h ops hk).1 hflag
  have hall : ∀ k < 14, (0xC000 : Half).toNat.testBit k = false := by decide
  rw [hall k (hs ▸ s.bit_lt)] at hunused
  exact absurd hunused (by decide)

end MemoryOp

/-- After any operations on a new memory: a bit of IF is set exactly if its source was requested and
the bit not acknowledged since, the two unused bits are clear, each byte of IE and of IME is the one
last written there, and the line is high exactly if interrupts are on and one is selected and due. -/
theorem MemoryOp.interrupts_of_history (rom : Rom) (ops : List MemoryOp) :
    let m := ops.foldl apply (Memory.ofRom rom)
    let bytes := ops.flatMap writes
    (∀ k : Fin 16, m.interrupts.flags.toNat.testBit k = true ↔
      ∃ before s after, ops = before ++ .request s :: after ∧ s.bit = k.val ∧
        ∀ op ∈ after, ¬ op.Clears k) ∧
    m.interrupts.flags &&& 0xC000 = 0 ∧
    m.interrupts.enable = Half.ofBytes (lastByte bytes 0x04000200) (lastByte bytes 0x04000201) ∧
    m.interrupts.master = Half.ofBytes (lastByte bytes 0x04000208) (lastByte bytes 0x04000209) ∧
    (Bus.irqPending m = true ↔ m.interrupts.master.toNat.testBit 0 = true ∧
      ∃ k : Fin 16, m.interrupts.enable.toNat.testBit k = true ∧
        m.interrupts.flags.toNat.testBit k = true) := by
  intro m bytes
  have hflags : (Memory.ofRom rom).interrupts.flags = 0 := rfl
  have hnew : InterruptController.initial.Holds [] := ⟨by decide, by decide⟩
  have hholds := holds_foldl (m := Memory.ofRom rom) hnew ops
  refine ⟨fun k => testBit_flags_foldl _ hflags ops k.isLt, flags_and_unused _ hflags ops,
    hholds.enable, hholds.master, ?_⟩
  refine (InterruptController.pending_iff m.interrupts).trans (and_congr_right fun _ => ?_)
  constructor
  · rintro ⟨k, hk, hset⟩
    exact ⟨⟨k, hk⟩, hset⟩
  · rintro ⟨k, hset⟩
    exact ⟨k, k.isLt, hset⟩

end Handheld
