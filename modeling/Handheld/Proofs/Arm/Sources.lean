import Handheld.Proofs.Arm.IndexedTransfer
import Handheld.Proofs.StatusTransfer

/-!
# Source registers and their fields

The instructions that read the program counter as an operand name their sources in four fields of
the opcode.  This file lists the sources of an instruction, puts other registers in their places,
in the instruction and in the opcode, and proves that the two agree: no field of a source is looked
at when the decoder chooses the family, except to tell an exchange or a swap from its neighbours.
-/

namespace Handheld

/-! ## 1. Words that agree on some bits -/

namespace Word

/-- The words have the same bits under the mask. -/
def Agree (m w v : Word) : Prop := w &&& m = v &&& m

namespace Agree

variable {m n i w v : Word}

theorem trans {u : Word} (h : Agree m w v) (h' : Agree m v u) : Agree m w u := Eq.trans h h'

theorem and_eq (h : Agree m w v) (hn : m &&& n = n) : w &&& n = v &&& n :=
  (and_eq_of_and_eq h hn).trans (and_eq_of_and_eq rfl hn).symm

theorem bit_eq (h : Agree m w v) (hi : m.bit i = true) : w.bit i = v.bit i :=
  (bit_eq_of_and_eq h hi).trans (bit_eq_of_and_eq rfl hi).symm

theorem shiftRight_and_eq (h : Agree m w v) (hn : (m >>> i) &&& n = n) :
    (w >>> i) &&& n = (v >>> i) &&& n :=
  (shiftRight_and_eq_of_and_eq h i n hn).trans (shiftRight_and_eq_of_and_eq rfl i n hn).symm

theorem field_eq (h : Agree m w v) (hn : m.field i n = (1 <<< n) - 1) : w.field i n = v.field i n :=
  h.shiftRight_and_eq hn

end Agree

theorem Agree.reg_eq {m i w v : Word} (h : Agree m w v) (hm : m.field i 4 = 0xF) :
    w.reg i = v.reg i :=
  reg_eq_of_field_eq (h.field_eq hm)

end Word

namespace Arm

/-! ## 2. Register fields -/

/-- The fields of an opcode that name registers. -/
inductive RegField where
  | rm
  | rs
  | rd
  | rn
deriving DecidableEq, Repr

namespace RegField

def position : RegField → Word
  | rm => 0
  | rs => 8
  | rd => 12
  | rn => 16

def mask (f : RegField) : Word := 0xF <<< f.position

/-- The opcode with another register in the field. -/
def put (f : RegField) (r : Reg) (w : Word) : Word := w.overlay f.mask (r.code <<< f.position)

theorem agree_put (f : RegField) {m : Word} (h : f.mask &&& m = 0) (r : Reg) (w : Word) :
    Word.Agree m (f.put r w) w :=
  Word.overlay_and_of_disjoint h w _

theorem reg_put (f g : RegField) (r : Reg) (w : Word) :
    (f.put r w).reg g.position = if f = g then r else w.reg g.position := by
  have hcode : ∀ f : RegField, (r.code <<< f.position).reg f.position = r := by
    intro f
    revert r
    cases f <;> decide
  split
  next h =>
    subst h
    have hfield : (f.put r w).field f.position 4 = (r.code <<< f.position).field f.position 4 :=
      Word.field_overlay_self (by cases f <;> decide) w _
    rw [Word.reg_eq_of_field_eq hfield, hcode]
  next h =>
    have hmask : (~~~f.mask).field g.position 4 = 0xF := by
      revert h
      cases f <;> cases g <;> decide
    exact Word.reg_overlay hmask w _

end RegField

/-! ## 3. Sources -/

/-- A register that an instruction reads, the field that names it, and how many bytes beyond the
instruction the program counter reads as there. -/
structure Source where
  field : RegField
  reg : Reg
  ahead : Word
deriving DecidableEq, Repr

/-- A register for each field. -/
abbrev StandIns := RegField → Reg

/-- The register in place of a source: another one if it is the program counter. -/
def StandIns.of (s : StandIns) (f : RegField) (r : Reg) : Reg := if r = .pc then s f else r

def Operand.sources : Operand → List Source
  | constant _ => []
  | shifted r _ _ => [⟨.rm, r, 8⟩]
  | shiftedBy r _ amount => [⟨.rm, r, 12⟩, ⟨.rs, amount, 12⟩]

/-- How far beyond the instruction the program counter reads as in one with this operand. -/
def Operand.ahead : Operand → Word
  | shiftedBy _ _ _ => 12
  | _ => 8

def Offset.sources : Offset → List Source
  | constant _ => []
  | shifted r _ _ => [⟨.rm, r, 8⟩]

/-- The register that a store of one value sends. -/
def Movement.sources (m : Movement) (data : Reg) : List Source :=
  match m with
  | store _ => [⟨.rd, data, 12⟩]
  | _ => []

/-- The sources for which the program counter reads as beyond the instruction, unless it is part of
a pair that is stored. -/
def Instruction.sources : Instruction → List Source
  | branchExchange target => [⟨.rm, target, 8⟩]
  | writeStatus _ _ (.register r) => [⟨.rm, r, 8⟩]
  | dataProcessing _ _ _ left right => ⟨.rn, left, right.ahead⟩ :: right.sources
  | transfer t => ⟨.rn, t.base, 8⟩ :: (t.offset.sources ++ t.move.sources t.data)
  | _ => []

/-! ## 4. Stand-ins -/

def Operand.withStandIns (s : StandIns) : Operand → Operand
  | constant n => constant n
  | shifted r kind amount => shifted (s.of .rm r) kind amount
  | shiftedBy r kind amount => shiftedBy (s.of .rm r) kind (s.of .rs amount)

def Offset.withStandIns (s : StandIns) : Offset → Offset
  | constant n => constant n
  | shifted r kind amount => shifted (s.of .rm r) kind amount

/-- The register of the data, which is a source in a store of one value. -/
def Movement.withStandIns (s : StandIns) (m : Movement) (data : Reg) : Reg :=
  match m with
  | store _ => s.of .rd data
  | _ => data

def Transfer.withStandIns (s : StandIns) (t : Transfer) : Transfer :=
  { t with
    base := s.of .rn t.base
    offset := t.offset.withStandIns s
    data := t.move.withStandIns s t.data }

/-- The instruction with other registers where a source is the program counter. -/
def Instruction.withStandIns (s : StandIns) : Instruction → Instruction
  | branchExchange target => branchExchange (s.of .rm target)
  | writeStatus saved mask (.register r) => writeStatus saved mask (.register (s.of .rm r))
  | dataProcessing op setFlags dest left right =>
    dataProcessing op setFlags dest (s.of .rn left) (right.withStandIns s)
  | transfer t => transfer (t.withStandIns s)
  | i => i

/-- The opcode with those registers in the fields of its sources. -/
def putSources (s : StandIns) (xs : List Source) (w : Word) : Word :=
  xs.foldl (fun w x => x.field.put (s.of x.field x.reg) w) w

/-- The opcode with other registers where a source is the program counter. -/
def withStandIns (op : Word) (s : StandIns) : Word := putSources s (decode op).sources op

theorem agree_putSources (s : StandIns) (fs : List RegField) {m : Word} {xs : List Source}
    (hxs : ∀ x ∈ xs, x.field ∈ fs) (hm : ∀ f ∈ fs, f.mask &&& m = 0) (w : Word) :
    Word.Agree m (putSources s xs w) w := by
  induction xs generalizing w with
  | nil => rfl
  | cons x xs ih =>
    have hx : x.field.mask &&& m = 0 := hm _ (hxs x List.mem_cons_self)
    exact (ih (fun y hy => hxs y (List.mem_cons_of_mem x hy)) _).trans (x.field.agree_put hx _ w)

/-- The bits outside the register fields are left alone. -/
theorem agree_putSources_fixed (s : StandIns) (xs : List Source) (w : Word) :
    Word.Agree 0xFFF000F0 (putSources s xs w) w :=
  agree_putSources s [.rm, .rs, .rd, .rn] (fun x _ => by cases x.field <;> simp)
    (by decide) w

/-- A field that no source names is left alone. -/
theorem reg_putSources_of_not_mem (s : StandIns) {f : RegField} {xs : List Source}
    (h : ∀ x ∈ xs, x.field ≠ f) (w : Word) :
    (putSources s xs w).reg f.position = w.reg f.position := by
  induction xs generalizing w with
  | nil => rfl
  | cons x xs ih =>
    refine (ih (fun y hy => h y (List.mem_cons_of_mem x hy)) _).trans ?_
    rw [RegField.reg_put, if_neg (h x List.mem_cons_self)]

/-- A field that one source names gets its register. -/
theorem reg_putSources (s : StandIns) (f : RegField) (r : Reg) (ahead : Word)
    (xs : List Source) {ys : List Source} (h : ∀ y ∈ ys, y.field ≠ f) (w : Word) :
    (putSources s (xs ++ ⟨f, r, ahead⟩ :: ys) w).reg f.position = s.of f r := by
  unfold putSources
  rw [List.foldl_append, List.foldl_cons]
  refine (reg_putSources_of_not_mem s h _).trans ?_
  rw [RegField.reg_put, if_pos rfl]

/-! ## 5. Families with sources -/

variable {v w : Word} {s : StandIns}

/-- The opcode is in the class of data processing, and none of the multiplications and transfers
there. -/
structure IsProcessing (w : Word) : Prop where
  high : w.toNat / 2 ^ 26 % 2 ^ 2 = 0
  multiply : ¬ w &&& 0x0FC000F0 = 0x00000090
  multiplyLong : ¬ w &&& 0x0F8000F0 = 0x00800090
  extra : ¬ (w &&& 0x0E000090 = 0x00000090 ∧ w &&& 0x60 ≠ 0)

theorem IsProcessing.of_agree (h : IsProcessing w) (hagree : Word.Agree 0xFFF000F0 v w) :
    IsProcessing v where
  high := by
    have hclass : w &&& 0x0C000000 = 0 := (Word.and_eq_iff_field rfl rfl w).2 h.high
    rw [← hagree.and_eq (by decide)] at hclass
    exact (Word.and_eq_iff_field (k := 0) rfl rfl v).1 hclass
  multiply := by
    rw [hagree.and_eq (by decide)]
    exact h.multiply
  multiplyLong := by
    rw [hagree.and_eq (by decide)]
    exact h.multiplyLong
  extra := by
    rw [hagree.and_eq (by decide), hagree.and_eq (by decide)]
    exact h.extra

/-- What is left of the decoder for them. -/
theorem IsProcessing.decode_eq (h : IsProcessing w) (hexchange : ¬ w &&& 0x0FFFFFF0 = 0x012FFF10)
    (hswap : ¬ w &&& 0x0FB00FF0 = 0x01000090) :
    decode w =
      if w &&& 0x01900000 = 0x01000000 then decodeStatus w
      else .dataProcessing (AluOp.ofBits (w >>> 21)) (w.bit 20) (w.reg 12) (w.reg 16)
        (decodeOperand w) := by
  unfold decode
  rw [if_neg hexchange]
  iterate 5 rw [if_neg (and_ne_of_class h.high rfl (by decide))]
  rw [if_neg h.multiply, if_neg h.multiplyLong, if_neg hswap, if_neg h.extra]

/-- An exchange and a swap have the bits of a status word access. -/
theorem IsProcessing.decode_eq_dataProcessing (h : IsProcessing w)
    (hstatus : ¬ w &&& 0x01900000 = 0x01000000) :
    decode w = .dataProcessing (AluOp.ofBits (w >>> 21)) (w.bit 20) (w.reg 12) (w.reg 16)
      (decodeOperand w) := by
  rw [h.decode_eq (fun hx => hstatus (Word.and_eq_of_and_eq hx (by decide)))
    (fun hx => hstatus (Word.and_eq_of_and_eq hx (by decide))), if_neg hstatus]

theorem isSingle_of_agree (h : IsSingle w) (hagree : Word.Agree 0xFFF000F0 v w) : IsSingle v := by
  unfold IsSingle at h ⊢
  rwa [hagree.field_eq (by decide), hagree.bit_eq (i := 25) (by decide),
    hagree.bit_eq (i := 4) (by decide)]

theorem isExtra_of_agree (h : IsExtra w) (hagree : Word.Agree 0xFFF000F0 v w) : IsExtra v := by
  unfold IsExtra at h ⊢
  rwa [hagree.field_eq (i := 25) (by decide), hagree.bit_eq (i := 7) (by decide),
    hagree.bit_eq (i := 4) (by decide), hagree.field_eq (i := 5) (by decide)]

theorem isSingle_of_and (hclass : w &&& 0x0C000000 = 0x04000000)
    (hform : ¬ w &&& 0x02000010 = 0x02000010) : IsSingle w := by
  refine ⟨Word.shiftRight_and_eq_of_and_eq hclass 26 3 rfl, ?_⟩
  cases h25 : w.bit 25 with
  | false => exact .inl rfl
  | true =>
    cases h4 : w.bit 4 with
    | false => exact .inr rfl
    | true =>
      rw [Word.bit_eq_decide (by decide), decide_eq_true_iff] at h25 h4
      refine absurd ?_ hform
      show w &&& (0x02000000 ||| 0x10) = 0x02000010
      rw [Word.and_or_left,
        (Word.and_eq_iff_field (i := 25) (n := 1) (k := 1) (v := 0x02000000) rfl rfl w).2 h25,
        (Word.and_eq_iff_field (i := 4) (n := 1) (k := 1) (v := 0x10) rfl rfl w).2 h4]
      rfl

theorem isExtra_of_and (hmatch : w &&& 0x0E000090 = 0x00000090) (hkind : w &&& 0x60 ≠ 0) :
    IsExtra w := by
  refine ⟨Word.shiftRight_and_eq_of_and_eq hmatch 25 7 rfl,
    Word.bit_eq_of_and_eq hmatch (by decide), Word.bit_eq_of_and_eq hmatch (by decide),
    fun hzero => hkind ?_⟩
  have hnat := congrArg UInt32.toNat hzero
  rw [Word.toNat_field (by decide) (by decide)] at hnat
  exact (Word.and_eq_iff_field (i := 5) (n := 2) (k := 0) rfl rfl w).2 hnat

theorem sources_decodeBlock (w : Word) : (decodeBlock w).sources = [] := by
  unfold decodeBlock
  split <;> rfl

/-- The families in which a source can be the program counter. -/
theorem decode_forms (w : Word) :
    w &&& 0x0FFFFFF0 = 0x012FFF10 ∨ IsTransfer w ∨
      (IsProcessing w ∧ ¬ w &&& 0x0FFFFFF0 = 0x012FFF10 ∧ ¬ w &&& 0x0FB00FF0 = 0x01000090) ∨
      (decode w).sources = [] := by
  unfold decode
  by_cases hexchange : w &&& 0x0FFFFFF0 = 0x012FFF10
  · exact .inl hexchange
  rw [if_neg hexchange]
  by_cases hbranch : w &&& 0x0E000000 = 0x0A000000
  · rw [if_pos hbranch]
    exact .inr (.inr (.inr rfl))
  rw [if_neg hbranch]
  by_cases hinterrupt : w &&& 0x0F000000 = 0x0F000000
  · rw [if_pos hinterrupt]
    exact .inr (.inr (.inr rfl))
  rw [if_neg hinterrupt]
  by_cases hcoprocessor : w &&& 0x0C000000 = 0x0C000000
  · rw [if_pos hcoprocessor]
    exact .inr (.inr (.inr rfl))
  rw [if_neg hcoprocessor]
  by_cases hblock : w &&& 0x0E000000 = 0x08000000
  · rw [if_pos hblock]
    exact .inr (.inr (.inr (sources_decodeBlock w)))
  rw [if_neg hblock]
  by_cases hclass : w &&& 0x0C000000 = 0x04000000
  · rw [if_pos hclass]
    by_cases hform : w &&& 0x02000010 = 0x02000010
    · rw [if_pos hform]
      exact .inr (.inr (.inr rfl))
    · exact .inr (.inl (.inl (isSingle_of_and hclass hform)))
  rw [if_neg hclass]
  by_cases hmultiply : w &&& 0x0FC000F0 = 0x00000090
  · rw [if_pos hmultiply]
    exact .inr (.inr (.inr rfl))
  rw [if_neg hmultiply]
  by_cases hmultiplyLong : w &&& 0x0F8000F0 = 0x00800090
  · rw [if_pos hmultiplyLong]
    exact .inr (.inr (.inr rfl))
  rw [if_neg hmultiplyLong]
  by_cases hswap : w &&& 0x0FB00FF0 = 0x01000090
  · rw [if_pos hswap]
    exact .inr (.inr (.inr rfl))
  rw [if_neg hswap]
  by_cases hextra : w &&& 0x0E000090 = 0x00000090 ∧ w &&& 0x60 ≠ 0
  · exact .inr (.inl (.inr (isExtra_of_and hextra.1 hextra.2)))
  -- Neither bit 27 nor bit 26 is set, for every other value has been dealt with.
  have hzero : w.toNat / 2 ^ 26 % 2 ^ 2 = 0 := by
    rw [Word.and_eq_iff_field (i := 25) (n := 3) (k := 5) rfl rfl] at hbranch
    rw [Word.and_eq_iff_field (i := 26) (n := 2) (k := 3) rfl rfl] at hcoprocessor
    rw [Word.and_eq_iff_field (i := 25) (n := 3) (k := 4) rfl rfl] at hblock
    rw [Word.and_eq_iff_field (i := 26) (n := 2) (k := 1) rfl rfl] at hclass
    omega
  exact .inr (.inr (.inl ⟨⟨hzero, hmultiply, hmultiplyLong, hextra⟩, hexchange, hswap⟩))

/-! ## 6. Decoding with stand-ins -/

/-- Without sources nothing is replaced. -/
theorem withStandIns_of_sources_nil {i : Instruction} (h : i.sources = []) (s : StandIns) :
    i.withStandIns s = i := by
  cases i with
  | branchExchange | dataProcessing | transfer => cases h
  | writeStatus saved mask value =>
    cases value with
    | constant => rfl
    | register => cases h
  | _ => rfl

theorem field_of_mem_sources {m : Movement} {data : Reg} {x : Source} (h : x ∈ m.sources data) :
    x.field = .rd := by
  cases m with
  | store kind => rw [List.mem_singleton.1 h]
  | _ => cases h

/-- A transfer has its sources in the fields of the base and the stored register, and those of its
offset. -/
theorem Transfer.field_mem (t : Transfer) {x : Source} (h : x ∈ (Instruction.transfer t).sources) :
    x.field ∈ .rn :: .rd :: t.offset.sources.map Source.field := by
  rcases List.mem_cons.1 h with rfl | h
  · exact List.mem_cons_self
  rcases List.mem_append.1 h with h | h
  · exact List.mem_cons_of_mem _ (List.mem_cons_of_mem _ (List.mem_map_of_mem h))
  · rw [field_of_mem_sources h]
    exact List.mem_cons_of_mem _ List.mem_cons_self

/-- The addressing bits of an opcode with stand-ins. -/
theorem decodeTransfer_putSources {move : Movement} {offset : Offset}
    (hagree : Word.Agree 0xFFF000F0 v w)
    (hv : v = putSources s (decodeTransfer w move offset).sources w) :
    decodeTransfer v move (offset.withStandIns s) =
      (decodeTransfer w move offset).withStandIns s := by
  have hrm : ∀ x ∈ offset.sources, x.field = .rm := by
    cases offset <;> simp [Offset.sources]
  have hbase : v.reg 16 = s.of .rn (w.reg 16) := by
    rw [hv]
    refine reg_putSources s .rn (w.reg 16) 8 [] (fun y hy => ?_) w
    rcases List.mem_append.1 hy with hy | hy
    · rw [hrm y hy]
      decide
    · rw [field_of_mem_sources hy]
      decide
  have hdata : v.reg 12 = move.withStandIns s (w.reg 12) := by
    rw [hv]
    cases move with
    | store kind =>
      exact reg_putSources s .rd (w.reg 12) 12 (⟨.rn, w.reg 16, 8⟩ :: offset.sources)
        (List.forall_mem_nil _) w
    | _ =>
      refine reg_putSources_of_not_mem s (f := .rd) (fun x hx => ?_) w
      rcases List.mem_cons.1 hx with rfl | hx
      · nofun
      · rw [hrm x ((List.mem_append.1 hx).resolve_right nofun)]
        decide
  unfold decodeTransfer
  rw [hbase, hdata, hagree.bit_eq (i := 23) (by decide), hagree.bit_eq (i := 24) (by decide),
    hagree.bit_eq (i := 21) (by decide)]
  rfl

/-- The register of an offset, read back. -/
theorem reg_putSources_offset {move : Movement} {kind : ShiftKind} {amount : Word} {r : Reg}
    (hv : v = putSources s (decodeTransfer w move (.shifted r kind amount)).sources w) :
    v.reg 0 = s.of .rm r := by
  rw [hv]
  refine reg_putSources s .rm r 8 [⟨.rn, w.reg 16, 8⟩] (fun y hy => ?_) w
  rw [field_of_mem_sources hy]
  decide

theorem shiftKind_of_agree {m : Word} (h : Word.Agree m v w) (hm : (m >>> 5) &&& 3 = 3) :
    shiftKind v = shiftKind w := by
  unfold shiftKind ShiftKind.ofBits
  rw [h.shiftRight_and_eq hm]

theorem decodeSingle_putSources (hv : v = putSources s (decodeSingle w).sources w) :
    decodeSingle v = (decodeSingle w).withStandIns s := by
  unfold decodeSingle at hv ⊢
  cases h25 : w.bit 25 with
  | true =>
    rw [h25, if_pos rfl] at hv
    have hagree : Word.Agree 0xFFF00FF0 v w := by
      rw [hv]
      exact agree_putSources s [.rn, .rd, .rm] (fun x => Transfer.field_mem _) (by decide) w
    have hoffset : Offset.shifted (v.reg 0) (shiftKind v) (shiftAmount v) =
        (Offset.shifted (w.reg 0) (shiftKind w) (shiftAmount w)).withStandIns s := by
      unfold shiftAmount
      rw [reg_putSources_offset hv, shiftKind_of_agree hagree (by decide),
        hagree.field_eq (by decide)]
      rfl
    rw [hagree.bit_eq (i := 25) (by decide), hagree.bit_eq (i := 20) (by decide),
      hagree.bit_eq (i := 22) (by decide), h25, if_pos rfl, if_pos rfl, hoffset,
      decodeTransfer_putSources (hagree.and_eq (by decide)) hv]
  | false =>
    rw [h25, if_neg (by decide)] at hv
    have hagree : Word.Agree 0xFFF00FFF v w := by
      rw [hv]
      exact agree_putSources s [.rn, .rd] (fun x => Transfer.field_mem _) (by decide) w
    rw [hagree.bit_eq (i := 25) (by decide), hagree.bit_eq (i := 20) (by decide),
      hagree.bit_eq (i := 22) (by decide), hagree.and_eq (n := 0xFFF) (by decide), h25,
      if_neg (by decide), if_neg (by decide),
      ← decodeTransfer_putSources (hagree.and_eq (by decide)) hv]
    rfl

theorem extraMovement_of_agree (h : Word.Agree 0xFFF000F0 v w) :
    extraMovement v = extraMovement w := by
  unfold extraMovement
  rw [h.bit_eq (by decide), h.field_eq (by decide)]

theorem decodeExtra_putSources (hv : v = putSources s (decodeExtra w).sources w) :
    decodeExtra v = (decodeExtra w).withStandIns s := by
  unfold decodeExtra at hv ⊢
  cases h22 : w.bit 22 with
  | true =>
    rw [h22, if_pos rfl] at hv
    have hagree : Word.Agree 0xFFF00FFF v w := by
      rw [hv]
      exact agree_putSources s [.rn, .rd] (fun x => Transfer.field_mem _) (by decide) w
    have hfixed : Word.Agree 0xFFF000F0 v w := hagree.and_eq (by decide)
    rw [extraMovement_of_agree hfixed, hagree.bit_eq (i := 22) (by decide),
      hagree.field_eq (i := 8) (by decide), hagree.field_eq (i := 0) (by decide), h22, if_pos rfl,
      if_pos rfl, ← decodeTransfer_putSources hfixed hv]
    rfl
  | false =>
    rw [h22, if_neg (by decide)] at hv
    have hfixed : Word.Agree 0xFFF000F0 v w := by
      rw [hv]
      exact agree_putSources s [.rn, .rd, .rm] (fun x => Transfer.field_mem _) (by decide) w
    rw [extraMovement_of_agree hfixed, hfixed.bit_eq (i := 22) (by decide), h22,
      if_neg (by decide), if_neg (by decide), reg_putSources_offset hv,
      ← decodeTransfer_putSources hfixed hv]
    rfl

theorem decodeOperand_putSources {r : Reg} {ahead : Word}
    (hv : v = putSources s (⟨.rn, r, ahead⟩ :: (decodeOperand w).sources) w) :
    decodeOperand v = (decodeOperand w).withStandIns s ∧ Word.Agree 0xFFF0F0F0 v w := by
  unfold decodeOperand at hv ⊢
  cases h25 : w.bit 25 with
  | true =>
    rw [h25, if_pos rfl] at hv
    have hagree : Word.Agree 0xFFF0FFFF v w := by
      rw [hv]
      exact agree_putSources s [.rn] (by simp [Operand.sources]) (by decide) w
    rw [hagree.bit_eq (i := 25) (by decide), hagree.and_eq (n := 0xFFF) (by decide), h25,
      if_pos rfl, if_pos rfl]
    exact ⟨rfl, hagree.and_eq (by decide)⟩
  | false =>
    rw [h25, if_neg (by decide)] at hv
    cases h4 : w.bit 4 with
    | true =>
      rw [h4, if_pos rfl] at hv
      have hagree : Word.Agree 0xFFF0F0F0 v w := by
        rw [hv]
        exact agree_putSources s [.rn, .rm, .rs] (by simp [Operand.sources]) (by decide) w
      have h0 : v.reg 0 = s.of .rm (w.reg 0) := by
        rw [hv]
        exact reg_putSources s .rm (w.reg 0) 12 [⟨.rn, r, ahead⟩]
          (by simp) w
      have h8 : v.reg 8 = s.of .rs (w.reg 8) := by
        rw [hv]
        exact reg_putSources s .rs (w.reg 8) 12 [⟨.rn, r, ahead⟩, ⟨.rm, w.reg 0, 12⟩]
          (List.forall_mem_nil _) w
      rw [hagree.bit_eq (i := 25) (by decide), hagree.bit_eq (i := 4) (by decide), h25, h4,
        if_neg (by decide), if_pos rfl, if_neg (by decide), if_pos rfl, h0, h8,
        shiftKind_of_agree hagree (by decide)]
      exact ⟨rfl, hagree⟩
    | false =>
      rw [h4, if_neg (by decide)] at hv
      have hagree : Word.Agree 0xFFF0FFF0 v w := by
        rw [hv]
        exact agree_putSources s [.rn, .rm] (by simp [Operand.sources]) (by decide) w
      have h0 : v.reg 0 = s.of .rm (w.reg 0) := by
        rw [hv]
        exact reg_putSources s .rm (w.reg 0) 8 [⟨.rn, r, ahead⟩] (List.forall_mem_nil _) w
      rw [hagree.bit_eq (i := 25) (by decide), hagree.bit_eq (i := 4) (by decide), h25, h4,
        if_neg (by decide), if_neg (by decide), if_neg (by decide), if_neg (by decide), h0,
        shiftKind_of_agree hagree (by decide)]
      unfold shiftAmount
      rw [hagree.field_eq (by decide)]
      exact ⟨rfl, hagree.and_eq (by decide)⟩

/-- A status word access names its register in the lowest field, on which no test depends. -/
theorem decodeStatus_putSources (hv : v = putSources s (decodeStatus w).sources w) :
    decodeStatus v = (decodeStatus w).withStandIns s ∧ Word.Agree 0xFFFFFFF0 v w := by
  have hagree : Word.Agree 0xFFFFFFF0 v w := by
    rw [hv]
    refine agree_putSources s [.rm] ?_ (by decide) w
    unfold decodeStatus
    split
    · split <;> simp [Instruction.sources]
    · simp [Instruction.sources]
  have hmask : statusMask v = statusMask w := by
    unfold statusMask
    dsimp only
    rw [hagree.bit_eq (i := 16 + 0) (by decide), hagree.bit_eq (i := 16 + 1) (by decide),
      hagree.bit_eq (i := 16 + 2) (by decide), hagree.bit_eq (i := 16 + 3) (by decide)]
  refine ⟨?_, hagree⟩
  unfold decodeStatus at hv ⊢
  rw [hmask, hagree.bit_eq (i := 21) (by decide), hagree.bit_eq (i := 22) (by decide),
    hagree.bit_eq (i := 25) (by decide)]
  cases h21 : w.bit 21 with
  | false =>
    have hlow : v = w := by
      rw [hv, h21]
      rfl
    rw [hlow]
    rfl
  | true =>
    cases h25 : w.bit 25 with
    | true =>
      have hlow : v = w := by
        rw [hv, h21, h25]
        rfl
      rw [hlow]
      rfl
    | false =>
      have h0 : v.reg 0 = s.of .rm (w.reg 0) := by
        rw [hv, h21, h25]
        exact reg_putSources s .rm (w.reg 0) 8 [] (List.forall_mem_nil _) w
      rw [h0]
      rfl

/-! ## 7. The families -/

variable {op : Word}

theorem decode_withStandIns_of_exchange (h : op &&& 0x0FFFFFF0 = 0x012FFF10) (s : StandIns) :
    decode (withStandIns op s) = (decode op).withStandIns s := by
  have hdecode := decode_eq_branchExchange h
  have hput : withStandIns op s = RegField.rm.put (s.of .rm (op.reg 0)) op := by
    unfold withStandIns
    rw [hdecode]
    rfl
  have hagree := RegField.rm.agree_put (m := 0x0FFFFFF0) (by decide) (s.of .rm (op.reg 0)) op
  rw [hput, decode_eq_branchExchange (Eq.trans hagree h), hdecode]
  exact congrArg Instruction.branchExchange (RegField.reg_put .rm .rm _ op)

theorem decode_withStandIns_of_isTransfer (h : IsTransfer op) (s : StandIns) :
    decode (withStandIns op s) = (decode op).withStandIns s := by
  have hfixed : Word.Agree 0xFFF000F0 (withStandIns op s) op := agree_putSources_fixed s _ op
  rcases h with h | h
  · have hdecode := decode_of_isSingle h
    have hv : withStandIns op s = putSources s (decodeSingle op).sources op := by
      unfold withStandIns
      rw [hdecode]
    rw [hdecode, ← decodeSingle_putSources hv, decode_of_isSingle (isSingle_of_agree h hfixed)]
  · have hdecode := decode_of_isExtra h
    have hv : withStandIns op s = putSources s (decodeExtra op).sources op := by
      unfold withStandIns
      rw [hdecode]
    rw [hdecode, ← decodeExtra_putSources hv, decode_of_isExtra (isExtra_of_agree h hfixed)]

theorem decode_withStandIns_of_status (h : IsProcessing op)
    (hexchange : ¬ op &&& 0x0FFFFFF0 = 0x012FFF10) (hswap : ¬ op &&& 0x0FB00FF0 = 0x01000090)
    (hstatus : op &&& 0x01900000 = 0x01000000) (s : StandIns) :
    decode (withStandIns op s) = (decode op).withStandIns s := by
  have hdecode : decode op = decodeStatus op := by
    rw [h.decode_eq hexchange hswap, if_pos hstatus]
  have hv : withStandIns op s = putSources s (decodeStatus op).sources op := by
    unfold withStandIns
    rw [hdecode]
  obtain ⟨hput, hagree⟩ := decodeStatus_putSources hv
  have hexchange' : ¬ withStandIns op s &&& 0x0FFFFFF0 = 0x012FFF10 := by
    rwa [hagree.and_eq (by decide)]
  have hswap' : ¬ withStandIns op s &&& 0x0FB00FF0 = 0x01000090 := by
    rwa [hagree.and_eq (by decide)]
  have hstatus' : withStandIns op s &&& 0x01900000 = 0x01000000 := by
    rwa [hagree.and_eq (by decide)]
  rw [hdecode, ← hput, (h.of_agree (hagree.and_eq (by decide))).decode_eq hexchange' hswap',
    if_pos hstatus']

theorem decode_withStandIns_of_calculation (h : IsProcessing op)
    (hstatus : ¬ op &&& 0x01900000 = 0x01000000) (s : StandIns) :
    decode (withStandIns op s) = (decode op).withStandIns s := by
  have hdecode := h.decode_eq_dataProcessing hstatus
  have hv : withStandIns op s = putSources s
      (⟨.rn, op.reg 16, (decodeOperand op).ahead⟩ :: (decodeOperand op).sources) op := by
    unfold withStandIns
    rw [hdecode]
    rfl
  obtain ⟨hput, hagree⟩ := decodeOperand_putSources hv
  have hstatus' : ¬ withStandIns op s &&& 0x01900000 = 0x01000000 := by
    rwa [hagree.and_eq (by decide)]
  have hleft : (withStandIns op s).reg 16 = s.of .rn (op.reg 16) := by
    rw [hv]
    refine reg_putSources s .rn (op.reg 16) (decodeOperand op).ahead [] ?_ op
    cases decodeOperand op <;> simp [Operand.sources]
  have hop : AluOp.ofBits (withStandIns op s >>> 21) = AluOp.ofBits (op >>> 21) := by
    unfold AluOp.ofBits
    rw [hagree.shiftRight_and_eq (by decide)]
  rw [hdecode, (h.of_agree (hagree.and_eq (by decide))).decode_eq_dataProcessing hstatus', hop,
    hput, hleft, hagree.bit_eq (by decide), hagree.reg_eq (by decide)]
  rfl

/-- An opcode with stand-ins in the fields of its sources is that of the instruction with
stand-ins. -/
theorem decode_withStandIns (op : Word) (s : StandIns) :
    decode (withStandIns op s) = (decode op).withStandIns s := by
  rcases decode_forms op with hexchange | htransfer | ⟨hprocessing, hexchange, hswap⟩ | hnone
  · exact decode_withStandIns_of_exchange hexchange s
  · exact decode_withStandIns_of_isTransfer htransfer s
  · by_cases hstatus : op &&& 0x01900000 = 0x01000000
    · exact decode_withStandIns_of_status hprocessing hexchange hswap hstatus s
    · exact decode_withStandIns_of_calculation hprocessing hstatus s
  · unfold withStandIns
    rw [hnone, withStandIns_of_sources_nil hnone]
    rfl

end Arm

end Handheld
