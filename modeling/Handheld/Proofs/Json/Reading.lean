import Handheld.Json.Reader
import Handheld.Proofs.Json.Grammar
import Mathlib.Data.List.DropRight
import Mathlib.Data.List.TakeWhile

/-!
# The reader reads the grammar

Each reader takes a spelling off the front of a text and returns what it spells, and takes nothing
that is not a spelling.  A number goes on as far as it can, so what follows it must not continue it;
every other value ends by itself.  Together: a text has the value that is read from it, and no
other.
-/

namespace Handheld.Json

/-! ## 1. What a text begins with -/

theorem isBlank_takeWhile (cs : List Char) : IsBlank (cs.takeWhile isSpace) :=
  List.all_eq_true.1 List.all_takeWhile

/-- What is in front of a text without its white space is white space. -/
theorem exists_blank_skipSpace (cs : List Char) : ∃ w, IsBlank w ∧ cs = w ++ skipSpace cs :=
  ⟨cs.takeWhile isSpace, isBlank_takeWhile cs, List.takeWhile_append_dropWhile.symm⟩

theorem skipSpace_cons {c : Char} (h : isSpace c = false) (cs : List Char) :
    skipSpace (c :: cs) = c :: cs :=
  List.dropWhile_cons_of_neg (by rw [h]; decide)

theorem skipSpace_blank_append {w : List Char} (hw : IsBlank w) (cs : List Char) :
    skipSpace (w ++ cs) = skipSpace cs :=
  List.dropWhile_append_of_pos hw

theorem skipSpace_blank_cons {w : List Char} {c : Char} (hw : IsBlank w) (h : isSpace c = false)
    (cs : List Char) : skipSpace (w ++ c :: cs) = c :: cs := by
  rw [skipSpace_blank_append hw, skipSpace_cons h]

theorem skipSpace_skipSpace (cs : List Char) : skipSpace (skipSpace cs) = skipSpace cs := by
  unfold skipSpace
  exact List.dropWhile_idempotent _ _

theorem skipSpace_eq_nil_iff {cs : List Char} : skipSpace cs = [] ↔ IsBlank cs :=
  List.dropWhile_eq_nil_iff

/-- The text does not begin with a character of the kind. -/
def Avoids (p : Char → Bool) (cs : List Char) : Prop := ∀ c, cs.head? = some c → p c = false

theorem avoids_nil (p : Char → Bool) : Avoids p [] := by
  intro c h
  cases h

theorem avoids_cons {p : Char → Bool} {c : Char} (h : p c = false) (cs : List Char) :
    Avoids p (c :: cs) := by
  rintro c' ⟨⟩
  exact h

theorem Avoids.mono {p q : Char → Bool} {cs : List Char} (h : Avoids p cs)
    (hpq : ∀ c, q c = true → p c = true) : Avoids q cs := by
  intro c hc
  exact Bool.eq_false_iff.2 fun hq => absurd (hpq c hq) (Bool.eq_false_iff.1 (h c hc))

/-! ## 2. Numbers -/

/-- A character with which a number would go on. -/
def continuesNumber (c : Char) : Bool := c.isDigit || c == '.' || c == 'e' || c == 'E'

/-- A number ends where this follows. -/
abbrev Ends (rest : List Char) : Prop := Avoids continuesNumber rest

theorem continuesNumber_of_isSpace {c : Char} (h : isSpace c = true) :
    continuesNumber c = false := by
  simp only [isSpace, Bool.or_eq_true, beq_iff_eq] at h
  rcases h with ((rfl | rfl) | rfl) | rfl <;> decide

theorem ends_blank_append {w rest : List Char} (hw : IsBlank w) (h : Ends rest) :
    Ends (w ++ rest) := by
  cases w with
  | nil => exact h
  | cons c w => exact avoids_cons (continuesNumber_of_isSpace (hw c List.mem_cons_self)) _

section Digits

variable {ds f e power cs tail rest : List Char}

theorem readDigits?_append (h : AreDigits ds) (hrest : Avoids Char.isDigit rest) :
    readDigits? (ds ++ rest) = some (ds, rest) := by
  have hsplit : rest.takeWhile Char.isDigit = [] ∧ rest.dropWhile Char.isDigit = rest := by
    cases rest with
    | nil => exact ⟨rfl, rfl⟩
    | cons c rest =>
      have hc : ¬ c.isDigit = true := Bool.eq_false_iff.1 (hrest c rfl)
      exact ⟨List.takeWhile_cons_of_neg hc, List.dropWhile_cons_of_neg hc⟩
  obtain ⟨c, tail, rfl, -⟩ := h.exists_cons
  unfold readDigits?
  rw [List.takeWhile_append_of_pos h.2, List.dropWhile_append_of_pos h.2, hsplit.1, hsplit.2,
    List.append_nil]

theorem of_readDigits? (h : readDigits? cs = some (ds, rest)) : AreDigits ds ∧ cs = ds ++ rest := by
  unfold readDigits? at h
  split at h
  next => cases h
  next hne =>
    cases h
    exact ⟨⟨hne, List.all_eq_true.1 List.all_takeWhile⟩, List.takeWhile_append_dropWhile.symm⟩

theorem readWhole?_append (h : IsWhole ds) (hrest : Avoids Char.isDigit rest) :
    readWhole? (ds ++ rest) = some (ds, rest) := by
  unfold readWhole?
  rw [readDigits?_append h.1 hrest]
  split
  next heq =>
    cases heq
    cases h.2 rfl
  next => rfl

theorem of_readWhole? (h : readWhole? cs = some (ds, rest)) : IsWhole ds ∧ cs = ds ++ rest := by
  unfold readWhole? at h
  split at h
  next => cases h
  next hzero =>
    obtain ⟨hdigits, hcs⟩ := of_readDigits? h
    refine ⟨⟨hdigits, fun hhead => ?_⟩, hcs⟩
    obtain ⟨c, tail, rfl, -⟩ := hdigits.exists_cons
    cases hhead
    cases tail with
    | nil => rfl
    | cons d tail => exact absurd h (hzero d tail rest)

theorem readFraction?_append (h : IsFraction f)
    (hrest : Avoids (fun c => c.isDigit || c == '.') rest) :
    readFraction? (f ++ rest) = some (f, rest) := by
  rcases h with rfl | ⟨ds, hds, rfl⟩
  · show readFraction? rest = some ([], rest)
    unfold readFraction?
    split
    next => exact absurd (hrest '.' rfl) (by decide)
    next => rfl
  · show (readDigits? (ds ++ rest)).map _ = _
    rw [readDigits?_append hds (hrest.mono fun c hc => by simp [hc])]
    rfl

theorem of_readFraction? (h : readFraction? cs = some (f, rest)) :
    IsFraction f ∧ cs = f ++ rest := by
  unfold readFraction? at h
  split at h
  next cs =>
    obtain ⟨⟨ds, rest'⟩, hread, heq⟩ := Option.map_eq_some_iff.1 h
    cases heq
    obtain ⟨hds, rfl⟩ := of_readDigits? hread
    exact ⟨.inr ⟨ds, hds, rfl⟩, rfl⟩
  next =>
    cases h
    exact ⟨.inl rfl, rfl⟩

theorem readPower?_append (h : IsPower power) (hrest : Avoids Char.isDigit rest) :
    readPower? (power ++ rest) = some (power, rest) := by
  rcases h with hds | ⟨sign, ds, rfl | rfl, hds, rfl⟩
  · have hread := readDigits?_append hds hrest
    obtain ⟨c, tail, rfl, hc⟩ := hds.exists_cons
    unfold readPower?
    split
    next heq =>
      cases heq
      exact absurd hc (by decide)
    next heq =>
      cases heq
      exact absurd hc (by decide)
    next => exact hread
  · show (readDigits? (ds ++ rest)).map _ = _
    rw [readDigits?_append hds hrest]
    rfl
  · show (readDigits? (ds ++ rest)).map _ = _
    rw [readDigits?_append hds hrest]
    rfl

theorem of_readPower? (h : readPower? cs = some (power, rest)) :
    IsPower power ∧ cs = power ++ rest := by
  unfold readPower? at h
  split at h
  case h_1 | h_2 =>
    obtain ⟨⟨ds, rest'⟩, hread, heq⟩ := Option.map_eq_some_iff.1 h
    cases heq
    obtain ⟨hds, rfl⟩ := of_readDigits? hread
    exact ⟨.inr ⟨_, ds, by simp, hds, rfl⟩, rfl⟩
  case h_3 =>
    obtain ⟨hds, rfl⟩ := of_readDigits? h
    exact ⟨.inl hds, rfl⟩

theorem readExponent?_append (h : IsExponent e) (hrest : Ends rest) :
    readExponent? (e ++ rest) = some (e, rest) := by
  have hdigits : Avoids Char.isDigit rest := hrest.mono fun c hc => by simp [continuesNumber, hc]
  rcases h with rfl | ⟨c, power, rfl | rfl, hpower, rfl⟩
  · show readExponent? rest = some ([], rest)
    unfold readExponent?
    split
    next => exact absurd (hrest 'e' rfl) (by decide)
    next => exact absurd (hrest 'E' rfl) (by decide)
    next => rfl
  · show (readPower? (power ++ rest)).map _ = _
    rw [readPower?_append hpower hdigits]
    rfl
  · show (readPower? (power ++ rest)).map _ = _
    rw [readPower?_append hpower hdigits]
    rfl

theorem of_readExponent? (h : readExponent? cs = some (e, rest)) :
    IsExponent e ∧ cs = e ++ rest := by
  unfold readExponent? at h
  split at h
  case h_1 | h_2 =>
    obtain ⟨⟨power, rest'⟩, hread, heq⟩ := Option.map_eq_some_iff.1 h
    cases heq
    obtain ⟨hpower, rfl⟩ := of_readPower? hread
    exact ⟨.inr ⟨_, power, by simp, hpower, rfl⟩, rfl⟩
  case h_3 =>
    cases h
    exact ⟨.inl rfl, rfl⟩

/-- An exponent begins with a letter, so no digit or point of what is before it goes on in it. -/
theorem avoids_exponent_append (h : IsExponent e) (hrest : Ends rest) :
    Avoids (fun c => c.isDigit || c == '.') (e ++ rest) := by
  rcases h with rfl | ⟨c, power, rfl | rfl, -, rfl⟩
  · exact hrest.mono fun c hc => by
      simp only [continuesNumber, hc, Bool.true_or]
  · exact avoids_cons (by decide) _
  · exact avoids_cons (by decide) _

theorem readUnsigned?_append (hds : IsWhole ds) (hf : IsFraction f) (he : IsExponent e)
    (hrest : Ends rest) :
    readUnsigned? (ds ++ (f ++ (e ++ rest))) = some (ds, f ++ e, rest) := by
  have hexponent := avoids_exponent_append he hrest
  have hfraction : Avoids Char.isDigit (f ++ (e ++ rest)) := by
    rcases hf with rfl | ⟨ds, -, rfl⟩
    · exact hexponent.mono fun c hc => by simp [hc]
    · exact avoids_cons (by decide) _
  unfold readUnsigned?
  simp [readWhole?_append hds hfraction, readFraction?_append hf hexponent,
    readExponent?_append he hrest]

theorem of_readUnsigned? (h : readUnsigned? cs = some (ds, tail, rest)) :
    ∃ f e, IsWhole ds ∧ IsFraction f ∧ IsExponent e ∧ tail = f ++ e ∧
      cs = ds ++ (f ++ (e ++ rest)) := by
  unfold readUnsigned? at h
  obtain ⟨⟨whole, cs₁⟩, hread₁, h⟩ := Option.bind_eq_some_iff.1 h
  obtain ⟨⟨f, cs₂⟩, hread₂, h⟩ := Option.bind_eq_some_iff.1 h
  obtain ⟨⟨e, cs₃⟩, hread₃, h⟩ := Option.bind_eq_some_iff.1 h
  cases h
  obtain ⟨hwhole, rfl⟩ := of_readWhole? hread₁
  obtain ⟨hf, rfl⟩ := of_readFraction? hread₂
  obtain ⟨he, rfl⟩ := of_readExponent? hread₃
  exact ⟨f, e, hwhole, hf, he, rfl, rfl⟩

/-- Without a sign, the number is told by what is after its whole part. -/
theorem readNumber?_whole_append (hds : IsWhole ds) (hf : IsFraction f) (he : IsExponent e)
    (hrest : Ends rest) :
    readNumber? (ds ++ (f ++ (e ++ rest))) =
      some (.number (if (f ++ e).isEmpty then .natural (Nat.ofDigitChars 10 ds 0)
        else .other (ds ++ (f ++ e))), rest) := by
  have hread := readUnsigned?_append hds hf he hrest
  obtain ⟨c, tail, rfl, hc⟩ := hds.1.exists_cons
  unfold readNumber?
  split
  next heq =>
    cases heq
    exact absurd hc (by decide)
  next =>
    rw [hread]
    rfl

theorem readNumber?_append {n : JsonNumber} (h : SpellsNumber n cs) (hrest : Ends rest) :
    readNumber? (cs ++ rest) = some (.number n, rest) := by
  cases h with
  | natural whole =>
    exact readNumber?_whole_append whole (.inl rfl) (.inl rfl) hrest
  | broken whole fraction exponent tail =>
    simp only [List.append_assoc]
    rw [readNumber?_whole_append whole fraction exponent hrest,
      if_neg (by rwa [List.isEmpty_iff])]
  | negative whole fraction exponent =>
    simp only [List.cons_append, List.append_assoc]
    show (readUnsigned? _).map _ = _
    rw [readUnsigned?_append whole fraction exponent hrest]
    rfl

theorem of_readNumber? {j : Json} (h : readNumber? cs = some (j, rest)) :
    ∃ n body, j = .number n ∧ SpellsNumber n body ∧ cs = body ++ rest := by
  unfold readNumber? at h
  split at h
  next =>
    obtain ⟨⟨ds, tail, rest'⟩, hread, heq⟩ := Option.map_eq_some_iff.1 h
    cases heq
    obtain ⟨f, e, hds, hf, he, rfl, rfl⟩ := of_readUnsigned? hread
    exact ⟨_, _, rfl, .negative hds hf he, by simp⟩
  next =>
    obtain ⟨⟨ds, tail, rest'⟩, hread, heq⟩ := Option.map_eq_some_iff.1 h
    cases heq
    obtain ⟨f, e, hds, hf, he, rfl, rfl⟩ := of_readUnsigned? hread
    -- Digits alone have a value.
    by_cases htail : f ++ e = []
    · obtain ⟨rfl, rfl⟩ := List.append_eq_nil_iff.1 htail
      exact ⟨_, ds, rfl, .natural hds, rfl⟩
    · refine ⟨_, ds ++ (f ++ e), rfl, ?_, by simp⟩
      rw [if_neg (by rwa [List.isEmpty_iff])]
      exact .broken hds hf he htail

end Digits

/-! ## 3. Strings -/

section Strings

variable {parts : List StringPart} {s : Option String} {cs rest : List Char}

theorem readParts?_append (h : SpellsParts parts cs) (rest : List Char) :
    readParts? (cs ++ rest) = some (parts, rest) := by
  induction h with
  | close => rfl
  | @plain c parts cs hquote hbackslash hcontrol _ ih =>
    show readParts? (c :: (cs ++ rest)) = _
    generalize cs ++ rest = tail at ih
    unfold readParts?
    split
    next heq => cases heq
    next heq => cases heq; exact absurd rfl hquote
    next heq => cases heq; exact absurd rfl hbackslash
    next heq => cases heq; exact absurd rfl hbackslash
    next heq =>
      cases heq
      rw [if_neg (by simp [hbackslash, hcontrol]), ih]
      rfl
  | @escape c e parts cs h _ ih =>
    show readParts? ('\\' :: e :: (cs ++ rest)) = _
    generalize cs ++ rest = tail at ih
    unfold readParts?
    split
    next heq => cases heq
    next heq => cases heq
    -- No character is escaped by the letter of a unit.
    next heq => cases heq; cases h
    next heq =>
      cases heq
      rw [h, ih]
      rfl
    next hne heq =>
      cases heq
      exact (hne _ _ rfl rfl).elim
  | @unit n a b c d parts cs h _ ih =>
    show (Numeral.read? 16 [a, b, c, d] >>= fun n => readParts? (cs ++ rest) >>= fun r =>
      pure (.unit n :: r.1, r.2)) = _
    rw [h, ih]
    rfl

theorem of_readParts? (h : readParts? cs = some (parts, rest)) :
    ∃ body, SpellsParts parts body ∧ cs = body ++ rest := by
  fun_induction readParts? cs generalizing parts with
  | case1 => cases h
  | case2 =>
    cases h
    exact ⟨_, .close, rfl⟩
  | case3 a b c d tail ih =>
    obtain ⟨n, hn, h⟩ := Option.bind_eq_some_iff.1 h
    obtain ⟨⟨parts', rest'⟩, hread, h⟩ := Option.bind_eq_some_iff.1 h
    cases h
    obtain ⟨body, hbody, rfl⟩ := ih hread
    exact ⟨_, .unit hn hbody, rfl⟩
  | case4 e tail _ ih =>
    obtain ⟨c, hc, h⟩ := Option.bind_eq_some_iff.1 h
    obtain ⟨⟨parts', rest'⟩, hread, h⟩ := Option.bind_eq_some_iff.1 h
    cases h
    obtain ⟨body, hbody, rfl⟩ := ih hread
    exact ⟨_, .escape hc hbody, rfl⟩
  | case5 => cases h
  | case6 c tail hquote _ _ hplain ih =>
    obtain ⟨⟨parts', rest'⟩, hread, heq⟩ := Option.map_eq_some_iff.1 h
    cases heq
    obtain ⟨body, hbody, rfl⟩ := ih hread
    obtain ⟨hbackslash, hcontrol⟩ := not_or.1 hplain
    exact ⟨_, .plain hquote hbackslash (Nat.le_of_not_lt hcontrol) hbody, rfl⟩

theorem readString?_append (h : SpellsString s cs) (rest : List Char) :
    readString? (cs ++ rest) = some (s, rest) := by
  obtain ⟨parts, hparts, rfl⟩ := h
  unfold readString?
  rw [readParts?_append hparts]
  rfl

theorem of_readString? (h : readString? cs = some (s, rest)) :
    ∃ body, SpellsString s body ∧ cs = body ++ rest := by
  obtain ⟨⟨parts, rest'⟩, hread, heq⟩ := Option.map_eq_some_iff.1 h
  cases heq
  obtain ⟨body, hbody, rfl⟩ := of_readParts? hread
  exact ⟨body, ⟨parts, hbody, rfl⟩, rfl⟩

end Strings

/-! ## 4. Spellings are read -/

section Values

variable {fuel : Nat} {w cs tail rest : List Char} {j v : Json} {vs : List Json}
  {name : Option String} {ms : List (Option String × Json)}

theorem readValue?_skipSpace (fuel : Nat) (cs : List Char) :
    readValue? fuel (skipSpace cs) = readValue? fuel cs := by
  cases fuel with
  | zero => rfl
  | succ fuel =>
    unfold readValue?
    rw [skipSpace_skipSpace]

theorem readItems?_skipSpace (fuel : Nat) (cs : List Char) :
    readItems? fuel (skipSpace cs) = readItems? fuel cs := by
  cases fuel with
  | zero => rfl
  | succ fuel =>
    unfold readItems?
    rw [readValue?_skipSpace]

theorem readMembers?_skipSpace (fuel : Nat) (cs : List Char) :
    readMembers? fuel (skipSpace cs) = readMembers? fuel cs := by
  cases fuel with
  | zero => rfl
  | succ fuel =>
    unfold readMembers?
    rw [skipSpace_skipSpace]

theorem readValue?_blank_append (hw : IsBlank w) (fuel : Nat) (cs : List Char) :
    readValue? fuel (w ++ cs) = readValue? fuel cs := by
  rw [← readValue?_skipSpace, skipSpace_blank_append hw, readValue?_skipSpace]

theorem readValue?_number {n : JsonNumber} (h : SpellsNumber n cs) (hrest : Ends rest) :
    readValue? (fuel + 1) (cs ++ rest) = some (.number n, rest) := by
  have hread := readNumber?_append h hrest
  obtain ⟨c, tail, rfl, hc⟩ := h.exists_cons
  -- None of the other values begins with a sign or a digit.
  have hspace : skipSpace (c :: (tail ++ rest)) = c :: (tail ++ rest) := by
    rcases hc with rfl | hc
    · rfl
    · exact skipSpace_cons (startsValue_of_isDigit hc).1 _
  show readValue? (fuel + 1) (c :: (tail ++ rest)) = _
  unfold readValue?
  rw [hspace]
  split
  case h_7 => exact hread
  all_goals
    next heq =>
      cases (List.cons.inj heq).1
      exact absurd hc (by decide)

theorem readValue?_bracket (fuel : Nat) (cs : List Char) :
    readValue? (fuel + 1) ('[' :: cs) =
      match skipSpace cs with
      | ']' :: rest => some (.array [], rest)
      | rest => (readItems? fuel rest).map fun (vs, rest) => (.array vs, rest) :=
  rfl

theorem readValue?_brace (fuel : Nat) (cs : List Char) :
    readValue? (fuel + 1) ('\x7b' :: cs) =
      match skipSpace cs with
      | '\x7d' :: rest => some (.object [], rest)
      | rest => (readMembers? fuel rest).map fun (ms, rest) => (.object ms, rest) :=
  rfl

theorem readValue?_array (hstart : ∃ c tail, skipSpace cs = c :: tail ∧ c ≠ ']')
    (hread : readItems? fuel cs = some (vs, rest)) :
    readValue? (fuel + 1) ('[' :: cs) = some (.array vs, rest) := by
  obtain ⟨c, tail, hskip, hc⟩ := hstart
  rw [← readItems?_skipSpace, hskip] at hread
  rw [readValue?_bracket, hskip]
  split
  next heq =>
    cases heq
    exact absurd rfl hc
  next =>
    rw [hread]
    rfl

theorem readValue?_object (hstart : ∃ c tail, skipSpace cs = c :: tail ∧ c ≠ '\x7d')
    (hread : readMembers? fuel cs = some (ms, rest)) :
    readValue? (fuel + 1) ('\x7b' :: cs) = some (.object ms, rest) := by
  obtain ⟨c, tail, hskip, hc⟩ := hstart
  rw [← readMembers?_skipSpace, hskip] at hread
  rw [readValue?_brace, hskip]
  split
  next heq =>
    cases heq
    exact absurd rfl hc
  next =>
    rw [hread]
    rfl

theorem readItems?_last (hw : IsBlank w)
    (hv : readValue? fuel cs = some (v, w ++ ']' :: rest)) :
    readItems? (fuel + 1) cs = some ([v], rest) := by
  have hclose : skipSpace (w ++ ']' :: rest) = ']' :: rest :=
    skipSpace_blank_cons hw (by decide) rest
  simp only [readItems?, hv, hclose]

theorem readItems?_comma (hw : IsBlank w)
    (hv : readValue? fuel cs = some (v, w ++ ',' :: tail))
    (hvs : readItems? fuel tail = some (vs, rest)) :
    readItems? (fuel + 1) cs = some (v :: vs, rest) := by
  have hcomma : skipSpace (w ++ ',' :: tail) = ',' :: tail :=
    skipSpace_blank_cons hw (by decide) tail
  simp only [readItems?, hv, hcomma, hvs, Option.map_some]

section Members

variable {w₀ w₁ text : List Char} (hw₀ : IsBlank w₀)
  (hname : readString? cs = some (name, w₁ ++ ':' :: text)) (hw₁ : IsBlank w₁)
include hw₀ hname hw₁

theorem readMembers?_last (hw : IsBlank w)
    (hv : readValue? fuel text = some (v, w ++ '\x7d' :: rest)) :
    readMembers? (fuel + 1) (w₀ ++ '"' :: cs) = some ([(name, v)], rest) := by
  have hquote : skipSpace (w₀ ++ '"' :: cs) = '"' :: cs := skipSpace_blank_cons hw₀ (by decide) cs
  have hcolon : skipSpace (w₁ ++ ':' :: text) = ':' :: text :=
    skipSpace_blank_cons hw₁ (by decide) text
  have hclose : skipSpace (w ++ '\x7d' :: rest) = '\x7d' :: rest :=
    skipSpace_blank_cons hw (by decide) rest
  simp only [readMembers?, hquote, hname, hcolon, hv, hclose]

theorem readMembers?_comma (hw : IsBlank w)
    (hv : readValue? fuel text = some (v, w ++ ',' :: tail))
    (hms : readMembers? fuel tail = some (ms, rest)) :
    readMembers? (fuel + 1) (w₀ ++ '"' :: cs) = some ((name, v) :: ms, rest) := by
  have hquote : skipSpace (w₀ ++ '"' :: cs) = '"' :: cs := skipSpace_blank_cons hw₀ (by decide) cs
  have hcolon : skipSpace (w₁ ++ ':' :: text) = ':' :: text :=
    skipSpace_blank_cons hw₁ (by decide) text
  have hcomma : skipSpace (w ++ ',' :: tail) = ',' :: tail :=
    skipSpace_blank_cons hw (by decide) tail
  simp only [readMembers?, hquote, hname, hcolon, hv, hcomma, hms, Option.map_some]

end Members

theorem Spells.items_start (h : Spells (.items vs) cs) (rest : List Char) :
    ∃ c tail, skipSpace (cs ++ rest) = c :: tail ∧ c ≠ ']' := by
  cases h with
  | lastItem hw hv | item hw hv =>
    obtain ⟨c, tail, rfl, hspace, hc, -⟩ := hv.startsValue
    simp only [List.append_assoc, List.cons_append]
    rw [skipSpace_blank_cons hw hspace]
    exact ⟨c, _, rfl, hc⟩

theorem Spells.members_start (h : Spells (.members ms) cs) (rest : List Char) :
    ∃ c tail, skipSpace (cs ++ rest) = c :: tail ∧ c ≠ '\x7d' := by
  cases h with
  | lastMember hw | member hw =>
    simp only [List.append_assoc, List.cons_append]
    rw [skipSpace_blank_cons hw (by decide)]
    exact ⟨'"', _, rfl, by decide⟩

end Values

/-- What a spelling is read as.  The fuel may be as little as the characters of the spelling, and
only a number depends on what follows. -/
def ReadsBack : Piece → List Char → Prop
  | .value j, cs => ∀ fuel rest, cs.length ≤ fuel → (∀ n, j = .number n → Ends rest) →
      readValue? fuel (cs ++ rest) = some (j, rest)
  | .items vs, cs => ∀ fuel rest, cs.length ≤ fuel →
      readItems? fuel (cs ++ rest) = some (vs, rest)
  | .members ms, cs => ∀ fuel rest, cs.length ≤ fuel →
      readMembers? fuel (cs ++ rest) = some (ms, rest)

theorem readsBack {p : Piece} {cs : List Char} (h : Spells p cs) : ReadsBack p cs := by
  -- Each reader hands on one unit of fuel less, and has a character of the spelling to show for it.
  induction h with
  | null | true | false =>
    rintro (_ | fuel) rest hfuel -
    · exact absurd hfuel (by decide)
    · rfl
  | number h =>
    rintro (_ | fuel) rest hfuel hrest
    · obtain ⟨c, tail, rfl, -⟩ := h.exists_cons
      exact absurd hfuel (by simp)
    · exact readValue?_number h (hrest _ rfl)
  | string h =>
    rintro (_ | fuel) rest hfuel -
    · exact absurd hfuel (by simp)
    · show (readString? (_ ++ rest)).map _ = _
      rw [readString?_append h]
      rfl
  | emptyArray hw =>
    rintro (_ | fuel) rest hfuel -
    · exact absurd hfuel (by simp)
    · simp only [List.cons_append, List.append_assoc]
      rw [readValue?_bracket, List.nil_append, skipSpace_blank_cons hw (by decide)]
      rfl
  | array h ih =>
    rintro (_ | fuel) rest hfuel -
    · exact absurd hfuel (by simp)
    · exact readValue?_array (h.items_start rest) (ih fuel rest (Nat.le_of_succ_le_succ hfuel))
  | emptyObject hw =>
    rintro (_ | fuel) rest hfuel -
    · exact absurd hfuel (by simp)
    · simp only [List.cons_append, List.append_assoc]
      rw [readValue?_brace, List.nil_append, skipSpace_blank_cons hw (by decide)]
      rfl
  | object h ih =>
    rintro (_ | fuel) rest hfuel -
    · exact absurd hfuel (by simp)
    · exact readValue?_object (h.members_start rest) (ih fuel rest (Nat.le_of_succ_le_succ hfuel))
  | lastItem hw hv hw' ih =>
    rintro (_ | fuel) rest hfuel
    · exact absurd hfuel (by simp)
    · simp only [List.length_append, List.length_cons] at hfuel
      simp only [List.append_assoc, List.cons_append, List.nil_append]
      refine readItems?_last hw' ?_
      -- What follows the item is white space or the bracket, and no number goes on with either.
      rw [readValue?_blank_append hw]
      exact ih fuel _ (by omega) fun _ _ => ends_blank_append hw' (avoids_cons (by decide) _)
  | item hw hv hw' _ ih ihrest =>
    rintro (_ | fuel) rest hfuel
    · exact absurd hfuel (by simp)
    · simp only [List.length_append, List.length_cons] at hfuel
      simp only [List.append_assoc, List.cons_append]
      refine readItems?_comma hw' ?_ (ihrest fuel rest (by omega))
      rw [readValue?_blank_append hw]
      exact ih fuel _ (by omega) fun _ _ => ends_blank_append hw' (avoids_cons (by decide) _)
  | lastMember hw hname hw₁ hw₂ hv hw' ih =>
    rintro (_ | fuel) rest hfuel
    · exact absurd hfuel (by simp)
    · simp only [List.length_append, List.length_cons] at hfuel
      simp only [List.append_assoc, List.cons_append, List.nil_append]
      refine readMembers?_last hw (readString?_append hname _) hw₁ hw' ?_
      rw [readValue?_blank_append hw₂]
      exact ih fuel _ (by omega) fun _ _ => ends_blank_append hw' (avoids_cons (by decide) _)
  | member hw hname hw₁ hw₂ hv hw' _ ih ihrest =>
    rintro (_ | fuel) rest hfuel
    · exact absurd hfuel (by simp)
    · simp only [List.length_append, List.length_cons] at hfuel
      simp only [List.append_assoc, List.cons_append]
      refine readMembers?_comma hw (readString?_append hname _) hw₁ hw' ?_
        (ihrest fuel rest (by omega))
      rw [readValue?_blank_append hw₂]
      exact ih fuel _ (by omega) fun _ _ => ends_blank_append hw' (avoids_cons (by decide) _)

/-! ## 5. Only spellings are read -/

/-- With this fuel, what is taken off a text spells what is read. -/
structure Sound (fuel : Nat) : Prop where
  value : ∀ {cs j rest}, readValue? fuel cs = some (j, rest) →
    ∃ w body, IsBlank w ∧ Spells (.value j) body ∧ cs = w ++ (body ++ rest)
  items : ∀ {cs vs rest}, readItems? fuel cs = some (vs, rest) →
    ∃ body, Spells (.items vs) body ∧ cs = body ++ rest
  members : ∀ {cs ms rest}, readMembers? fuel cs = some (ms, rest) →
    ∃ body, Spells (.members ms) body ∧ cs = body ++ rest

section Soundness

variable {fuel : Nat} {cs rest : List Char}

theorem Sound.array (h : Sound fuel) {j : Json}
    (hread : (match skipSpace cs with
      | ']' :: rest => some (.array [], rest)
      | rest => (readItems? fuel rest).map fun (vs, rest) => (.array vs, rest)) = some (j, rest)) :
    ∃ body, Spells (.value j) ('[' :: body) ∧ cs = body ++ rest := by
  obtain ⟨w, hw, hcs⟩ := exists_blank_skipSpace cs
  split at hread
  next heq =>
    cases hread
    rw [heq] at hcs
    exact ⟨w ++ [']'], .emptyArray hw, by simpa using hcs⟩
  next heq =>
    rw [readItems?_skipSpace] at hread
    obtain ⟨⟨vs, rest'⟩, hitems, heq⟩ := Option.map_eq_some_iff.1 hread
    cases heq
    obtain ⟨body, hbody, hcs⟩ := h.items hitems
    exact ⟨body, .array hbody, hcs⟩

theorem Sound.object (h : Sound fuel) {j : Json}
    (hread : (match skipSpace cs with
      | '\x7d' :: rest => some (.object [], rest)
      | rest => (readMembers? fuel rest).map fun (ms, rest) => (.object ms, rest)) =
        some (j, rest)) :
    ∃ body, Spells (.value j) ('\x7b' :: body) ∧ cs = body ++ rest := by
  obtain ⟨w, hw, hcs⟩ := exists_blank_skipSpace cs
  split at hread
  next heq =>
    cases hread
    rw [heq] at hcs
    exact ⟨w ++ ['\x7d'], .emptyObject hw, by simpa using hcs⟩
  next heq =>
    rw [readMembers?_skipSpace] at hread
    obtain ⟨⟨ms, rest'⟩, hmembers, heq⟩ := Option.map_eq_some_iff.1 hread
    cases heq
    obtain ⟨body, hbody, hcs⟩ := h.members hmembers
    exact ⟨body, .object hbody, hcs⟩

theorem Sound.value_succ (h : Sound fuel) {j : Json}
    (hread : readValue? (fuel + 1) cs = some (j, rest)) :
    ∃ w body, IsBlank w ∧ Spells (.value j) body ∧ cs = w ++ (body ++ rest) := by
  obtain ⟨w, hw, hcs⟩ := exists_blank_skipSpace cs
  -- The white space in front is all that is taken off before the first character decides.
  suffices hbody : ∃ body, Spells (.value j) body ∧ skipSpace cs = body ++ rest by
    obtain ⟨body, hbody, heq⟩ := hbody
    exact ⟨w, body, hw, hbody, heq ▸ hcs⟩
  unfold readValue? at hread
  split at hread
  case h_1 heq =>
    cases hread
    exact ⟨_, .null, heq⟩
  case h_2 heq =>
    cases hread
    exact ⟨_, .true, heq⟩
  case h_3 heq =>
    cases hread
    exact ⟨_, .false, heq⟩
  case h_4 heq =>
    obtain ⟨⟨s, rest'⟩, hstring, hj⟩ := Option.map_eq_some_iff.1 hread
    cases hj
    obtain ⟨body, hbody, rfl⟩ := of_readString? hstring
    exact ⟨_, .string hbody, heq⟩
  case h_5 heq =>
    obtain ⟨body, hbody, rfl⟩ := h.array hread
    exact ⟨_, hbody, heq⟩
  case h_6 heq =>
    obtain ⟨body, hbody, rfl⟩ := h.object hread
    exact ⟨_, hbody, heq⟩
  case h_7 =>
    obtain ⟨n, body, rfl, hbody, heq⟩ := of_readNumber? hread
    exact ⟨body, .number hbody, heq⟩

theorem Sound.items_succ (h : Sound fuel) {vs : List Json}
    (hread : readItems? (fuel + 1) cs = some (vs, rest)) :
    ∃ body, Spells (.items vs) body ∧ cs = body ++ rest := by
  unfold readItems? at hread
  split at hread
  next => cases hread
  next v after hv =>
    obtain ⟨w, body, hw, hbody, rfl⟩ := h.value hv
    obtain ⟨w', hw', hafter⟩ := exists_blank_skipSpace after
    split at hread
    next tail heq =>
      obtain ⟨⟨vs', rest'⟩, hitems, hvs⟩ := Option.map_eq_some_iff.1 hread
      cases hvs
      obtain ⟨tail', htail, rfl⟩ := h.items hitems
      rw [heq] at hafter
      exact ⟨_, .item hw hbody hw' htail, by simp [hafter]⟩
    next tail heq =>
      cases hread
      rw [heq] at hafter
      exact ⟨_, .lastItem hw hbody hw', by simp [hafter]⟩
    next => cases hread

theorem Sound.members_succ (h : Sound fuel) {ms : List (Option String × Json)}
    (hread : readMembers? (fuel + 1) cs = some (ms, rest)) :
    ∃ body, Spells (.members ms) body ∧ cs = body ++ rest := by
  obtain ⟨w, hw, hcs⟩ := exists_blank_skipSpace cs
  unfold readMembers? at hread
  split at hread
  next key hquote =>
    rw [hquote] at hcs
    split at hread
    next => cases hread
    next name afterName hname =>
      obtain ⟨key', hkey, rfl⟩ := of_readString? hname
      obtain ⟨w₁, hw₁, hafterName⟩ := exists_blank_skipSpace afterName
      split at hread
      next text hcolon =>
        rw [hcolon] at hafterName
        split at hread
        next => cases hread
        next v afterValue hv =>
          obtain ⟨w₂, body, hw₂, hbody, rfl⟩ := h.value hv
          obtain ⟨w', hw', hafterValue⟩ := exists_blank_skipSpace afterValue
          split at hread
          next tail heq =>
            obtain ⟨⟨ms', rest'⟩, hmembers, hms⟩ := Option.map_eq_some_iff.1 hread
            cases hms
            obtain ⟨tail', htail, rfl⟩ := h.members hmembers
            rw [heq] at hafterValue
            exact ⟨_, .member hw hkey hw₁ hw₂ hbody hw' htail,
              by simp [hcs, hafterName, hafterValue]⟩
          next tail heq =>
            cases hread
            rw [heq] at hafterValue
            exact ⟨_, .lastMember hw hkey hw₁ hw₂ hbody hw',
              by simp [hcs, hafterName, hafterValue]⟩
          next => cases hread
      next => cases hread
  next => cases hread

theorem sound (fuel : Nat) : Sound fuel := by
  -- The three readers call each other with one unit less, so they are sound together.
  induction fuel with
  | zero => exact ⟨nofun, nofun, nofun⟩
  | succ fuel ih => exact ⟨ih.value_succ, ih.items_succ, ih.members_succ⟩

end Soundness

/-! ## 6. Whole texts -/

theorem ends_of_isBlank {w : List Char} (hw : IsBlank w) : Ends w := by
  have h := ends_blank_append hw (avoids_nil continuesNumber)
  rwa [List.append_nil] at h

theorem parse?_append {text : String} {j : Json} {w cs rest : List Char} (hw : IsBlank w)
    (h : Spells (.value j) cs) (hrest : ∀ n, j = .number n → Ends rest)
    (htext : text.toList = w ++ (cs ++ rest)) :
    parse? text = if (skipSpace rest).isEmpty then some j else none := by
  have hlength : text.length = w.length + (cs.length + rest.length) := by
    rw [← String.length_toList, htext, List.length_append, List.length_append]
  -- The fuel is more than the length of the text.
  have hread : readValue? (2 * text.length + 2) text.toList = some (j, rest) := by
    rw [htext, readValue?_blank_append hw]
    exact readsBack h _ rest (by omega) hrest
  unfold parse?
  rw [hread]

/-- A text has the value that is read from it, and no other. -/
theorem parse?_eq_some_iff {text : String} {j : Json} : parse? text = some j ↔ IsText j text := by
  constructor
  · intro h
    unfold parse? at h
    split at h
    next v rest hread =>
      split at h
      next hempty =>
        cases h
        obtain ⟨w, cs, hw, hcs, htext⟩ := (sound _).value hread
        exact ⟨w, cs, rest, hw, hcs, skipSpace_eq_nil_iff.1 (List.isEmpty_iff.1 hempty), htext⟩
      next => cases h
    next => cases h
  · rintro ⟨w, cs, w', hw, hcs, hw', htext⟩
    rw [parse?_append hw hcs (fun _ _ => ends_of_isBlank hw') htext,
      skipSpace_eq_nil_iff.2 hw']
    rfl

theorem IsText.unique {text : String} {j j' : Json} (h : IsText j text) (h' : IsText j' text) :
    j = j' :=
  Option.some.inj ((parse?_eq_some_iff.2 h).symm.trans (parse?_eq_some_iff.2 h'))

/-- After an object there may only be white space. -/
theorem IsText.not_isText_append {ms : List (Option String × Json)} {j : Json}
    {text rest : String} (h : IsText (.object ms) text) (hrest : ¬ IsBlank rest.toList) :
    ¬ IsText j (text ++ rest) := by
  intro hj
  obtain ⟨w, cs, w', hw, hcs, hw', heq⟩ := h
  have hafter : ¬ IsBlank (w' ++ rest.toList) := fun hblank =>
    hrest fun ch hch => hblank ch (List.mem_append_right _ hch)
  have happend : (text ++ rest).toList = w ++ (cs ++ (w' ++ rest.toList)) := by simp [heq]
  have hnone : parse? (text ++ rest) = none := by
    rw [parse?_append hw hcs nofun happend,
      if_neg (by rwa [List.isEmpty_iff, skipSpace_eq_nil_iff])]
  rw [parse?_eq_some_iff.2 hj] at hnone
  cases hnone

end Handheld.Json
