import Handheld.Json
import Handheld.Numeral

/-!
# The grammar of structured text

Which texts spell which value, said without the reader.  White space may stand around every part, a
character of a string has several spellings, and an object keeps its members in order.  `IsText` is
the relation between a whole text and its value.
-/

namespace Handheld.Json

/-! ## 1. Space and numbers -/

def IsBlank (w : List Char) : Prop := ∀ c ∈ w, isSpace c = true

def AreDigits (ds : List Char) : Prop := ds ≠ [] ∧ ∀ c ∈ ds, c.isDigit = true

/-- Digits, of which a leading zero is the only one. -/
def IsWhole (ds : List Char) : Prop := AreDigits ds ∧ (ds.head? = some '0' → ds = ['0'])

def IsFraction (cs : List Char) : Prop := cs = [] ∨ ∃ ds, AreDigits ds ∧ cs = '.' :: ds

def IsPower (cs : List Char) : Prop :=
  AreDigits cs ∨ ∃ sign ds, (sign = '+' ∨ sign = '-') ∧ AreDigits ds ∧ cs = sign :: ds

def IsExponent (cs : List Char) : Prop :=
  cs = [] ∨ ∃ e power, (e = 'e' ∨ e = 'E') ∧ IsPower power ∧ cs = e :: power

/-- A number of digits alone has a value; of any other the spelling is kept. -/
inductive SpellsNumber : JsonNumber → List Char → Prop where
  | natural {ds : List Char} (whole : IsWhole ds) :
      SpellsNumber (.natural (Nat.ofDigitChars 10 ds 0)) ds
  | broken {ds f e : List Char} (whole : IsWhole ds) (fraction : IsFraction f)
      (exponent : IsExponent e) (tail : f ++ e ≠ []) :
      SpellsNumber (.other (ds ++ (f ++ e))) (ds ++ (f ++ e))
  | negative {ds f e : List Char} (whole : IsWhole ds) (fraction : IsFraction f)
      (exponent : IsExponent e) :
      SpellsNumber (.other ('-' :: (ds ++ (f ++ e)))) ('-' :: (ds ++ (f ++ e)))

/-! ## 2. Strings -/

/-- The parts of a string, spelled up to and with the closing quote. -/
inductive SpellsParts : List StringPart → List Char → Prop where
  | close : SpellsParts [] ['"']
  | plain {c : Char} {parts : List StringPart} {cs : List Char} (quote : c ≠ '"')
      (backslash : c ≠ '\\') (control : 32 ≤ c.toNat) (rest : SpellsParts parts cs) :
      SpellsParts (.char c :: parts) (c :: cs)
  | escape {c e : Char} {parts : List StringPart} {cs : List Char} (h : unescape? e = some c)
      (rest : SpellsParts parts cs) : SpellsParts (.char c :: parts) ('\\' :: e :: cs)
  | unit {n : Nat} {a b c d : Char} {parts : List StringPart} {cs : List Char}
      (h : Numeral.read? 16 [a, b, c, d] = some n) (rest : SpellsParts parts cs) :
      SpellsParts (.unit n :: parts) ('\\' :: 'u' :: a :: b :: c :: d :: cs)

/-- A string, spelled after its opening quote. -/
def SpellsString (s : Option String) (cs : List Char) : Prop :=
  ∃ parts, SpellsParts parts cs ∧ (charsOfParts? parts).map String.ofList = s

/-! ## 3. Values -/

/-- What a text may spell: a value, or the parts of an array or object after the opening bracket, of
which there is at least one. -/
inductive Piece where
  | value (j : Json)
  | items (vs : List Json)
  | members (ms : List (Option String × Json))

inductive Spells : Piece → List Char → Prop where
  | null : Spells (.value .null) ['n', 'u', 'l', 'l']
  | true : Spells (.value (.bool true)) ['t', 'r', 'u', 'e']
  | false : Spells (.value (.bool false)) ['f', 'a', 'l', 's', 'e']
  | number {n : JsonNumber} {cs : List Char} (h : SpellsNumber n cs) :
      Spells (.value (.number n)) cs
  | string {s : Option String} {cs : List Char} (h : SpellsString s cs) :
      Spells (.value (.string s)) ('"' :: cs)
  | emptyArray {w : List Char} (hw : IsBlank w) : Spells (.value (.array [])) ('[' :: (w ++ [']']))
  | array {vs : List Json} {cs : List Char} (h : Spells (.items vs) cs) :
      Spells (.value (.array vs)) ('[' :: cs)
  | emptyObject {w : List Char} (hw : IsBlank w) :
      Spells (.value (.object [])) ('\x7b' :: (w ++ ['\x7d']))
  | object {ms : List (Option String × Json)} {cs : List Char} (h : Spells (.members ms) cs) :
      Spells (.value (.object ms)) ('\x7b' :: cs)
  -- The parts of a container run up to its closing bracket, which belongs to the last of them.
  | lastItem {v : Json} {w cs w' : List Char} (hw : IsBlank w) (hv : Spells (.value v) cs)
      (hw' : IsBlank w') : Spells (.items [v]) (w ++ (cs ++ (w' ++ [']'])))
  | item {v : Json} {vs : List Json} {w cs w' tail : List Char} (hw : IsBlank w)
      (hv : Spells (.value v) cs) (hw' : IsBlank w') (rest : Spells (.items vs) tail) :
      Spells (.items (v :: vs)) (w ++ (cs ++ (w' ++ ',' :: tail)))
  | lastMember {name : Option String} {v : Json} {w key w₁ w₂ cs w' : List Char} (hw : IsBlank w)
      (hname : SpellsString name key) (hw₁ : IsBlank w₁) (hw₂ : IsBlank w₂)
      (hv : Spells (.value v) cs) (hw' : IsBlank w') :
      Spells (.members [(name, v)])
        (w ++ '"' :: (key ++ (w₁ ++ ':' :: (w₂ ++ (cs ++ (w' ++ ['\x7d']))))))
  | member {name : Option String} {v : Json} {ms : List (Option String × Json)}
      {w key w₁ w₂ cs w' tail : List Char} (hw : IsBlank w) (hname : SpellsString name key)
      (hw₁ : IsBlank w₁) (hw₂ : IsBlank w₂) (hv : Spells (.value v) cs) (hw' : IsBlank w')
      (rest : Spells (.members ms) tail) :
      Spells (.members ((name, v) :: ms))
        (w ++ '"' :: (key ++ (w₁ ++ ':' :: (w₂ ++ (cs ++ (w' ++ ',' :: tail))))))

/-- The text spells the value, with white space around it. -/
def IsText (j : Json) (text : String) : Prop :=
  ∃ w cs w', IsBlank w ∧ Spells (.value j) cs ∧ IsBlank w' ∧ text.toList = w ++ (cs ++ w')

/-- Values without anything odd: `null`, truth values, numbers in plain digits, strings of characters,
and lists and named members of such values. -/
inductive Ordinary : Json → Prop where
  | null : Ordinary .null
  | bool (b : Bool) : Ordinary (.bool b)
  | ofNat (n : Nat) : Ordinary (.ofNat n)
  | string (s : String) : Ordinary (.string (some s))
  | array {vs : List Json} (h : ∀ v ∈ vs, Ordinary v) : Ordinary (.array vs)
  | ofMembers {ms : List (String × Json)} (h : ∀ m ∈ ms, Ordinary m.2) : Ordinary (.ofMembers ms)

theorem Ordinary.ofVector {α : Type} {n : Nat} {item : α → Json} (h : ∀ a, Ordinary (item a))
    (v : Vector α n) : Ordinary (ofVector item v) :=
  .array fun w hw => by
    obtain ⟨a, -, rfl⟩ := List.mem_map.1 hw
    exact h a

/-! ## 4. Blanks and beginnings -/

theorem isBlank_nil : IsBlank [] := fun _ h => absurd h List.not_mem_nil

/-- A character that a value may begin with. -/
def startsValue (c : Char) : Prop := isSpace c = false ∧ c ≠ ']' ∧ c ≠ '\x7d'

instance (c : Char) : Decidable (startsValue c) := inferInstanceAs (Decidable (_ ∧ _))

theorem startsValue_of_isDigit {c : Char} (h : c.isDigit = true) : startsValue c := by
  refine ⟨?_, ?_, ?_⟩
  · cases hspace : isSpace c with
    | false => rfl
    | true =>
      simp only [isSpace, Bool.or_eq_true, beq_iff_eq] at hspace
      rcases hspace with ((rfl | rfl) | rfl) | rfl <;> exact absurd h (by decide)
  · rintro rfl
    exact absurd h (by decide)
  · rintro rfl
    exact absurd h (by decide)

theorem AreDigits.exists_cons {ds : List Char} (h : AreDigits ds) :
    ∃ c tail, ds = c :: tail ∧ c.isDigit = true := by
  obtain ⟨c, tail, rfl⟩ := List.exists_cons_of_ne_nil h.1
  exact ⟨c, tail, rfl, h.2 c List.mem_cons_self⟩

theorem SpellsNumber.exists_cons {n : JsonNumber} {cs : List Char} (h : SpellsNumber n cs) :
    ∃ c tail, cs = c :: tail ∧ (c = '-' ∨ c.isDigit = true) := by
  cases h with
  | natural whole =>
    obtain ⟨c, tail, rfl, hc⟩ := whole.1.exists_cons
    exact ⟨c, tail, rfl, .inr hc⟩
  | broken whole =>
    obtain ⟨c, tail, rfl, hc⟩ := whole.1.exists_cons
    exact ⟨c, _, rfl, .inr hc⟩
  | negative => exact ⟨'-', _, rfl, .inl rfl⟩

/-- A value begins with a character of its own. -/
theorem Spells.startsValue {j : Json} {cs : List Char} (h : Spells (.value j) cs) :
    ∃ c tail, cs = c :: tail ∧ Json.startsValue c := by
  cases h with
  | null | true | false | string _ | emptyArray _ | array _ | emptyObject _ | object _ =>
    exact ⟨_, _, rfl, by decide⟩
  | number h =>
    obtain ⟨c, tail, rfl, rfl | hc⟩ := h.exists_cons
    · exact ⟨_, _, rfl, by decide⟩
    · exact ⟨c, tail, rfl, startsValue_of_isDigit hc⟩

end Handheld.Json
