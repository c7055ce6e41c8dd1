/-!
# Structured text

The values of the JSON notation, as far as this library tells them apart, and what its characters
stand for.  A number is a natural number in plain digits or anything else, of which only the
spelling is kept.  A string with an unpaired surrogate escape has no characters; it is `none`.
Members of an object keep their order, and a name may come twice.
-/

namespace Handheld

/-! ## 1. Values -/

inductive JsonNumber where
  /-- Plain digits. -/
  | natural (n : Nat)
  /-- A spelling with a sign, a fraction or an exponent. -/
  | other (spelling : List Char)
deriving DecidableEq, Repr

inductive Json where
  | null
  | bool (b : Bool)
  | number (n : JsonNumber)
  | string (s : Option String)
  | array (items : List Json)
  | object (members : List (Option String × Json))

namespace Json

def ofNat (n : Nat) : Json := number (.natural n)

/-- An object whose names are ordinary strings. -/
def ofMembers (members : List (String × Json)) : Json :=
  object (members.map fun (name, v) => (some name, v))

def ofVector {α : Type} {n : Nat} (item : α → Json) (v : Vector α n) : Json :=
  array (v.toList.map item)

/-! ## 2. Characters -/

/-- The four characters that may stand between parts. -/
def isSpace (c : Char) : Bool := c == ' ' || c == '\n' || c == '\t' || c == '\r'

/-- A part of a string: a character, or a 16-bit unit given by its number. -/
inductive StringPart where
  | char (c : Char)
  | unit (n : Nat)

/-- What a character stands for after a backslash. -/
def unescape? : Char → Option Char
  | '"' => some '"'
  | '\\' => some '\\'
  | '/' => some '/'
  | 'b' => some '\x08'
  | 'f' => some '\x0c'
  | 'n' => some '\n'
  | 'r' => some '\r'
  | 't' => some '\t'
  | _ => none

/-- Whether a unit is the first of a surrogate pair. -/
def isHighSurrogate (n : Nat) : Bool := 0xD800 ≤ n && n ≤ 0xDBFF

/-- Whether a unit is the second of a surrogate pair. -/
def isLowSurrogate (n : Nat) : Bool := 0xDC00 ≤ n && n ≤ 0xDFFF

/-- The characters that parts stand for; an unpaired surrogate stands for none. -/
def charsOfParts? : List StringPart → Option (List Char)
  | [] => some []
  | .char c :: parts => (charsOfParts? parts).map (c :: ·)
  | .unit n :: parts =>
    if isHighSurrogate n then
      match parts with
      | .unit low :: parts =>
        if isLowSurrogate low then
          (charsOfParts? parts).map
            (Char.ofNat (0x10000 + 0x400 * (n - 0xD800) + (low - 0xDC00)) :: ·)
        else none
      | _ => none
    else if isLowSurrogate n then none
    else (charsOfParts? parts).map (Char.ofNat n :: ·)

end Json

end Handheld
