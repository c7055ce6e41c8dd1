import Handheld.Json
import Handheld.Numeral

/-!
# Reading structured text

A reader takes a value off the front of a text and returns the rest.  White space may stand between
the parts; a number has no leading zeros, a comma stands only between two parts, and a control
character inside a string is an error.  Nesting has no limit: the fuel of the recursive functions is
twice the length of the text, and every second step takes a character.
-/

namespace Handheld.Json

/-! ## 1. Space and numbers -/

/-- A text without the white space in front. -/
def skipSpace (cs : List Char) : List Char := cs.dropWhile isSpace

def readDigits? (cs : List Char) : Option (List Char × List Char) :=
  match cs.takeWhile Char.isDigit with
  | [] => none
  | digits => some (digits, cs.dropWhile Char.isDigit)

/-- The whole part of a number: digits, of which a leading zero is the only one. -/
def readWhole? (cs : List Char) : Option (List Char × List Char) :=
  match readDigits? cs with
  | some ('0' :: _ :: _, _) => none
  | result => result

/-- The fraction of a number, which may be missing. -/
def readFraction? : List Char → Option (List Char × List Char)
  | '.' :: cs => (readDigits? cs).map fun (digits, rest) => ('.' :: digits, rest)
  | cs => some ([], cs)

/-- The sign and digits of an exponent. -/
def readPower? : List Char → Option (List Char × List Char)
  | '+' :: cs => (readDigits? cs).map fun (digits, rest) => ('+' :: digits, rest)
  | '-' :: cs => (readDigits? cs).map fun (digits, rest) => ('-' :: digits, rest)
  | cs => readDigits? cs

/-- The exponent of a number, which may be missing. -/
def readExponent? : List Char → Option (List Char × List Char)
  | 'e' :: cs => (readPower? cs).map fun (power, rest) => ('e' :: power, rest)
  | 'E' :: cs => (readPower? cs).map fun (power, rest) => ('E' :: power, rest)
  | cs => some ([], cs)

/-- A number without its sign: the whole part, what follows it, and the rest of the text. -/
def readUnsigned? (cs : List Char) : Option (List Char × List Char × List Char) := do
  let (whole, cs) ← readWhole? cs
  let (fraction, cs) ← readFraction? cs
  let (exponent, cs) ← readExponent? cs
  return (whole, fraction ++ exponent, cs)

def readNumber? (cs : List Char) : Option (Json × List Char) :=
  match cs with
  | '-' :: cs =>
    (readUnsigned? cs).map fun (whole, tail, rest) =>
      (.number (.other ('-' :: whole ++ tail)), rest)
  | cs =>
    (readUnsigned? cs).map fun (whole, tail, rest) =>
      (.number (if tail.isEmpty then .natural (Nat.ofDigitChars 10 whole 0)
        else .other (whole ++ tail)), rest)

/-! ## 2. Strings -/

/-- The parts of a string after its opening quote. -/
def readParts? : List Char → Option (List StringPart × List Char)
  | [] => none
  | '"' :: rest => some ([], rest)
  | '\\' :: 'u' :: a :: b :: c :: d :: rest => do
    let n ← Numeral.read? 16 [a, b, c, d]
    let (parts, rest) ← readParts? rest
    return (.unit n :: parts, rest)
  | '\\' :: c :: rest => do
    let c ← unescape? c
    let (parts, rest) ← readParts? rest
    return (.char c :: parts, rest)
  | c :: rest =>
    if c = '\\' ∨ c.toNat < 32 then none
    else (readParts? rest).map fun (parts, rest) => (.char c :: parts, rest)

/-- A string after its opening quote. -/
def readString? (cs : List Char) : Option (Option String × List Char) :=
  (readParts? cs).map fun (parts, rest) => ((charsOfParts? parts).map String.ofList, rest)

/-! ## 3. Values -/

mutual

def readValue? : Nat → List Char → Option (Json × List Char)
  | 0, _ => none
  | fuel + 1, cs =>
    match skipSpace cs with
    | 'n' :: 'u' :: 'l' :: 'l' :: rest => some (.null, rest)
    | 't' :: 'r' :: 'u' :: 'e' :: rest => some (.bool true, rest)
    | 'f' :: 'a' :: 'l' :: 's' :: 'e' :: rest => some (.bool false, rest)
    | '"' :: rest => (readString? rest).map fun (s, rest) => (.string s, rest)
    | '[' :: rest =>
      match skipSpace rest with
      | ']' :: rest => some (.array [], rest)
      | rest => (readItems? fuel rest).map fun (items, rest) => (.array items, rest)
    | '\x7b' :: rest =>
      match skipSpace rest with
      | '\x7d' :: rest => some (.object [], rest)
      | rest => (readMembers? fuel rest).map fun (members, rest) => (.object members, rest)
    | rest => readNumber? rest

/-- The items of an array up to its closing bracket. -/
def readItems? : Nat → List Char → Option (List Json × List Char)
  | 0, _ => none
  | fuel + 1, cs =>
    match readValue? fuel cs with
    | none => none
    | some (v, rest) =>
      match skipSpace rest with
      | ',' :: rest => (readItems? fuel rest).map fun (vs, rest) => (v :: vs, rest)
      | ']' :: rest => some ([v], rest)
      | _ => none

/-- The members of an object up to its closing brace. -/
def readMembers? : Nat → List Char → Option (List (Option String × Json) × List Char)
  | 0, _ => none
  | fuel + 1, cs =>
    match skipSpace cs with
    | '"' :: rest =>
      match readString? rest with
      | none => none
      | some (name, rest) =>
        match skipSpace rest with
        | ':' :: rest =>
          match readValue? fuel rest with
          | none => none
          | some (v, rest) =>
            match skipSpace rest with
            | ',' :: rest =>
              (readMembers? fuel rest).map fun (members, rest) => ((name, v) :: members, rest)
            | '\x7d' :: rest => some ([(name, v)], rest)
            | _ => none
        | _ => none
    | _ => none

end

def parse? (text : String) : Option Json :=
  match readValue? (2 * text.length + 2) text.toList with
  | some (v, rest) => if (skipSpace rest).isEmpty then some v else none
  | none => none

end Handheld.Json
