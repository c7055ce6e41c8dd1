import Handheld.Json.Reader

/-!
# Records in structured text

What a program expects to find in a value: numbers below a bound, lists of a fixed length, and
records.  A record is written as an object or as an array of its fields in order.  In an object the
fields come in any order, unknown names are passed over and a field given twice is an error; in an
array fields may be missing at the end, and there may be none too many.
-/

namespace Handheld.Json

def natBelow? (bound : Nat) : Json → Option Nat
  | number (.natural n) => if n < bound then some n else none
  | _ => none

def bool? : Json → Option Bool
  | bool b => some b
  | _ => none

/-- A value that may be missing, written as `null`. -/
def orNull? {α : Type} (item? : Json → Option α) : Json → Option (Option α)
  | null => some none
  | j => (item? j).map some

def list? {α : Type} (item? : Json → Option α) : Json → Option (List α)
  | array items => items.mapM item?
  | _ => none

def vector? {α : Type} (n : Nat) (item? : Json → Option α) (j : Json) : Option (Vector α n) :=
  (j.list? item?).bind fun items =>
    if h : items.length = n then some ⟨items.toArray, by simpa using h⟩ else none

/-- The members of an object, if all names are ordinary strings. -/
def named? (members : List (Option String × Json)) : Option (List (String × Json)) :=
  members.mapM fun (name, v) => name.map (·, v)

/-- The value given to a name, if any; a name given twice is an error. -/
def member? (members : List (String × Json)) (name : String) : Option (Option Json) :=
  match members.filter (·.1 == name) with
  | [] => some none
  | [(_, v)] => some (some v)
  | _ => none

/-- The fields of a record, in the order of `names`; those that are missing are `none`. -/
def record? (names : List String) : Json → Option (List (Option Json))
  | object members => (named? members).bind fun members => names.mapM (member? members)
  | array items =>
    if items.length ≤ names.length then
      some (items.map some ++ List.replicate (names.length - items.length) none)
    else none
  | _ => none

/-- A field that may be left out, for which `default` then stands. -/
def field? {α : Type} (item? : Json → Option α) (default : α) : Option Json → Option α
  | some j => item? j
  | none => some default

end Handheld.Json
