import Handheld.Json

/-!
# Writing structured text

The written form has no spaces and keeps the order of members.
-/

namespace Handheld.Json

/-- A character inside a string. -/
def escaped (c : Char) : List Char :=
  if c = '"' then ['\\', '"']
  else if c = '\\' then ['\\', '\\']
  else if c.toNat < 32 then
    ['\\', 'u', '0', '0', Nat.digitChar (c.toNat / 16), Nat.digitChar (c.toNat % 16)]
  else [c]

/-- A string in quotes. -/
def writeString : Option String → List Char
  | some s => '"' :: s.toList.flatMap escaped ++ ['"']
  | none => ['"', '\\', 'u', 'd', '8', '0', '0', '"']

mutual

def write : Json → List Char
  | null => ['n', 'u', 'l', 'l']
  | bool true => ['t', 'r', 'u', 'e']
  | bool false => ['f', 'a', 'l', 's', 'e']
  | number (.natural n) => Nat.toDigits 10 n
  | number (.other spelling) => spelling
  | string s => writeString s
  | array items => '[' :: writeItems items
  | object members => '\x7b' :: writeMembers members

/-- The rest of an array after its opening bracket. -/
def writeItems : List Json → List Char
  | [] => [']']
  | [v] => write v ++ [']']
  | v :: vs => write v ++ ',' :: writeItems vs

/-- The rest of an object after its opening brace. -/
def writeMembers : List (Option String × Json) → List Char
  | [] => ['\x7d']
  | [(name, v)] => writeString name ++ ':' :: (write v ++ ['\x7d'])
  | (name, v) :: rest => writeString name ++ ':' :: (write v ++ ',' :: writeMembers rest)

end

def toText (j : Json) : String := String.ofList (write j)

end Handheld.Json
