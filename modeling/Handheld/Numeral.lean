/-!
# Numerals

Reading a number from the digits of a base, and writing one with a fixed count of hexadecimal
digits.  Numbers in base ten are written by `Nat.repr`.
-/

namespace Handheld.Numeral

/-- The value of a digit, letters of either case counting from ten. -/
def digit? (base : Nat) (c : Char) : Option Nat :=
  let d :=
    if '0' ≤ c ∧ c ≤ '9' then c.toNat - 48
    else if 'a' ≤ c ∧ c ≤ 'z' then c.toNat - 87
    else if 'A' ≤ c ∧ c ≤ 'Z' then c.toNat - 55
    else base
  if d < base then some d else none

/-- The number that a sequence of digits continues when `n` stands before it. -/
def continue? (base n : Nat) : List Char → Option Nat
  | [] => some n
  | c :: cs => (digit? base c).bind fun d => continue? base (base * n + d) cs

def read? (base : Nat) : List Char → Option Nat
  | [] => none
  | cs => continue? base 0 cs

def hexDigit (d : Nat) : Char := if d < 10 then Char.ofNat (48 + d) else Char.ofNat (55 + d)

/-- The last `width` hexadecimal digits of `n`, highest first. -/
def hexDigits : Nat → Nat → List Char
  | 0, _ => []
  | width + 1, n => hexDigits width (n / 16) ++ [hexDigit (n % 16)]

/-- `0x` and the last `width` hexadecimal digits of `n`. -/
def hex (width n : Nat) : String := String.ofList ('0' :: 'x' :: hexDigits width n)

end Handheld.Numeral
