import Handheld.Numeral
import Handheld.Word

/-!
# Looking at a machine

A host looks at a machine by path: a text names one property, and the answer is a value of the
property's own width.  Looking never changes anything; in particular it leaves the data lines alone.
-/

namespace Handheld

inductive Value where
  | bool (b : Bool)
  | byte (v : Byte)
  | half (v : Half)
  | word (v : Word)
  | count (n : UInt64)
  | text (s : String)
deriving DecidableEq, Repr

namespace Value

/-- How a value is shown: bytes, halfwords and words in hexadecimal with all their digits, counts
in decimal. -/
def display : Value → String
  | bool b => if b then "true" else "false"
  | byte v => Numeral.hex 2 v.toNat
  | half v => Numeral.hex 4 v.toNat
  | word v => Numeral.hex 8 v.toNat
  | count n => n.toNat.repr
  | text s => s

end Value

namespace AddressText

/-- A number of the given base that fits an address, which may have one plus sign in front. -/
def number? (base : Nat) (cs : List Char) : Option Word :=
  let digits :=
    match cs with
    | '+' :: rest => rest
    | rest => rest
  (Numeral.read? base digits).bind fun n => if n < UInt32.size then some (UInt32.ofNat n) else none

/-- The address that a text names: hexadecimal after `0x`, `0X` or a dollar sign, and decimal
otherwise.  Underscores are passed over wherever they stand. -/
def parse? (text : String) : Option Word :=
  match text.toList.filter (· != '_') with
  | '0' :: 'x' :: digits => number? 16 digits
  | '0' :: 'X' :: digits => number? 16 digits
  | '$' :: digits => number? 16 digits
  | digits => number? 10 digits

end AddressText

/-- What follows `start` in `path`, if the path begins with it. -/
def after? (start path : String) : Option String :=
  (start.toList.isPrefixOf? path.toList).map String.ofList

end Handheld
