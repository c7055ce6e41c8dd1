import Handheld.Word

/-!
# The adder

Every addition and subtraction of the processor goes through one adder with a carry in.
Subtraction adds the complement, so the carry out of a subtraction means "no borrow".
-/

namespace Handheld

/-- A 32-bit result with the carry and overflow that belong to it. -/
structure AluResult where
  value : Word
  carry : Bool
  overflow : Bool
deriving DecidableEq, Repr

namespace Alu

/-- `a + b`, plus one if `carry` is set.  The carry out is bit 32 of the sum; overflow is set when
both operands have a sign that the result does not have. -/
def add (a b : Word) (carry : Bool) : AluResult :=
  let wide := a.toUInt64 + b.toUInt64 + carry.toUInt64
  let value := wide.toUInt32
  { value
    carry := decide (0xFFFFFFFF < wide)
    overflow := Word.bit (~~~(a ^^^ b) &&& (a ^^^ value)) 31 }

/-- `a - b`, less one if `carry` is clear. -/
def sub (a b : Word) (carry : Bool) : AluResult := add a (~~~b) carry

end Alu

end Handheld
