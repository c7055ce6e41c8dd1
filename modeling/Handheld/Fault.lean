/-!
# Faults reported to the host

Stepping and bus access never fail.  Only images that do not fit their window, and a buffer too
small for a frame, are refused.
-/

namespace Handheld

inductive Fault where
  | romTooLarge (bytes : Nat)
  | biosTooLarge (bytes : Nat)
  | frameTooSmall (needed actual : Nat)
deriving DecidableEq, Repr

def Fault.message : Fault → String
  | romTooLarge bytes =>
    "cartridge image is " ++ bytes.repr ++ " bytes, larger than the 32 MiB ROM window"
  | biosTooLarge bytes => "BIOS image is " ++ bytes.repr ++ " bytes, larger than 16 KiB"
  | frameTooSmall needed actual =>
    "frame buffer too small: need " ++ needed.repr ++ " pixels, got " ++ actual.repr

end Handheld
