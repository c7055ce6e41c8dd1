import Handheld.Json.Record
import Handheld.Json.Writer
import Handheld.Word

/-!
# Codecs

States and configurations are written as text and read back by a codec, which is not theirs: it
knows the notation, and finds numbers, lists and records in values.  They only say which fields they
have and what stands in each.  `plain` is a codec with nothing to spare.
-/

namespace Handheld

structure Codec where
  /-- The text of a value. -/
  write : Json → String
  /-- What a reader finds in the value of a text. -/
  read? {α : Type} (item? : Json → Option α) (text : String) : Option α
  /-- A number below a bound. -/
  natBelow? (bound : Nat) (j : Json) : Option Nat
  bool? (j : Json) : Option Bool
  /-- An item, or `null` in its place. -/
  orNull? {α : Type} (item? : Json → Option α) (j : Json) : Option (Option α)
  list? {α : Type} (item? : Json → Option α) (j : Json) : Option (List α)
  /-- A list of a fixed length. -/
  vector? {α : Type} (n : Nat) (item? : Json → Option α) (j : Json) : Option (Vector α n)
  /-- What is given for each field of a record, in the order of the names. -/
  record? (names : List String) (j : Json) : Option (List (Option Json))
  /-- A field that may be left out, for which the default then stands. -/
  field? {α : Type} (item? : Json → Option α) (default : α) (given : Option Json) : Option α

namespace Codec

def plain : Codec where
  write := Json.toText
  read? item? text := (Json.parse? text).bind item?
  natBelow? := Json.natBelow?
  bool? := Json.bool?
  orNull? := Json.orNull?
  list? := Json.list?
  vector? := Json.vector?
  record? := Json.record?
  field? := Json.field?

section Numbers

variable (codec : Codec) (j : Json)

def byte? : Option Byte := (codec.natBelow? UInt8.size j).map UInt8.ofNat

def half? : Option Half := (codec.natBelow? UInt16.size j).map UInt16.ofNat

def word? : Option Word := (codec.natBelow? UInt32.size j).map UInt32.ofNat

def long? : Option UInt64 := (codec.natBelow? UInt64.size j).map UInt64.ofNat

end Numbers

end Codec

end Handheld
