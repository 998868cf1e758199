import SchemaDrift.Collection.SortedMap
import SchemaDrift.Json.Basic

/-!
# Decoding JSON values

Sets are written as arrays, which may be out of order and repeat elements. A record is written as
an object, whose further members are ignored, or as the array of its fields.
-/

namespace SchemaDrift.Json

variable {α : Type}

/-- The text that a value is. -/
def asText? : Json → Option String
  | string s => some s
  | _ => none

/-- The text that a value is, or none for null. -/
def asOptionalText? : Json → Option (Option String)
  | null => some none
  | string s => some (some s)
  | _ => none

/-- The number that a value is, if it fits in sixty-four bits. -/
def asCount? : Json → Option Nat
  | nat n => if n < 18446744073709551616 then some n else none
  | _ => none

/-- The decoded items of an array. -/
def asList? (item? : Json → Option α) : Json → Option (List α)
  | array xs => xs.mapM item?
  | _ => none

/-- The set of the texts in an array. -/
def asTextSet? (v : Json) : Option (SortedSet String) :=
  (v.asList? asText?).map SortedSet.ofList

/-- The decoded members of an object. -/
def asMap? (value? : Json → Option α) : Json → Option (SortedMap String α)
  | object ms => (ms.mapM fun m => (value? m.2).map (m.1, ·)).map SortedMap.ofList
  | _ => none

/-- The values of the fields of a record, as far as they are given. -/
def asRecord? (fields : List String) : Json → Option (List (Option Json))
  | object ms => some (fields.map fun f => (object ms).member? f)
  | array xs => if xs.length = fields.length then some (xs.map some) else none
  | _ => none

end SchemaDrift.Json
