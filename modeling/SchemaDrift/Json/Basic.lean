/-!
# JSON values

Values of the JSON data format. Numbers without sign, fraction and exponent are natural numbers;
every other number keeps its spelling. The members of an object stay in the order written.
-/

namespace SchemaDrift

/-- A JSON value. -/
inductive Json
  | null
  | bool (b : Bool)
  | nat (n : Nat)
  | number (spelling : String)
  | string (s : String)
  | array (items : List Json)
  | object (members : List (String × Json))
deriving Inhabited

namespace Json

/-- The value of the last member with a name, if the value is an object that has one. -/
def member? (name : String) : Json → Option Json
  | object members => (members.reverse.find? fun m => m.1 == name).map (·.2)
  | _ => none

/-- A list of texts. -/
def strings (xs : List String) : Json :=
  array (xs.map string)

/-- A text, or null for none. -/
def optional : Option String → Json
  | none => null
  | some s => string s

end Json

end SchemaDrift
