import SchemaDrift.Json.Token

/-!
# Reading JSON texts

Values are read from tokens by descent: a value is a single token, an array of values or an object
of named values. The depth of the descent is bounded by the number of tokens.
-/

namespace SchemaDrift.Json

mutual

/-- The value at the head of a token list, and the tokens behind it. -/
def readValue : (depth : Nat) → List Token → Option (Json × List Token)
  | 0, _ => none
  | depth + 1, t :: ts =>
    match t with
    | .null => some (null, ts)
    | .bool b => some (bool b, ts)
    | .nat n => some (nat n, ts)
    | .number spelling => some (number spelling, ts)
    | .string s => some (string s, ts)
    | .mark c =>
      if c = '[' then
        if ts.head? = some (.mark ']') then some (array [], ts.tail)
        else (readItems depth ts).map fun r => (array r.1, r.2)
      else if c = '{' then
        if ts.head? = some (.mark '}') then some (object [], ts.tail)
        else (readMembers depth ts).map fun r => (object r.1, r.2)
      else none
  | _ + 1, [] => none

/-- The items of an array up to its closing bracket. -/
def readItems : (depth : Nat) → List Token → Option (List Json × List Token)
  | 0, _ => none
  | depth + 1, ts =>
    match readValue depth ts with
    | some (v, .mark ',' :: ts) => (readItems depth ts).map fun r => (v :: r.1, r.2)
    | some (v, .mark ']' :: ts) => some ([v], ts)
    | _ => none

/-- The members of an object up to its closing brace. -/
def readMembers : (depth : Nat) → List Token → Option (List (String × Json) × List Token)
  | depth + 1, .string k :: .mark ':' :: ts =>
    match readValue depth ts with
    | some (v, .mark ',' :: ts) => (readMembers depth ts).map fun r => ((k, v) :: r.1, r.2)
    | some (v, .mark '}' :: ts) => some ([(k, v)], ts)
    | _ => none
  | _, _ => none

end

/-- The value that a text denotes. -/
def ofText? (s : String) : Option Json := do
  let tokens ← Token.ofText? s.toList
  let (v, rest) ← readValue (2 * tokens.length) tokens
  if rest.isEmpty then some v else none

end SchemaDrift.Json
