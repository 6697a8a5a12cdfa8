import Mathlib.Algebra.Group.Int.Defs
import Mathlib.Data.List.Basic
import Mathlib.Data.String.Basic

/-!
# JSON values

The `serde_json` values the daemon reads parameters from and hashes: `Value`, its text
rendering, and the canonical rendering with sorted keys that the request hash commits to.
Object members are kept as an association list; a member is looked up by its first
occurrence, which is unambiguous because the source's map holds each key once.
-/

namespace Sysknife

/-- A JSON value. Floating-point numbers are carried by their rendering. -/
inductive Value
  | null
  | bool (b : Bool)
  | int (n : ℤ)
  | float (text : String)
  | str (s : String)
  | arr (items : List Value)
  | obj (members : List (String × Value))
  deriving Repr

namespace Value

/-- The member of an object under `key`. -/
def get (key : String) : Value → Option Value
  | .obj members => members.lookup key
  | _ => none

/-- The value as text. -/
def asStr : Value → Option String
  | .str s => some s
  | _ => none

/-- The value as an array. -/
def asArray : Value → Option (List Value)
  | .arr items => some items
  | _ => none

/-- The value as an unsigned 64-bit number. -/
def asU64 : Value → Option ℕ
  | .int n => if 0 ≤ n ∧ n < 2 ^ 64 then some n.toNat else none
  | _ => none

/-- The items of an array of strings; anything else is refused. -/
def asStrings : Value → Option (List String)
  | .arr items => items.mapM asStr
  | _ => none

/-- Escape of one character in a JSON string. -/
def escapeChar (c : Char) : String :=
  if c = '"' then "\\\""
  else if c = '\\' then "\\\\"
  else if c = '\n' then "\\n"
  else if c = '\r' then "\\r"
  else if c = '\t' then "\\t"
  else if c.toNat = 8 then "\\b"
  else if c.toNat = 12 then "\\f"
  else if c.toNat < 16 then "\\u000" ++ String.ofList (Nat.toDigits 16 c.toNat)
  else if c.toNat < 32 then "\\u00" ++ String.ofList (Nat.toDigits 16 c.toNat)
  else String.singleton c

/-- A JSON string literal. -/
def quote (s : String) : String := "\"" ++ String.join (s.toList.map escapeChar) ++ "\""

/-- Text of a JSON array of strings. -/
def renderStrings (items : List String) : String :=
  "[" ++ String.intercalate "," (items.map quote) ++ "]"

mutual

/-- Canonical rendering: object keys in sorted order at every level, arrays in their own. -/
def canonicalJson : Value → String
  | .null => "null"
  | .bool b => if b then "true" else "false"
  | .int n => toString n
  | .float text => text
  | .str s => quote s
  | .arr items => "[" ++ String.intercalate "," (canonicalItems items) ++ "]"
  | .obj members =>
    let pairs := (canonicalMembers members).mergeSort fun a b => decide (a.1 ≤ b.1)
    "\x7b" ++ String.intercalate "," (pairs.map fun p => quote p.1 ++ ":" ++ p.2) ++ "\x7d"

/-- The renderings of the items of an array. -/
def canonicalItems : List Value → List String
  | [] => []
  | v :: vs => canonicalJson v :: canonicalItems vs

/-- The members of an object, each value rendered. -/
def canonicalMembers : List (String × Value) → List (String × String)
  | [] => []
  | (k, v) :: ms => (k, canonicalJson v) :: canonicalMembers ms

end

end Value

end Sysknife
