import FleetControl.Binary64.Basic
import FleetControl.Text.Dictionary

/-!
# JSON values

1. `Json` is a value; an object is a list of pairs in the order in which they are written.
2. `Json.Fields` are the pairs of an object as a dictionary.
3. `Json.normal` sorts every object of a value, the last of two pairs with one key winning.
-/

namespace FleetControl

/-- A JSON value. Integers keep all their digits, every other number is a double. -/
inductive Json where
  | null
  | bool (b : Bool)
  | int (n : Int)
  | float (x : Binary64)
  | string (s : String)
  | array (items : List Json)
  | object (fields : List (String × Json))
  deriving Repr, Inhabited

namespace Json

/-- The sorted pairs of an object. -/
abbrev Fields := Dictionary Json

mutual
/-- The value with every object sorted, the last of two pairs with one key winning. -/
def normal : Json → Json
  | .array items => .array (normalItems items)
  | .object fields => .object (normalFields fields [])
  | value => value

def normalItems : List Json → List Json
  | [] => []
  | item :: rest => item.normal :: normalItems rest

/-- The normal forms of pairs, inserted into sorted pairs. -/
def normalFields : List (String × Json) → Fields → Fields
  | [], acc => acc
  | (key, value) :: rest, acc => normalFields rest (acc.insert key value.normal)
end

/-- A pair that is written only if there is a value. -/
def optional (key : String) (value : Option Json) : List (String × Json) :=
  match value with
  | none => []
  | some v => [(key, v)]

def strings (items : List String) : Json :=
  .array (items.map .string)

def nat (n : Nat) : Json :=
  .int n

/-- The string of an optional text, or null. -/
def stringOrNull : Option String → Json
  | none => .null
  | some s => .string s

end Json

end FleetControl
