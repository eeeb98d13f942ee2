import FleetControl.Json.Basic

/-!
# JSON texts as trees

A `Tree` is what a JSON text says before it has been fitted to anything. It keeps what only matters
once a part is used: pairs with the same key, numbers past the largest double, strings with half a
surrogate pair, and any depth of nesting.

1. `Tree.ofJson` views a value as a tree.
2. `Tree.toJson?` gives the value of a tree with sorted objects; it fails on a number or a string
   without a value and on a nesting deeper than allowed.
-/

namespace FleetControl.Json

/-- A number with its value. -/
inductive Number where
  | int (n : Int)
  | float (x : Binary64)
  deriving DecidableEq, Repr, Inhabited

/-- What a JSON text says. A number is `none` past the largest double, a string is `none` if an
escape in it is half a surrogate pair only. -/
inductive Tree where
  | null
  | bool (b : Bool)
  | number (value : Option Number)
  | string (value : Option String)
  | array (items : List Tree)
  | object (fields : List (Option String × Tree))
  deriving Repr, Inhabited

/-- The deepest nesting of arrays and objects that is read. -/
def maxDepth : Nat := 127

mutual
def Tree.ofJson : Json → Tree
  | .null => .null
  | .bool b => .bool b
  | .int n => .number (some (.int n))
  | .float x => .number (some (.float x))
  | .string s => .string (some s)
  | .array items => .array (Tree.ofItems items)
  | .object fields => .object (Tree.ofFields fields)

def Tree.ofItems : List Json → List Tree
  | [] => []
  | item :: rest => Tree.ofJson item :: Tree.ofItems rest

def Tree.ofFields : List (String × Json) → List (Option String × Tree)
  | [] => []
  | (key, value) :: rest => (some key, Tree.ofJson value) :: Tree.ofFields rest
end

namespace Tree

mutual
/-- The value of a tree with sorted objects, nesting at most `depth` deep. -/
def toJson? (depth : Nat) : Tree → Option Json
  | .null => some .null
  | .bool b => some (.bool b)
  | .number none => none
  | .number (some (.int n)) => some (.int n)
  | .number (some (.float x)) => some (.float x)
  | .string none => none
  | .string (some s) => some (.string s)
  | .array items =>
    match depth with
    | 0 => none
    | d + 1 => (itemsToJson? d items).map .array
  | .object fields =>
    match depth with
    | 0 => none
    | d + 1 => (fieldsToJson? d fields []).map .object

def itemsToJson? (depth : Nat) : List Tree → Option (List Json)
  | [] => some []
  | item :: rest =>
    match item.toJson? depth, itemsToJson? depth rest with
    | some v, some vs => some (v :: vs)
    | _, _ => none

/-- The values of pairs, inserted into sorted pairs. -/
def fieldsToJson? (depth : Nat) : List (Option String × Tree) → Fields → Option Fields
  | [], acc => some acc
  | (none, _) :: _, _ => none
  | (some key, value) :: rest, acc =>
    match value.toJson? depth with
    | none => none
    | some v => fieldsToJson? depth rest (acc.insert key v)
end

mutual
/-- How deeply arrays and objects nest in a tree. -/
def depth : Tree → Nat
  | .array items => itemsDepth items + 1
  | .object fields => fieldsDepth fields + 1
  | _ => 0

def itemsDepth : List Tree → Nat
  | [] => 0
  | item :: rest => max item.depth (itemsDepth rest)

def fieldsDepth : List (Option String × Tree) → Nat
  | [] => 0
  | (_, value) :: rest => max value.depth (fieldsDepth rest)
end

end Tree

end FleetControl.Json
