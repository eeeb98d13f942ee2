import FleetControl.Json.Reader
import FleetControl.Binary64.Shortest
import FleetControl.Text.Quoted

/-!
# Fitting JSON to records

A record is read from an object by the names of its fields, or from an array by their order.

1. `Fault` says why a text does not fit; `Fault.message` words it.
2. `Slots.ofTree` finds the tree of each field: a field may have several names but may be given only
   once; names that belong to no field are passed over, or collected by `Slots.ofOpenTree`.
3. `Slots.required`, `Slots.defaulted` and `Slots.optional` say what an absent field means.
4. `read` reads a text and fits it.
-/

namespace FleetControl.Json

/-- Why a text or a value does not fit a record. -/
inductive Fault where
  | malformed (place : Place)
  | noValue
  | tooDeep
  | missingField (name : String)
  | duplicateField (name : String)
  | wrongType (found expected : String)
  | wrongLength (expected : Nat)
  | outOfRange (n : Int)
  | stated (reason : String)
  deriving DecidableEq, Repr, Inhabited

def Fault.message : Fault → String
  | .malformed place =>
    "malformed text at line " ++ toString place.line ++ " column " ++ toString place.column
  | .noValue => "a number or string without a value"
  | .tooDeep => "recursion limit exceeded"
  | .missingField name => "missing field `" ++ name ++ "`"
  | .duplicateField name => "duplicate field `" ++ name ++ "`"
  | .wrongType found expected => "invalid type: " ++ found ++ ", expected " ++ expected
  | .wrongLength expected => "invalid length, expected " ++ toString expected ++ " elements"
  | .outOfRange n => "integer " ++ toString n ++ " out of range"
  | .stated reason => reason

/-! ## Naming what was found -/

/-- The name of what was found in a place where something else belongs. -/
def Tree.found : Tree → String
  | .null => "null"
  | .bool b => "boolean `" ++ (if b then "true" else "false") ++ "`"
  | .number none => "number"
  | .number (some (.int n)) => "integer `" ++ String.ofList (intCharsOf n) ++ "`"
  | .number (some (.float x)) =>
    "floating point `" ++ String.ofList (DecimalStyle.scientific.render x) ++ "`"
  | .string none => "string"
  | .string (some s) => "string " ++ Text.shown s
  | .array _ => "sequence"
  | .object _ => "map"
where
  /-- The digits of an integer. -/
  intCharsOf (n : Int) : List Char :=
    match n with
    | .ofNat k => Nat.toDigits 10 k
    | .negSucc k => '-' :: Nat.toDigits 10 (k + 1)

/-! ## Scalars and collections -/

/-- A way to read something from a tree that may nest `depth` deep. -/
abbrev Decoder (α : Type) := Nat → Tree → Except Fault α

namespace Decoder

def string : Decoder String
  | _, .string (some s) => .ok s
  | _, .string none => .error .noValue
  | _, t => .error (.wrongType t.found "a string")

/-- An unsigned number of 32 bits. -/
def nat32 : Decoder Nat
  | _, .number (some (.int n)) =>
    if 0 ≤ n && n < UInt32.size then .ok n.toNat else .error (.outOfRange n)
  | _, .number none => .error .noValue
  | _, t => .error (.wrongType t.found "u32")

/-- Null stands for nothing. -/
def nullable {α : Type} (decoder : Decoder α) : Decoder (Option α)
  | _, .null => .ok none
  | depth, t => (decoder depth t).map some

/-- The items of an array, each read the same way. -/
def list {α : Type} (decoder : Decoder α) : Decoder (List α)
  | 0, .array _ => .error .tooDeep
  | depth + 1, .array items => items.mapM (decoder depth)
  | _, t => .error (.wrongType t.found "a sequence")

/-- Any value, with sorted objects. -/
def anyValue : Decoder Json := fun depth t =>
  match t.toJson? depth with
  | some v => .ok v
  | none => .error .noValue

def keyOf : Option String → Except Fault String
  | some key => .ok key
  | none => .error .noValue

/-- A map from strings, sorted, the last of two pairs with one key winning. -/
def mapOf {α : Type} (decoder : Decoder α) : Decoder (Dictionary α)
  | 0, .object _ => .error .tooDeep
  | depth + 1, .object fields =>
    fields.foldlM (fun acc kv => do
      let key ← keyOf kv.1
      let value ← decoder depth kv.2
      pure (acc.insert key value)) ([] : Dictionary α)
  | _, t => .error (.wrongType t.found "a map")

def fieldMap : Decoder Fields :=
  mapOf anyValue

end Decoder

/-! ## Records -/

/-- The accepted names of a field, the one that is written first. -/
abbrev FieldNames := List String

/-- The trees of a record's fields. -/
structure Slots where
  /-- How deep the fields may nest. -/
  depth : Nat
  /-- Whether the record was given as an array. -/
  positional : Bool
  /-- The tree of each field that is there, by position. -/
  trees : List (Option Tree)
  /-- The pairs that belong to no field. -/
  others : List (String × Tree)

namespace Slots

def position? (names : List FieldNames) (key : String) : Option Nat :=
  names.findIdx? (·.contains key)

/-- Puts the pairs of an object into their fields. -/
def place (names : List FieldNames) :
    List (Option String × Tree) → List (Option Tree) → List (String × Tree) →
      Except Fault (List (Option Tree) × List (String × Tree))
  | [], trees, others => .ok (trees, others.reverse)
  | (none, _) :: _, _, _ => .error .noValue
  | (some key, value) :: rest, trees, others =>
    match position? names key with
    | none => place names rest trees ((key, value) :: others)
    | some i =>
      match trees[i]? with
      | some none => place names rest (trees.set i (some value)) others
      | _ => .error (.duplicateField ((names[i]?.bind (·.head?)).getD key))

def ofObject (names : List FieldNames) (depth : Nat) (fields : List (Option String × Tree)) :
    Except Fault Slots := do
  let (trees, others) ← place names fields (names.map fun _ => none) []
  pure ⟨depth, false, trees, others⟩

/-- The fields of a record given as an object, or as an array in their order. -/
def ofTree (record : String) (names : List FieldNames) : Decoder Slots
  | 0, .object _ => .error .tooDeep
  | 0, .array _ => .error .tooDeep
  | depth + 1, .object fields => ofObject names depth fields
  | depth + 1, .array items =>
    if names.length < items.length then .error (.wrongLength names.length)
    else
      .ok ⟨depth, true, items.map some ++ List.replicate (names.length - items.length) none, []⟩
  | _, t => .error (.wrongType t.found ("struct " ++ record))

/-- The fields of a record that keeps the pairs it has no field for; only an object will do. -/
def ofOpenTree (record : String) (names : List FieldNames) : Decoder Slots
  | 0, .object _ => .error .tooDeep
  | depth + 1, .object fields => ofObject names depth fields
  | _, t => .error (.wrongType t.found ("struct " ++ record))

def tree? (slots : Slots) (i : Nat) : Option Tree :=
  slots.trees[i]?.join

def required {α : Type} (slots : Slots) (i : Nat) (name : String) (decoder : Decoder α) :
    Except Fault α :=
  match slots.tree? i with
  | none => .error (.missingField name)
  | some t => decoder slots.depth t

/-- A field with a value for when it is absent. -/
def defaulted {α : Type} (slots : Slots) (i : Nat) (default : α) (decoder : Decoder α) :
    Except Fault α :=
  match slots.tree? i with
  | none => .ok default
  | some t => decoder slots.depth t

/-- A field that may be null, and absent from an object but not from an array. -/
def optional {α : Type} (slots : Slots) (i : Nat) (decoder : Decoder α) : Except Fault (Option α) :=
  match slots.tree? i with
  | none => if slots.positional then .error (.wrongLength slots.trees.length) else .ok none
  | some t => Decoder.nullable decoder slots.depth t

/-- The values of the pairs that belong to no field, sorted. -/
def rest (slots : Slots) : Except Fault Fields :=
  slots.others.foldlM (fun acc kv => do
    let value ← Decoder.anyValue slots.depth kv.2
    pure (acc.insert kv.1 value)) ([] : Fields)

end Slots

def read {α : Type} (decoder : Decoder α) (s : String) : Except Fault α :=
  match Tree.parse s with
  | .error place => .error (.malformed place)
  | .ok t => decoder maxDepth t

def ofValue {α : Type} (decoder : Decoder α) (value : Json) : Except Fault α :=
  let t := Tree.ofJson value
  decoder t.depth t

end FleetControl.Json
