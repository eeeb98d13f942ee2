/-!
# TOML documents

A document is a table of named values. How a table came to be decides what may still be added to it.

1. `Value` is a value, `Fields` the pairs of a table in the order in which they were written.
2. `Fields.openTable` and `Fields.openItem` are the two kinds of header; `Fields.assign` is a pair
   under a header. Each fails where the document would say something twice.
-/

namespace FleetControl.Toml

/-- How a table came to be. -/
inductive Origin where
  /-- By a header of its own. -/
  | header
  /-- By the header of a table below it. -/
  | implied
  /-- By a dotted key. -/
  | dotted
  /-- In braces; nothing is added to it later. -/
  | inline
  deriving DecidableEq, Repr, Inhabited

/-- A value. A float and a moment are kept as they are written. -/
inductive Value where
  | string (s : String)
  | integer (n : Int)
  | float (written : String)
  | bool (b : Bool)
  | moment (written : String)
  | array (items : List Value)
  | table (origin : Origin) (fields : List (String × Value))
  /-- Tables that each have a header in double brackets. -/
  | tables (items : List (List (String × Value)))
  deriving Repr, Inhabited

abbrev Fields := List (String × Value)

namespace Fields

def get? (fields : Fields) (key : String) : Option Value :=
  fields.lookup key

def replace (fields : Fields) (key : String) (value : Value) : Fields :=
  fields.map fun (k, v) => if k = key then (k, value) else (k, v)

def add (fields : Fields) (key : String) (value : Value) : Fields :=
  fields ++ [(key, value)]

/-- Changes the table at a key: a table that may be entered, or the last of several. -/
def inside (fields : Fields) (key : String) (value : Value) (f : Fields → Option Fields) :
    Option Fields :=
  match value with
  | .table .inline _ => none
  | .table origin sub => (f sub).map fun sub => fields.replace key (.table origin sub)
  | .tables items =>
    match items.getLast? with
    | none => none
    | some last => (f last).map fun last => fields.replace key (.tables (items.dropLast ++ [last]))
  | _ => none

/-- Walks to the table that holds the last key of a header; tables on the way are implied. -/
def walk (f : Fields → String → Option Fields) : List String → Fields → Option Fields
  | [], _ => none
  | [key], fields => f fields key
  | key :: rest, fields =>
    match fields.get? key with
    | none => (walk f rest []).map fun sub => fields.add key (.table .implied sub)
    | some value => fields.inside key value (walk f rest)

/-- A header in single brackets: the table must not have one yet. -/
def openTable (path : List String) (fields : Fields) : Option Fields :=
  walk (fun fields key =>
    match fields.get? key with
    | none => some (fields.add key (.table .header []))
    | some (.table .implied sub) => some (fields.replace key (.table .header sub))
    | some _ => none) path fields

/-- A header in double brackets: one more table at its place. -/
def openItem (path : List String) (fields : Fields) : Option Fields :=
  walk (fun fields key =>
    match fields.get? key with
    | none => some (fields.add key (.tables [[]]))
    | some (.tables items) => some (fields.replace key (.tables (items ++ [[]])))
    | some _ => none) path fields

/-- Whether a dotted key may go through a value, and whether it may end right below it. -/
def passable : Value → Bool × Bool
  | .table .dotted _ => (true, true)
  | .table .implied _ => (true, false)
  | .tables _ => (true, false)
  | _ => (false, false)

/-- A pair with a dotted key; `direct` is whether this table takes pairs of its own. -/
def assignKey (value : Value) : Bool → List String → Fields → Option Fields
  | _, [], _ => none
  | direct, [key], fields =>
    if !direct || (fields.get? key).isSome then none else some (fields.add key value)
  | _, key :: rest, fields =>
    match fields.get? key with
    | none => (assignKey value true rest []).map fun sub => fields.add key (.table .dotted sub)
    | some there =>
      let (through, direct) := passable there
      if through then fields.inside key there (assignKey value direct rest) else none

/-- A pair with a dotted key in the table that the last header opened. -/
def assign (value : Value) (key : List String) : List String → Fields → Option Fields
  | [], fields => assignKey value true key fields
  | name :: rest, fields =>
    match fields.get? name with
    | none => none
    | some there => fields.inside name there (assign value key rest)

end Fields

end FleetControl.Toml
