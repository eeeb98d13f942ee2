import FleetControl.Error
import FleetControl.Json.Reader

/-!
# Arguments of the form KEY=VALUE

The key is what stands before the first `=`, without the blanks around it; the value is everything
after it.

1. `Pairs.params` gives an object: a value that is JSON keeps its type, any other is a string.
2. `Pairs.texts` gives texts as they stand.
3. Both take the last of two pairs with one key, and both refuse a pair without `=` or without a
   key.
-/

namespace FleetControl.Pairs

def split (pair : String) : Except ArgumentFault (String × String) :=
  match Text.split? '=' pair with
  | none => .error (.notAPair pair)
  | some (front, value) =>
    let key := Text.trim front
    if key.isEmpty then .error (.emptyKey pair) else .ok (key, value)

/-- The value that a text means: JSON if it is JSON, else the text. -/
def paramValue (raw : String) : Json :=
  (Json.parse? raw).getD (.string raw)

def params (pairs : List String) : Except ArgumentFault Json.Fields :=
  pairs.foldlM (fun acc pair => do
    let (key, raw) ← split pair
    pure (acc.insert key (paramValue raw))) ([] : Json.Fields)

/-- The texts by key; a pair without a key is worded like one without `=`. -/
def texts (pairs : List String) : Except ArgumentFault (Dictionary String) :=
  pairs.foldlM (fun acc pair =>
    match split pair with
    | .ok (key, value) => .ok (acc.insert key value)
    | .error _ => .error (.notAPair pair)) ([] : Dictionary String)

end FleetControl.Pairs
