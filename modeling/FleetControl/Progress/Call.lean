/-!
# Calls on a progress display

A display shows one spinner for each resource and is driven by calls alone.

1. `Call` lists them.
2. `Recording` views a list of calls: which keys were created, how they were resolved, which notes
   were shown and what text a key showed last. Animation ticks leave no record.
-/

namespace FleetControl

/-- The final state of a spinner. -/
inductive Outcome where
  | success
  | error
  deriving DecidableEq, Repr, Inhabited

def Outcome.text : Outcome → String
  | .success => "success"
  | .error => "error"

/-- A call on a display. -/
inductive Call where
  | create (key text : String)
  | update (key text : String)
  | resolve (key : String) (outcome : Outcome) (text : String)
  | note (text : String)
  | tick
  deriving DecidableEq, Repr, Inhabited

namespace Call

def isRecorded : Call → Bool
  | .tick => false
  | _ => true

/-- The key and the text that a call shows for it. -/
def shown? : Call → Option (String × String)
  | .create key text => some (key, text)
  | .update key text => some (key, text)
  | .resolve key _ text => some (key, text)
  | .note _ => none
  | .tick => none

def key? (call : Call) : Option String :=
  call.shown?.map (·.1)

end Call

namespace Recording

def recorded (calls : List Call) : List Call :=
  calls.filter Call.isRecorded

/-- The keys in the order in which their spinners were created. -/
def createdKeys (calls : List Call) : List String :=
  calls.filterMap fun
    | .create key _ => some key
    | _ => none

/-- The keys with their outcomes in the order in which they were resolved. -/
def resolutions (calls : List Call) : List (String × Outcome) :=
  calls.filterMap fun
    | .resolve key outcome _ => some (key, outcome)
    | _ => none

def notes (calls : List Call) : List String :=
  calls.filterMap fun
    | .note text => some text
    | _ => none

def lastText? (calls : List Call) (key : String) : Option String :=
  calls.foldl (fun last call =>
    match call.shown? with
    | some (k, text) => if k = key then some text else last
    | none => last) none

end Recording

end FleetControl
