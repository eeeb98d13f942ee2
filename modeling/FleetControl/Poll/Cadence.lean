/-!
# The rhythm of polling

Times are in milliseconds.

1. `Cadence.ofTick` is the rhythm in use: a tick of zero means the default.
2. `Cadence.ticksWithin` counts the ticks of a pause: at `0`, `tick`, `2 * tick`, … strictly before
   its end.
3. `deadline?` is the end of a pause on the clock of the process, which ends after `2 ^ 63` seconds.
4. `intervalOfSecs` is the interval that a configured number of seconds means.
-/

namespace FleetControl

/-- The time between polls and between two ticks of the animation. -/
structure Cadence where
  interval : Nat
  tick : Nat
  deriving DecidableEq, Repr, Inhabited

/-- Ten seconds between polls. -/
def defaultInterval : Nat := 10000

/-- A tenth of a second between ticks. -/
def defaultTick : Nat := 100

/-- The first moment past the clock of a process. -/
def clockEnd : Nat := Nat.pow 2 63 * 1000

/-- The end of a pause, if the clock reaches it. -/
def deadline? (now interval : Nat) : Option Nat :=
  if now + interval < clockEnd then some (now + interval) else none

/-- The interval that a number of seconds means; nothing and zero mean the default. -/
def intervalOfSecs (secs : Option Nat) (default : Nat) : Nat :=
  match secs with
  | none => default
  | some 0 => default
  | some n => n * 1000

namespace Cadence

/-- The rhythm with a tick of zero replaced by the default. -/
def ofTick (interval tick : Nat) : Cadence :=
  ⟨interval, if tick = 0 then defaultTick else tick⟩

def ofInterval (interval : Nat) : Cadence :=
  ofTick interval defaultTick

/-- How many ticks fall into a pause: those strictly before its end. -/
def ticksWithin (cadence : Cadence) (length : Nat) : Nat :=
  (length + cadence.tick - 1) / cadence.tick

end Cadence

end FleetControl
