import FleetControl.Progress.Call
import FleetControl.Text.Sink

/-!
# Spinners on a terminal

On a terminal every resource has a row that is drawn anew in place; elsewhere each change is a line
of its own.

1. `Terminal.apply` takes one call. It writes to a `Text.Sink`; a write that fails stops that
   drawing and nothing else.
2. `Terminal.redraw` climbs to the first row and draws all rows; `drawn` is how far to climb.
3. Escape sequences: `up`, `columnZero`, `clearLine`, `clearBelow` and the colours.
-/

namespace FleetControl

/-- A row of the display; `outcome` is `none` while it spins. -/
structure Row where
  text : String
  outcome : Option Outcome
  deriving DecidableEq, Repr, Inhabited

/-- A display on a terminal or a plain stream. -/
structure Terminal where
  interactive : Bool
  sink : Text.Sink
  rows : List Row
  /-- The row of each key, the latest first. -/
  index : List (String × Nat)
  /-- How often the animation has moved, modulo the range of a machine word. -/
  frame : Nat
  /-- How many rows stand above the cursor. -/
  drawn : Nat
  deriving Repr, Inhabited

namespace Terminal

/-! ## Glyphs and escape sequences -/

def frames : List String := ["⠋", "⠙", "⠹", "⠸", "⠼", "⠴", "⠦", "⠧", "⠇", "⠏"]

/-- An escape sequence with its arguments and its final letter. -/
def escape (body : String) : String := "\x1b[" ++ body

def up (n : Nat) : String := escape (toString n ++ "A")

def columnZero : String := escape "1G"

def clearLine : String := escape "2K"

def clearBelow : String := escape "J"

def colour (n : Nat) : String := escape ("38;5;" ++ toString n ++ "m")

def reset : String := escape "0m"

def green : Nat := 10

def red : Nat := 9

def yellow : Nat := 11

def cyan : Nat := 14

def outcomeStyle : Outcome → Nat × String
  | .success => (green, "✓")
  | .error => (red, "✗")

def maxClimb : Nat := 65535

def frameRange : Nat := UInt64.size

/-! ## Drawing -/

def new (interactive : Bool) (sink : Text.Sink) : Terminal :=
  ⟨interactive, sink, [], [], 0, 0⟩

def glyph (colourNumber : Nat) (symbol : String) : List String :=
  [colour colourNumber, symbol, reset]

def rowPieces (frame : Nat) (row : Row) : List String :=
  let mark := match row.outcome with
    | none => glyph cyan (frames.getD (frame % frames.length) "")
    | some outcome => glyph (outcomeStyle outcome).1 (outcomeStyle outcome).2
  [columnZero, clearLine] ++ mark ++ [" ", row.text, "\n"]

def climbPieces (drawn : Nat) : List String :=
  if drawn = 0 then [] else [up drawn]

/-- Writes pieces; the flag is false if the writer refused some. -/
def write (t : Terminal) (pieces : List String) : Terminal × Bool :=
  let (sink, ok) := t.sink.writeAll pieces
  ({ t with sink }, ok)

def redraw (t : Terminal) : Terminal :=
  let (t, ok) := t.write (climbPieces t.drawn ++ t.rows.flatMap (rowPieces t.frame))
  if ok then { t with drawn := min t.rows.length maxClimb } else t

/-- Writes a note above the rows and draws the rows again below it. -/
def noteAbove (t : Terminal) (text : String) : Terminal :=
  let (t, ok) := t.write
    (climbPieces t.drawn ++ [columnZero, clearBelow] ++ glyph yellow "!" ++ [" ", text, "\n"])
  if ok then redraw { t with drawn := 0 } else t

def line (t : Terminal) (symbol text : String) : Terminal :=
  (t.write [symbol ++ " " ++ text ++ "\n"]).1

/-- Draws after a change: in place on a terminal, else as a line. -/
def draw (t : Terminal) (symbol text : String) : Terminal :=
  if t.interactive then t.redraw else t.line symbol text

/-! ## Calls -/

def rowOf? (t : Terminal) (key : String) : Option Nat :=
  t.index.lookup key

def isSpinning (t : Terminal) : Bool :=
  t.rows.any fun row => row.outcome.isNone

def setRow (t : Terminal) (i : Nat) (row : Row) : Terminal :=
  { t with rows := t.rows.set i row }

/-- Takes one call. A call for an unknown key changes nothing, an update to the same text neither,
and a tick only moves a terminal on which some row still spins. -/
def apply (t : Terminal) : Call → Terminal
  | .create key text =>
    draw { t with
      rows := t.rows ++ [⟨text, none⟩]
      index := (key, t.rows.length) :: t.index } "○" text
  | .update key text =>
    match t.rowOf? key with
    | none => t
    | some i =>
      match t.rows[i]? with
      | none => t
      | some row => if row.text = text then t else draw (t.setRow i { row with text }) "◐" text
  | .resolve key outcome text =>
    match t.rowOf? key with
    | none => t
    | some i => draw (t.setRow i ⟨text, some outcome⟩) (outcomeStyle outcome).2 text
  | .note text => if t.interactive then t.noteAbove text else t.line "!" text
  | .tick =>
    if t.interactive && t.isSpinning then
      redraw { t with frame := (t.frame + 1) % frameRange }
    else t

def run (t : Terminal) (calls : List Call) : Terminal :=
  calls.foldl apply t

end Terminal

end FleetControl
