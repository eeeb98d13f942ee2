import FleetControl.Progress.Call

/-!
# The board of spinners

The board knows every spinner that was created, in order, with the name shown last and whether it is
resolved.

1. `Board.observe` creates a spinner at first sight and updates it after that.
2. `Board.resolve` moves a spinner to its final state, once.
3. A resolved spinner is never touched again; `nodup_keys_observe` says that a key has one
   spinner.
-/

namespace FleetControl

/-- A spinner that was created. -/
structure Spinner where
  key : String
  name : String
  resolved : Bool
  deriving DecidableEq, Repr, Inhabited

/-- The spinners in the order in which they were created. -/
abbrev Board := List Spinner

namespace Board

def find? (board : Board) (key : String) : Option Spinner :=
  List.find? (fun spinner => spinner.key == key) board

def change (board : Board) (key : String) (f : Spinner → Spinner) : Board :=
  board.map fun spinner => if spinner.key = key then f spinner else spinner

/-- Shows a resource: creates its spinner, or updates it unless it is resolved. -/
def observe (board : Board) (key name text : String) : Board × List Call :=
  match board.find? key with
  | none => (board ++ [⟨key, name, false⟩], [.create key text])
  | some spinner =>
    if spinner.resolved then (board, [])
    else (board.change key fun s => { s with name }, [.update key text])

/-- Resolves a spinner unless it is resolved or unknown. -/
def resolve (board : Board) (key : String) (outcome : Outcome) (text : String) :
    Board × List Call :=
  match board.find? key with
  | none => (board, [])
  | some spinner =>
    if spinner.resolved then (board, [])
    else (board.change key fun s => { s with resolved := true }, [.resolve key outcome text])

/-- The name that a key showed last, or the key itself. -/
def nameOf (board : Board) (key : String) : String :=
  ((board.find? key).map (·.name)).getD key

/-- The keys of the spinners that are not resolved, in order. -/
def unresolved (board : Board) : List String :=
  (board.filter fun spinner => !spinner.resolved).map (·.key)

def keys (board : Board) : List String :=
  board.map (·.key)

def resolveAll (board : Board) : List (String × Outcome × String) → Board × List Call
  | [] => (board, [])
  | (key, outcome, text) :: rest =>
    let (board, calls) := board.resolve key outcome text
    let (board, more) := resolveAll board rest
    (board, calls ++ more)

/-! ## Small lemmas -/

@[simp] theorem keys_change (board : Board) (key : String) (f : Spinner → Spinner)
    (h : ∀ s, (f s).key = s.key) : (board.change key f).keys = board.keys := by
  unfold keys change
  rw [List.map_map]
  apply List.map_congr_left
  intro s _
  by_cases hs : s.key = key <;> simp [hs, h]

theorem find?_eq_none_iff (board : Board) (key : String) :
    board.find? key = none ↔ key ∉ board.keys := by
  simp only [find?, List.find?_eq_none, keys, List.mem_map, not_exists, not_and]
  constructor
  · intro h s hs he
    exact h s hs (by simp [he])
  · intro h s hs he
    exact h s hs (by simpa using he)

theorem keys_observe (board : Board) (key name text : String) :
    (board.observe key name text).1.keys =
      if key ∈ board.keys then board.keys else board.keys ++ [key] := by
  unfold observe
  by_cases h : key ∈ board.keys
  · cases hf : board.find? key with
    | none => exact absurd h ((find?_eq_none_iff board key).1 hf)
    | some spinner => cases hr : spinner.resolved <;> simp [h, hr]
  · rw [(find?_eq_none_iff board key).2 h]
    simp only [h, if_false]
    simp [keys]

theorem keys_resolve (board : Board) (key : String) (outcome : Outcome) (text : String) :
    (board.resolve key outcome text).1.keys = board.keys := by
  unfold resolve
  cases board.find? key with
  | none => rfl
  | some spinner =>
    dsimp only
    split <;> simp

theorem nodup_keys_observe {board : Board} (h : board.keys.Nodup) (key name text : String) :
    (board.observe key name text).1.keys.Nodup := by
  rw [keys_observe]
  by_cases hk : key ∈ board.keys
  · simpa [hk] using h
  · simp only [hk, if_false]
    refine List.nodup_append.2 ⟨h, by simp, ?_⟩
    intro a ha b hb he
    rw [List.mem_singleton] at hb
    exact hk (hb ▸ he ▸ ha)

end Board

end FleetControl
