import FleetControl.Progress.Terminal
import FleetControl.Proofs.Progress.Lifecycle
import Mathlib.Data.List.Induction

/-!
# The rows of a list of calls

Every create opens a row, also a create of a key that has one. A call for a key is for the row that
the key opened last.

1. `Recording.rowsOf` is what calls say of the rows, read from the calls alone; `Recording.turns` is
   how often they turned the animation.
2. `rowsOf_create` and `rowsOf_snoc` say what one more call does to the rows: it opens one, or it
   changes the one at the last place of its key (`lastPlace?`). `turns_snoc` is the same for ticks.
-/

namespace FleetControl

def Call.text? : Call → Option String
  | .create _ text => some text
  | .update _ text => some text
  | .resolve _ _ text => some text
  | .note text => some text
  | .tick => none

def Call.creates (key : String) : Call → Bool
  | .create k _ => k == key
  | _ => false

/-- What a call that is for a row does to it. -/
def Call.change : Call → Row → Row
  | .update _ text, row => { row with text }
  | .resolve _ outcome text, _ => ⟨text, some outcome⟩
  | _, row => row

namespace Recording

/-- The calls for the row that a key has: those for the key before it is created again. -/
def ofRow (key : String) : List Call → List Call
  | [] => []
  | call :: rest =>
    if call.creates key then [] else if call.key? = some key then call :: ofRow key rest
    else ofRow key rest

/-- A row that was opened with a text after the calls for it: it has the latest text and the outcome
that it was resolved to last. -/
def rowAfter (key text : String) (own : List Call) : Row where
  text := (lastText? own key).getD text
  outcome := (resolutions own).getLast?.map (·.2)

/-- The rows of calls: one for each create, in that order. -/
def rowsOf : List Call → List Row
  | [] => []
  | .create key text :: rest => rowAfter key text (ofRow key rest) :: rowsOf rest
  | _ :: rest => rowsOf rest

/-- How many ticks were made while some row was not resolved. -/
def turns (calls : List Call) : Nat :=
  (List.range calls.length).countP fun i =>
    calls[i]? == some .tick && (rowsOf (calls.take i)).any (·.outcome.isNone)

/-! ## One more call -/

/-- The place of the last row of a key, among the keys that were created. -/
def lastPlace? (key : String) : List String → Option Nat
  | [] => none
  | k :: keys =>
    match lastPlace? key keys with
    | some i => some (i + 1)
    | none => if k = key then some 0 else none

theorem lastPlace?_eq_none {key : String} {keys : List String} :
    lastPlace? key keys = none ↔ key ∉ keys := by
  induction keys with
  | nil => simp [lastPlace?]
  | cons k keys ih =>
    rw [List.mem_cons, not_or, ← ih, lastPlace?]
    cases lastPlace? key keys with
    | none => simp [eq_comm]
    | some i => simp

theorem lastPlace?_snoc (key k : String) (keys : List String) :
    lastPlace? key (keys ++ [k]) = if k = key then some keys.length else lastPlace? key keys := by
  induction keys with
  | nil => simp [lastPlace?]
  | cons first keys ih =>
    rw [List.cons_append, lastPlace?, ih]
    by_cases same : k = key <;> simp [same, lastPlace?]

theorem spec_lastPlace? {key : String} {keys : List String} {i : Nat}
    (h : lastPlace? key keys = some i) : keys[i]? = some key ∧ key ∉ keys.drop (i + 1) := by
  induction keys generalizing i with
  | nil => cases h
  | cons k keys ih =>
    unfold lastPlace? at h
    split at h
    · next j last =>
      cases h
      exact ih last
    · next absent =>
      split at h
      · next same =>
        cases h
        exact ⟨by rw [same]; rfl, lastPlace?_eq_none.mp absent⟩
      · cases h

theorem length_rowsOf (calls : List Call) : (rowsOf calls).length = (createdKeys calls).length := by
  induction calls with
  | nil => rfl
  | cons call rest ih => cases call <;> simpa [rowsOf, createdKeys] using ih

theorem mem_createdKeys_cons {key : String} {call : Call} {rest : List Call} :
    key ∈ createdKeys (call :: rest) ↔ call.creates key = true ∨ key ∈ createdKeys rest := by
  cases call with
  | create k text =>
    show key ∈ k :: createdKeys rest ↔ (k == key) = true ∨ _
    rw [List.mem_cons, beq_iff_eq, eq_comm]
  | update | resolve | note | tick =>
    show key ∈ createdKeys rest ↔ false = true ∨ _
    simp

variable {key : String} {call : Call}

theorem createdKeys_later (later : ∀ k, call.creates k = false) : createdKeys [call] = [] := by
  cases call with
  | create k text => simpa [Call.creates] using later k
  | update | resolve | note | tick => rfl

/-- A call for a row comes after the other calls for it, unless the key was created again. -/
theorem ofRow_snoc (calls : List Call) (opens : call.creates key = false) :
    ofRow key (calls ++ [call]) =
      if key ∉ createdKeys calls ∧ call.key? = some key then ofRow key calls ++ [call]
      else ofRow key calls := by
  induction calls with
  | nil => simp [ofRow, opens, createdKeys]
  | cons first rest ih =>
    rw [List.cons_append, ofRow, ih, ofRow]
    by_cases again : first.creates key
    · simp [again, mem_createdKeys_cons]
    · by_cases own : first.key? = some key <;>
        by_cases here : key ∉ createdKeys rest ∧ call.key? = some key <;>
          simp [again, own, mem_createdKeys_cons, here]

theorem rowAfter_snoc (text : String) (own : List Call) (own_key : call.key? = some key)
    (opens : call.creates key = false) :
    rowAfter key text (own ++ [call]) = call.change (rowAfter key text own) := by
  cases call with
  | create k text =>
    cases own_key
    simp [Call.creates] at opens
  | update | resolve =>
    cases own_key
    simp [rowAfter, Call.change, lastText?, Call.shown?, resolutions]
  | note | tick => cases own_key

theorem rowsOf_create (calls : List Call) (key text : String) :
    rowsOf (calls ++ [.create key text]) = rowsOf calls ++ [⟨text, none⟩] := by
  have same (k : String) (calls : List Call) :
      ofRow k (calls ++ [.create key text]) = ofRow k calls := by
    induction calls with
    | nil => by_cases same : key = k <;> simp [ofRow, Call.creates, Call.key?, Call.shown?, same]
    | cons first rest ih => rw [List.cons_append, ofRow, ih, ofRow]
  induction calls with
  | nil => rfl
  | cons first rest ih => cases first <;> simp [rowsOf, ih, same]

theorem rowsOf_snoc (calls : List Call) (later : ∀ k, call.creates k = false) :
    rowsOf (calls ++ [call]) =
      match call.key?.bind fun key => lastPlace? key (createdKeys calls) with
      | none => rowsOf calls
      | some i => (rowsOf calls).modify i call.change := by
  induction calls with
  | nil =>
    cases call with
    | create k text => simpa [Call.creates] using later k
    | update | resolve | note | tick => rfl
  | cons first rest ih =>
    cases first with
    | create k text =>
      show rowAfter k text (ofRow k (rest ++ [call])) :: rowsOf (rest ++ [call]) =
        match call.key?.bind fun key => lastPlace? key (k :: createdKeys rest) with
        | none => rowAfter k text (ofRow k rest) :: rowsOf rest
        | some i => (rowAfter k text (ofRow k rest) :: rowsOf rest).modify i call.change
      -- The call is for the first row if it has its key and no later create took the key over.
      rw [ih, ofRow_snoc rest (later k)]
      cases own : call.key? with
      | none => simp
      | some key =>
        simp only [Option.bind_some, Option.some.injEq, lastPlace?]
        cases last : lastPlace? key (createdKeys rest) with
        | none =>
          have absent := lastPlace?_eq_none.mp last
          by_cases same : k = key
          · subst same
            simp [absent, rowAfter_snoc text _ own (later k)]
          · simp [same, Ne.symm same]
        | some i =>
          have there : key ∈ createdKeys rest := by
            by_contra absent
            rw [lastPlace?_eq_none.mpr absent] at last
            cases last
          have kept : ¬(k ∉ createdKeys rest ∧ key = k) := by
            rintro ⟨absent, rfl⟩
            exact absent there
          simp [kept]
    | update | resolve | note | tick => exact ih

/-- Every tick turns the spinners once at most. -/
theorem turns_snoc (calls : List Call) (call : Call) :
    turns (calls ++ [call]) =
      turns calls + if call = .tick ∧ (rowsOf calls).any (·.outcome.isNone) then 1 else 0 := by
  unfold turns
  rw [List.length_append, List.length_singleton, List.range_succ, List.countP_append]
  congr 1
  · apply List.countP_congr
    intro i member
    have early : i < calls.length := List.mem_range.mp member
    rw [List.getElem?_append_left early, List.take_append_of_le_length (Nat.le_of_lt early)]
  · rw [List.countP_singleton]
    simp

theorem turns_le (calls : List Call) : turns calls ≤ calls.count .tick := by
  induction calls using List.reverseRecOn with
  | nil => exact Nat.le_refl 0
  | append_singleton calls call ih =>
    rw [turns_snoc, List.count_append]
    split
    · next h => simp [h.1]; omega
    · omega

theorem notes_append (xs ys : List Call) : notes (xs ++ ys) = notes xs ++ notes ys :=
  List.filterMap_append ..

end Recording

end FleetControl
