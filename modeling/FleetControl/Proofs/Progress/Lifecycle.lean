import FleetControl.Progress.Board
import Mathlib.Data.List.Nodup

/-!
# The life of a spinner

1. `Lifecycle` is the shape of the calls of one key: a create, then updates, then at most one
   resolve and nothing after it.
2. `Board.stage` is all that a board knows of a key. `stage_observe`, `calls_observe`,
   `stage_resolve` and `calls_resolve` say what the two changes of a board do to it.
3. `Board.Reflects` is the invariant between a board and the calls made so far. Every change of a
   board keeps it with the calls of the change.
-/

namespace FleetControl

/-- The shape of the calls of a key, with the stage that its spinner has reached: none before it
was created, and whether it is resolved after that. -/
inductive Lifecycle (key : String) : Option Bool → List Call → Prop where
  | unseen : Lifecycle key none []
  | created (text : String) : Lifecycle key (some false) [.create key text]
  | updated {calls : List Call} (text : String) (live : Lifecycle key (some false) calls) :
      Lifecycle key (some false) (calls ++ [.update key text])
  | resolved {calls : List Call} (outcome : Outcome) (text : String)
      (live : Lifecycle key (some false) calls) :
      Lifecycle key (some true) (calls ++ [.resolve key outcome text])

namespace Recording

def ofKey (key : String) (calls : List Call) : List Call :=
  calls.filter fun call => call.key? == some key

/-- The keys in the order in which they were resolved. -/
def resolvedKeys (calls : List Call) : List String :=
  (resolutions calls).map (·.1)

theorem ofKey_append (key : String) (xs ys : List Call) :
    ofKey key (xs ++ ys) = ofKey key xs ++ ofKey key ys :=
  List.filter_append ..

theorem ofKey_append_of_not_mem {key : String} {calls : List Call} (past : List Call)
    (h : ∀ call ∈ calls, call.key? ≠ some key) : ofKey key (past ++ calls) = ofKey key past := by
  have none_own : ofKey key calls = [] := by
    unfold ofKey
    rw [List.filter_eq_nil_iff]
    intro call hc
    simpa using h call hc
  rw [ofKey_append, none_own, List.append_nil]

theorem createdKeys_append (xs ys : List Call) :
    createdKeys (xs ++ ys) = createdKeys xs ++ createdKeys ys :=
  List.filterMap_append ..

theorem mem_resolvedKeys {key : String} {calls : List Call} :
    key ∈ resolvedKeys calls ↔ ∃ outcome text, .resolve key outcome text ∈ ofKey key calls := by
  unfold resolvedKeys resolutions ofKey
  simp only [List.mem_map, List.mem_filterMap, List.mem_filter]
  constructor
  · rintro ⟨⟨k, outcome⟩, ⟨call, hc, he⟩, rfl⟩
    cases call with
    | resolve k' outcome' text =>
      cases he
      exact ⟨outcome, text, hc, by simp [Call.key?, Call.shown?]⟩
    | create | update | note | tick => cases he
  · rintro ⟨outcome, text, hc, -⟩
    exact ⟨(key, outcome), ⟨_, hc, rfl⟩, rfl⟩

end Recording

open Recording

theorem Lifecycle.resolve_not_mem {key : String} {calls : List Call}
    (h : Lifecycle key (some false) calls) (outcome : Outcome) (text : String) :
    .resolve key outcome text ∉ calls := by
  generalize hs : some false = stage at h
  induction h with
  | unseen => cases hs
  | created first => simp
  | updated last _ ih => simpa using ih hs
  | resolved => cases hs

theorem Lifecycle.mem_resolvedKeys_iff {key : String} {stage : Option Bool} {calls : List Call}
    (h : Lifecycle key stage (ofKey key calls)) : key ∈ resolvedKeys calls ↔ stage = some true := by
  rw [mem_resolvedKeys]
  generalize ofKey key calls = own at h
  cases h with
  | unseen => simp
  | created text => simp
  | updated text live => simpa using live.resolve_not_mem
  | resolved outcome text live => exact iff_of_true ⟨outcome, text, by simp⟩ rfl

namespace Board

/-- What a board knows of a key: nothing, or whether its spinner is resolved. -/
def stage (board : Board) (key : String) : Option Bool :=
  (board.find? key).map (·.resolved)

theorem stage_eq_none {board : Board} {key : String} :
    board.stage key = none ↔ key ∉ board.keys := by
  unfold stage
  rw [Option.map_eq_none_iff, find?_eq_none_iff]

theorem find?_change (board : Board) (key other : String) {f : Spinner → Spinner}
    (h : ∀ s, (f s).key = s.key) :
    (board.change key f).find? other =
      if other = key then (board.find? other).map f else board.find? other := by
  unfold change find?
  rw [List.find?_map]
  have same : ((fun s : Spinner => s.key == other) ∘ fun s => if s.key = key then f s else s) =
      fun s => s.key == other := by
    funext s
    by_cases hs : s.key = key <;> simp [hs, h]
  rw [same]
  cases hf : List.find? (fun s : Spinner => s.key == other) board with
  | none => simp
  | some s =>
    have hs : s.key = other := by simpa using List.find?_some hf
    rw [Option.map_some, Option.map_some, hs]
    split <;> rfl

theorem stage_eq_ite {board : Board} {key : String} {stage : Option Bool}
    (h : board.stage key = stage) (other : String) :
    board.stage other = if other = key then stage else board.stage other := by
  split
  · next he => rw [he, h]
  · rfl

/-- A change of one spinner changes the stage of its key only. -/
theorem stage_change (board : Board) (key other : String) {f : Spinner → Spinner}
    (h : ∀ s, (f s).key = s.key) :
    (board.change key f).stage other =
      if other = key then (board.find? key).map fun s => (f s).resolved else board.stage other := by
  unfold stage
  rw [find?_change board key other h]
  by_cases he : other = key
  · rw [if_pos he, if_pos he, he, Option.map_map]
    rfl
  · rw [if_neg he, if_neg he]

theorem stage_observe (board : Board) (key name text other : String) :
    (board.observe key name text).1.stage other =
      if other = key then some ((board.stage key).getD false) else board.stage other := by
  unfold observe
  cases hf : board.find? key with
  | none =>
    have unseen : board.stage key = none := congrArg (Option.map Spinner.resolved) hf
    rw [unseen]
    unfold stage find? at *
    rw [List.find?_append, List.find?_singleton]
    by_cases he : other = key
    · subst he
      simp [hf]
    · cases List.find? (fun s : Spinner => s.key == other) board <;> simp [he, Ne.symm he]
  | some spinner =>
    have seen : board.stage key = some spinner.resolved :=
      congrArg (Option.map Spinner.resolved) hf
    rw [seen]
    dsimp only
    split
    · exact stage_eq_ite seen other
    · rw [stage_change board key other (by intro s; rfl), hf]
      rfl

theorem calls_observe (board : Board) (key name text : String) :
    (board.observe key name text).2 =
      match board.stage key with
      | none => [.create key text]
      | some false => [.update key text]
      | some true => [] := by
  unfold observe stage
  cases board.find? key with
  | none => rfl
  | some spinner => cases hr : spinner.resolved <;> simp [hr]

theorem stage_resolve (board : Board) (key : String) (outcome : Outcome) (text other : String) :
    (board.resolve key outcome text).1.stage other =
      if other = key then (board.stage key).map fun _ => true else board.stage other := by
  unfold resolve
  cases hf : board.find? key with
  | none =>
    have unseen : board.stage key = none := congrArg (Option.map Spinner.resolved) hf
    rw [unseen]
    exact stage_eq_ite unseen other
  | some spinner =>
    have seen : board.stage key = some spinner.resolved :=
      congrArg (Option.map Spinner.resolved) hf
    rw [seen]
    dsimp only
    split
    · next resolved =>
      rw [resolved] at seen
      exact stage_eq_ite seen other
    · rw [stage_change board key other (by intro s; rfl), hf]
      rfl

theorem calls_resolve (board : Board) (key : String) (outcome : Outcome) (text : String) :
    (board.resolve key outcome text).2 =
      if board.stage key = some false then [.resolve key outcome text] else [] := by
  unfold resolve stage
  cases board.find? key with
  | none => simp
  | some spinner => cases hr : spinner.resolved <;> simp [hr]

theorem key?_observe {board : Board} {key name text : String} {call : Call}
    (h : call ∈ (board.observe key name text).2) : call.key? = some key := by
  rw [calls_observe] at h
  split at h
  · obtain rfl := List.mem_singleton.mp h
    rfl
  · obtain rfl := List.mem_singleton.mp h
    rfl
  · exact absurd h List.not_mem_nil

theorem key?_resolve {board : Board} {key text : String} {outcome : Outcome} {call : Call}
    (h : call ∈ (board.resolve key outcome text).2) : call.key? = some key := by
  rw [calls_resolve] at h
  split at h
  · obtain rfl := List.mem_singleton.mp h
    rfl
  · exact absurd h List.not_mem_nil

/-! ## The board of the calls made so far -/

/-- A board agrees with the calls made so far: it has a spinner for every key that was created, in
that order, and the calls of every key are those of a spinner at its stage. -/
structure Reflects (board : Board) (past : List Call) : Prop where
  keys : board.keys = createdKeys past
  nodup : board.keys.Nodup
  lives : ∀ key, Lifecycle key (board.stage key) (ofKey key past)

namespace Reflects

variable {board : Board} {past : List Call}

theorem nil : Reflects [] [] :=
  ⟨rfl, List.nodup_nil, fun _ => .unseen⟩

theorem resolved_iff (h : Reflects board past) (key : String) :
    key ∈ resolvedKeys past ↔ board.stage key = some true :=
  (h.lives key).mem_resolvedKeys_iff

theorem created_iff (h : Reflects board past) (key : String) :
    key ∈ createdKeys past ↔ board.stage key ≠ none := by
  rw [← h.keys, Ne, stage_eq_none, not_not]

theorem created_of_mem (h : Reflects board past) {call : Call} {key : String} (hc : call ∈ past)
    (hk : call.key? = some key) : key ∈ createdKeys past := by
  rw [h.created_iff]
  intro unseen
  have own : call ∈ ofKey key past := List.mem_filter.mpr ⟨hc, by simp [hk]⟩
  have lives := h.lives key
  rw [unseen] at lives
  generalize ofKey key past = calls at own lives
  cases lives
  exact absurd own List.not_mem_nil

theorem silent (h : Reflects board past) {calls : List Call} (quiet : ∀ call ∈ calls, call.key? = none) :
    Reflects board (past ++ calls) := by
  have none_created : createdKeys calls = [] := by
    unfold createdKeys
    rw [List.filterMap_eq_nil_iff]
    intro call hc
    cases call with
    | create key text => cases quiet _ hc
    | update | resolve | note | tick => rfl
  refine ⟨?_, h.nodup, fun key => ?_⟩
  · rw [createdKeys_append, none_created, List.append_nil]
    exact h.keys
  · rw [ofKey_append_of_not_mem past fun call hc => by simp [quiet call hc]]
    exact h.lives key

theorem observe (h : Reflects board past) (key name text : String) :
    Reflects (board.observe key name text).1 (past ++ (board.observe key name text).2) := by
  refine ⟨?_, nodup_keys_observe h.nodup key name text, fun other => ?_⟩
  · rw [keys_observe, createdKeys_append, calls_observe, ← h.keys]
    by_cases hk : key ∈ board.keys
    · cases hs : board.stage key with
      | none => exact absurd hk (stage_eq_none.mp hs)
      | some resolved => cases resolved <;> simp [createdKeys, hk]
    · simp [stage_eq_none.mpr hk, createdKeys, hk]
  · rw [stage_observe]
    by_cases he : other = key
    · subst he
      -- the stage says which calls there were, and with it which constructor comes next
      have own := h.lives other
      rw [if_pos rfl, ofKey_append, calls_observe]
      cases hs : board.stage other with
      | none =>
        rw [hs] at own
        generalize ofKey other past = before at own
        cases own
        simpa [ofKey, Call.key?, Call.shown?] using Lifecycle.created text
      | some resolved =>
        rw [hs] at own
        cases resolved with
        | false => simpa [ofKey, Call.key?, Call.shown?] using own.updated text
        | true => simpa [ofKey] using own
    · rw [if_neg he, ofKey_append_of_not_mem past]
      · exact h.lives other
      · intro call hc
        rw [key?_observe hc]
        simpa using Ne.symm he

theorem resolve (h : Reflects board past) (key : String) (outcome : Outcome) (text : String) :
    Reflects (board.resolve key outcome text).1 (past ++ (board.resolve key outcome text).2) := by
  have names : createdKeys (board.resolve key outcome text).2 = [] := by
    rw [calls_resolve]
    split <;> rfl
  refine ⟨?_, ?_, fun other => ?_⟩
  · rw [keys_resolve, createdKeys_append, names, List.append_nil]
    exact h.keys
  · rw [keys_resolve]
    exact h.nodup
  · rw [stage_resolve]
    by_cases he : other = key
    · subst he
      have own := h.lives other
      rw [if_pos rfl, ofKey_append, calls_resolve]
      cases hs : board.stage other with
      | none =>
        rw [hs] at own
        simpa [ofKey] using own
      | some resolved =>
        rw [hs] at own
        cases resolved with
        | false => simpa [ofKey, Call.key?, Call.shown?] using own.resolved outcome text
        | true => simpa [ofKey] using own
    · rw [if_neg he, ofKey_append_of_not_mem past]
      · exact h.lives other
      · intro call hc
        rw [key?_resolve hc]
        simpa using Ne.symm he

theorem resolveAll (h : Reflects board past) (items : List (String × Outcome × String)) :
    Reflects (board.resolveAll items).1 (past ++ (board.resolveAll items).2) := by
  induction items generalizing board past with
  | nil => simpa [Board.resolveAll] using h
  | cons item rest ih =>
    obtain ⟨key, outcome, text⟩ := item
    simpa [Board.resolveAll, List.append_assoc] using ih (h.resolve key outcome text)

end Reflects

end Board

end FleetControl
