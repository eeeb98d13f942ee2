/-!
# Dictionaries

A dictionary is a list of pairs, sorted by key, with one pair for each key.

1. `insert` puts a pair where its key belongs; the last of two pairs with one key wins.
2. `get?_insert` and `get?_erase` say what the two changes do to every key.
-/

namespace FleetControl

abbrev Dictionary (α : Type) := List (String × α)

namespace Dictionary

variable {α : Type}

/-- The value of the first pair with a key. -/
def get? : Dictionary α → String → Option α
  | [], _ => none
  | (k, v) :: rest, key => if k = key then some v else get? rest key

def contains (pairs : Dictionary α) (key : String) : Bool :=
  (pairs.get? key).isSome

/-- Puts a pair where its key belongs, in place of one with the same key. -/
def insert : Dictionary α → String → α → Dictionary α
  | [], key, value => [(key, value)]
  | (k, v) :: rest, key, value =>
    if key < k then (key, value) :: (k, v) :: rest
    else if k = key then (key, value) :: rest
    else (k, v) :: insert rest key value

def erase : Dictionary α → String → Dictionary α
  | [], _ => []
  | (k, v) :: rest, key => if k = key then erase rest key else (k, v) :: erase rest key

def insertAll (pairs : Dictionary α) (more : List (String × α)) : Dictionary α :=
  more.foldl (fun acc kv => acc.insert kv.1 kv.2) pairs

/-- The dictionary of a list of pairs, the last of two with one key winning. -/
def ofList (pairs : List (String × α)) : Dictionary α :=
  insertAll [] pairs

def keys (pairs : Dictionary α) : List String :=
  pairs.map (·.1)

theorem get?_insert (pairs : Dictionary α) (key other : String) (value : α) :
    (pairs.insert key value).get? other = if key = other then some value else pairs.get? other := by
  induction pairs with
  | nil => simp [insert, get?]
  | cons kv rest ih =>
    obtain ⟨k, v⟩ := kv
    by_cases h₁ : key < k
    · simp [insert, h₁, get?]
    · by_cases h₂ : k = key
      · subst h₂
        by_cases h₃ : k = other <;> simp [insert, get?, h₃]
      · by_cases h₃ : k = other
        · subst h₃
          simp [insert, h₁, h₂, get?, Ne.symm h₂]
        · simp [insert, h₁, h₂, get?, h₃, ih]

theorem get?_erase (pairs : Dictionary α) (key other : String) :
    (pairs.erase key).get? other = if key = other then none else pairs.get? other := by
  induction pairs with
  | nil => simp [erase, get?]
  | cons kv rest ih =>
    obtain ⟨k, v⟩ := kv
    by_cases h₁ : k = key
    · subst h₁
      by_cases h₂ : k = other
      · subst h₂
        simp [erase, ih]
      · simp [erase, get?, h₂, ih]
    · by_cases h₂ : k = other
      · subst h₂
        simp [erase, h₁, get?, Ne.symm h₁]
      · simp [erase, h₁, get?, h₂, ih]

end Dictionary

end FleetControl
