import FleetControl.Arguments.Pairs
import FleetControl.Proofs.Json.Values
import FleetControl.Proofs.Workflow.Statuses
import Mathlib.Data.List.Basic
import Mathlib.Data.List.Induction

/-!
# Arguments of the form KEY=VALUE

What is proved:

1. `Pairs.split_eq_ok_iff`: a pair is cut at its first `=`, as `Pairs.Gives` states it.
2. `Dictionary.foldlM_ok` and `Dictionary.foldlM_error`: what is read of a list, pair by pair, is the
   dictionary of all that was read, or the fault of the first pair that has one. Both readers are such
   folds (`Pairs.params_eq`, `Pairs.texts_eq`).
3. `Pairs.get?_given`: under each key is the value of the last pair with it (`Pairs.Leaves`).
4. `Pairs.params_texts` puts the two readers beside each other.
-/

namespace FleetControl

/-! ## Cutting a text -/

namespace Text

theorem splitChars?_eq_none_iff {sep : Char} {cs : List Char} :
    splitChars? sep cs = none ↔ sep ∉ cs := by
  induction cs with
  | nil => simp [splitChars?]
  | cons c cs ih =>
    by_cases here : c = sep
    · simp [splitChars?, here]
    · simp [splitChars?, here, ih, Ne.symm here]

theorem split?_eq_some_iff {sep : Char} {s front back : String} :
    split? sep s = some (front, back) ↔
      s.toList = front.toList ++ sep :: back.toList ∧ sep ∉ front.toList := by
  unfold split?
  constructor
  · intro h
    obtain ⟨⟨f, b⟩, cut, same⟩ := Option.map_eq_some_iff.mp h
    cases same
    simpa using eq_append_of_splitChars? cut
  · rintro ⟨whole, first⟩
    rw [whole, splitChars?_append first]
    simp

theorem split?_eq_none_iff {sep : Char} {s : String} : split? sep s = none ↔ sep ∉ s.toList := by
  unfold split?
  rw [Option.map_eq_none_iff, splitChars?_eq_none_iff]

end Text

/-! ## Dictionaries that are read pair by pair -/

namespace Dictionary

variable {α ε : Type}

theorem foldlM_ok {read : String → Except ε (String × α)} (value : String → String × α)
    {list : List String} (reads : ∀ s ∈ list, read s = .ok (value s)) (acc : Dictionary α) :
    list.foldlM (fun (acc : Dictionary α) s => do
        let kv ← read s
        pure (acc.insert kv.1 kv.2)) acc = .ok (acc.insertAll (list.map value)) := by
  induction list generalizing acc with
  | nil => rfl
  | cons s rest ih =>
    obtain ⟨first, others⟩ := List.forall_mem_cons.mp reads
    rw [List.foldlM_cons, first]
    exact ih others _

theorem foldlM_error {read : String → Except ε (String × α)} {before after : List String}
    {bad : String} {e : ε} (reads : ∀ s ∈ before, ∃ kv, read s = .ok kv) (h : read bad = .error e)
    (acc : Dictionary α) :
    (before ++ bad :: after).foldlM (fun (acc : Dictionary α) s => do
        let kv ← read s
        pure (acc.insert kv.1 kv.2)) acc = .error e := by
  induction before generalizing acc with
  | nil =>
    rw [List.nil_append, List.foldlM_cons, h]
    rfl
  | cons s rest ih =>
    obtain ⟨⟨kv, first⟩, others⟩ := List.forall_mem_cons.mp reads
    rw [List.cons_append, List.foldlM_cons, first]
    exact ih others _

end Dictionary

namespace Pairs

/-! ## A single pair -/

/-- Whether a pair has a key: there is an `=` in it, and not only blanks before the first one. -/
def IsPair (pair : String) : Prop :=
  ∃ front value, pair = front ++ "=" ++ value ∧ '=' ∉ front.toList ∧ ¬ Text.isBlankText front

/-- Whether a pair gives a value to a key: the key is what stands before the first `=`, without the
blanks around it, and the value all that stands after it. -/
def Gives (pair key value : String) : Prop :=
  ∃ front, pair = front ++ "=" ++ value ∧ '=' ∉ front.toList ∧ ¬ Text.isBlankText front ∧
    key = Text.trim front

theorem IsPair.gives {pair : String} (h : IsPair pair) : ∃ key value, Gives pair key value := by
  obtain ⟨front, value, whole, first, visible⟩ := h
  exact ⟨Text.trim front, value, front, whole, first, visible, rfl⟩

theorem Gives.isPair {pair key value : String} (h : Gives pair key value) : IsPair pair := by
  obtain ⟨front, whole, first, visible, -⟩ := h
  exact ⟨front, value, whole, first, visible⟩

theorem cut_iff {pair front value : String} :
    Text.split? '=' pair = some (front, value) ↔
      pair = front ++ "=" ++ value ∧ '=' ∉ front.toList := by
  rw [Text.split?_eq_some_iff, ← String.toList_inj]
  simp [String.toList_append]

theorem split_eq_ok_iff {pair key value : String} :
    split pair = .ok (key, value) ↔ Gives pair key value := by
  unfold split
  constructor
  · intro h
    split at h
    · cases h
    · next front rest cut =>
      obtain ⟨whole, first⟩ := cut_iff.mp cut
      dsimp only at h
      split at h
      · cases h
      · next visible =>
        cases h
        rw [String.isEmpty_iff, ← Text.isBlankText_iff] at visible
        exact ⟨front, whole, first, visible, rfl⟩
  · rintro ⟨front, whole, first, visible, rfl⟩
    rw [cut_iff.mpr ⟨whole, first⟩]
    rw [Text.isBlankText_iff, ← String.isEmpty_iff] at visible
    exact if_neg visible

theorem Gives.unique {pair key value key' value' : String} (h : Gives pair key value)
    (h' : Gives pair key' value') : key = key' ∧ value = value' := by
  have same := (split_eq_ok_iff.mpr h).symm.trans (split_eq_ok_iff.mpr h')
  exact Prod.mk.inj (Except.ok.inj same)

/-- What is wrong with a text that is no pair: it has no `=`, or no key before it. -/
def faultOf (bad : String) : ArgumentFault :=
  if '=' ∈ bad.toList then .emptyKey bad else .notAPair bad

theorem split_of_not_isPair {bad : String} (h : ¬ IsPair bad) : split bad = .error (faultOf bad) := by
  cases result : split bad with
  | ok kv => exact absurd (split_eq_ok_iff.mp result).isPair h
  | error fault =>
    unfold split at result
    split at result
    · next cut =>
      cases result
      rw [faultOf, if_neg (Text.split?_eq_none_iff.mp cut)]
    · next front value cut =>
      dsimp only at result
      split at result
      · cases result
        have equals : '=' ∈ bad.toList := by
          rw [(Text.split?_eq_some_iff.mp cut).1]
          exact List.mem_append_right _ List.mem_cons_self
        rw [faultOf, if_pos equals]
      · cases result

theorem isOk_split_iff {pair : String} : (split pair).isOk ↔ IsPair pair := by
  constructor
  · intro ok
    cases result : split pair with
    | ok kv => exact (split_eq_ok_iff.mp result).isPair
    | error fault =>
      rw [result] at ok
      cases ok
  · intro isPair
    obtain ⟨key, value, gives⟩ := isPair.gives
    rw [split_eq_ok_iff.mpr gives]
    rfl

/-! ## The two readers -/

/-- The dictionary of the pairs that have a key and a value. -/
def given (pairs : List String) : Dictionary String :=
  Dictionary.ofList (pairs.filterMap fun pair => (split pair).toOption)

theorem sorted_given (pairs : List String) : (given pairs).Sorted :=
  Dictionary.Sorted.nil.insertAll _

theorem params_eq (pairs : List String) :
    params pairs = pairs.foldlM (fun (acc : Json.Fields) pair => do
      let kv ← (split pair).map fun kv => (kv.1, paramValue kv.2)
      pure (acc.insert kv.1 kv.2)) [] := by
  unfold params
  congr 1
  funext acc pair
  cases split pair <;> rfl

theorem texts_eq (pairs : List String) :
    texts pairs = pairs.foldlM (fun (acc : Dictionary String) pair => do
      let kv ← (split pair).mapError fun _ => .notAPair pair
      pure (acc.insert kv.1 kv.2)) [] := by
  unfold texts
  congr 1
  funext acc pair
  cases split pair <;> rfl

/-- The value that pairs leave under a key: that of the last pair with the key. -/
def Leaves (pairs : List String) (key value : String) : Prop :=
  ∃ before pair after, pairs = before ++ pair :: after ∧ Gives pair key value ∧
    ∀ later ∈ after, ∀ other, ¬ Gives later key other

theorem leaves_snoc {pairs : List String} {last key value : String} :
    Leaves (pairs ++ [last]) key value ↔
      Gives last key value ∨ Leaves pairs key value ∧ ∀ other, ¬ Gives last key other := by
  constructor
  · rintro ⟨before, pair, after, whole, gives, latest⟩
    rcases List.eq_nil_or_concat after with rfl | ⟨after, final, rfl⟩
    · obtain ⟨-, same⟩ := List.append_inj' whole rfl
      cases same
      exact .inl gives
    · rw [List.concat_eq_append, ← List.cons_append, ← List.append_assoc] at whole
      obtain ⟨rfl, same⟩ := List.append_inj' whole rfl
      cases same
      refine .inr ⟨⟨before, pair, after, rfl, gives, fun later hl => latest later ?_⟩,
        latest last (by simp)⟩
      simp [hl]
  · rintro (gives | ⟨⟨before, pair, after, rfl, gives, latest⟩, silent⟩)
    · exact ⟨pairs, last, [], rfl, gives, List.forall_mem_nil _⟩
    · refine ⟨before, pair, after ++ [last], by simp, gives, fun later hl => ?_⟩
      rcases List.mem_append.mp hl with hl | hl
      · exact latest later hl
      · rw [List.mem_singleton.mp hl]
        exact silent

/-- Under each key is the value of the last pair with it. -/
theorem get?_given (pairs : List String) (key value : String) :
    (given pairs).get? key = some value ↔ Leaves pairs key value := by
  induction pairs using List.reverseRecOn with
  | nil =>
    refine iff_of_false nofun ?_
    rintro ⟨before, pair, after, none, -⟩
    simp at none
  | append_singleton pairs last ih =>
    rw [leaves_snoc]
    have step : given (pairs ++ [last]) =
        (given pairs).insertAll ([last].filterMap fun pair => (split pair).toOption) := by
      unfold given Dictionary.ofList
      rw [List.filterMap_append, Dictionary.insertAll_append]
    rw [step, List.filterMap_cons]
    cases result : split last with
    | error fault =>
      have silent : ∀ key value, ¬ Gives last key value := fun key value gives => by
        rw [split_eq_ok_iff.mpr gives] at result
        cases result
      simp [silent, ih, Except.toOption, Dictionary.insertAll]
    | ok kv =>
      obtain ⟨k, v⟩ := kv
      have gives := split_eq_ok_iff.mp result
      show ((given pairs).insert k v).get? key = some value ↔ _
      rw [Dictionary.get?_insert, ← ih]
      by_cases here : k = key
      · subst here
        rw [if_pos rfl]
        constructor
        · rintro same
          cases same
          exact .inl gives
        · rintro (again | ⟨-, silent⟩)
          · rw [(gives.unique again).2]
          · exact absurd gives (silent v)
      · rw [if_neg here]
        have silent : ∀ other, ¬ Gives last key other := fun other again =>
          here (gives.unique again).1
        simp [silent]

/-- The value that a text means: JSON if it is JSON, else the text itself. -/
def Means (text : String) (v : Json) : Prop :=
  Json.parse? text = some v ∨ Json.parse? text = none ∧ v = .string text

theorem paramValue_eq_iff {text : String} {v : Json} : paramValue text = v ↔ Means text v := by
  unfold paramValue Means
  cases Json.parse? text with
  | none => simp [eq_comm]
  | some found => simp

/-- What both readers make of the same pairs: the texts as they stand, and under the same keys the
values that they mean. -/
structure Taken (pairs : List String) (values : Json.Fields) (texts : Dictionary String) : Prop where
  sorted : texts.Sorted
  keys : values.keys = texts.keys
  text : ∀ key text, texts.get? key = some text ↔ Leaves pairs key text
  value : ∀ key v, values.get? key = some v ↔ ∃ text, Leaves pairs key text ∧ Means text v

theorem taken_given (pairs : List String) :
    Taken pairs ((given pairs).map fun kv => (kv.1, paramValue kv.2)) (given pairs) where
  sorted := sorted_given pairs
  keys := by simp [Dictionary.keys]
  text := get?_given pairs
  value key v := by
    rw [Dictionary.get?_map, Option.map_eq_some_iff]
    simp only [get?_given, paramValue_eq_iff]

theorem texts_of_isPair {pairs : List String} (all : ∀ pair ∈ pairs, IsPair pair) :
    texts pairs = .ok (given pairs) ∧
      params pairs = .ok ((given pairs).map fun kv => (kv.1, paramValue kv.2)) := by
  have reads : ∀ pair ∈ pairs, split pair = .ok ((split pair).toOption.getD ("", "")) := by
    intro pair member
    obtain ⟨key, value, gives⟩ := (all pair member).gives
    rw [split_eq_ok_iff.mpr gives]
    rfl
  have found : pairs.map (fun pair => (split pair).toOption.getD ("", "")) =
      pairs.filterMap fun pair => (split pair).toOption := by
    rw [← List.filterMap_eq_map]
    refine List.filterMap_congr fun pair member => ?_
    rw [Function.comp_apply, reads pair member]
    rfl
  constructor
  · rw [texts_eq, Dictionary.foldlM_ok (fun pair => (split pair).toOption.getD ("", "")), found]
    · rfl
    · intro pair member
      rw [reads pair member]
      rfl
  · rw [params_eq, Dictionary.foldlM_ok fun pair =>
      (((split pair).toOption.getD ("", "")).1,
        paramValue ((split pair).toOption.getD ("", "")).2)]
    · unfold given Dictionary.ofList
      rw [Dictionary.map_insertAll, ← found, List.map_map]
      rfl
    · intro pair member
      rw [reads pair member]
      rfl

theorem exists_first_not_isPair {pairs : List String} (h : ¬ ∀ pair ∈ pairs, IsPair pair) :
    ∃ before bad after, pairs = before ++ bad :: after ∧ (∀ pair ∈ before, IsPair pair) ∧
      ¬ IsPair bad := by
  induction pairs with
  | nil => exact absurd (List.forall_mem_nil _) h
  | cons pair rest ih =>
    by_cases first : IsPair pair
    · have later : ¬ ∀ other ∈ rest, IsPair other := fun all =>
        h (List.forall_mem_cons.mpr ⟨first, all⟩)
      obtain ⟨before, bad, after, rfl, all, wrong⟩ := ih later
      exact ⟨pair :: before, bad, after, rfl, List.forall_mem_cons.mpr ⟨first, all⟩, wrong⟩
    · exact ⟨[], pair, rest, rfl, List.forall_mem_nil _, first⟩

/-- Both readers stop at the first text that is no pair. -/
theorem error_of_not_isPair {before : List String} {bad : String}
    (all : ∀ pair ∈ before, IsPair pair) (h : ¬ IsPair bad) (after : List String) :
    params (before ++ bad :: after) = .error (faultOf bad) ∧
      texts (before ++ bad :: after) = .error (.notAPair bad) := by
  constructor
  · rw [params_eq]
    refine Dictionary.foldlM_error (fun pair member => ?_) ?_ []
    · obtain ⟨key, value, gives⟩ := (all pair member).gives
      rw [split_eq_ok_iff.mpr gives]
      exact ⟨_, rfl⟩
    · rw [split_of_not_isPair h]
      rfl
  · rw [texts_eq]
    refine Dictionary.foldlM_error (fun pair member => ?_) ?_ []
    · obtain ⟨key, value, gives⟩ := (all pair member).gives
      rw [split_eq_ok_iff.mpr gives]
      exact ⟨_, rfl⟩
    · rw [split_of_not_isPair h]
      rfl

theorem toOption_texts (pairs : List String) :
    (texts pairs).toOption =
      if ∀ pair ∈ pairs, (split pair).isOk then some (given pairs) else none := by
  have same : (∀ pair ∈ pairs, (split pair).isOk) ↔ ∀ pair ∈ pairs, IsPair pair :=
    forall₂_congr fun _ _ => isOk_split_iff
  by_cases all : ∀ pair ∈ pairs, IsPair pair
  · rw [if_pos (same.mpr all), (texts_of_isPair all).1]
    rfl
  · obtain ⟨before, bad, after, whole, pair, wrong⟩ := exists_first_not_isPair all
    rw [if_neg (mt same.mp all), whole, (error_of_not_isPair pair wrong after).2]
    rfl

/-- A text that is no pair is quoted, behind what is wrong with it. -/
theorem message_faultOf (bad : String) :
    (Error.invalidArgument (faultOf bad)).message =
      "invalid argument: " ++
        ((if '=' ∈ bad.toList then "empty key in '" else "expected KEY=VALUE, got '") ++
          bad ++ "'") := by
  unfold faultOf
  split <;> rfl

theorem gives_joined {key : String} (visible : key ≠ "") (trimmed : Text.trim key = key)
    (whole : '=' ∉ key.toList) (text : String) : Gives (key ++ "=" ++ text) key text := by
  refine ⟨key, rfl, whole, ?_, trimmed.symm⟩
  rw [Text.isBlankText_iff, trimmed]
  exact visible

theorem params_joined {key : String} (visible : key ≠ "") (trimmed : Text.trim key = key)
    (whole : '=' ∉ key.toList) {v : Json} (plain : v.Plain) (sorted : v.Sorted)
    (readable : (Json.parse? v.compact).isSome) :
    params [key ++ "=" ++ v.compact] = .ok [(key, v)] := by
  have gives := gives_joined visible trimmed whole v.compact
  have meant : paramValue v.compact = v :=
    paramValue_eq_iff.mpr (.inl (Json.parse?_compact plain sorted readable))
  rw [params_eq, List.foldlM_cons, split_eq_ok_iff.mpr gives]
  show Except.ok (Dictionary.insert [] key (paramValue v.compact)) = _
  rw [meant]
  rfl

/-- The two readers of pairs. They take the same lists, those in which all are pairs, and make the
same of them but for the values: one keeps the texts as they stand, the other what they mean. Of any
other list both refuse the first that is no pair, and quote it. A value that can be read when it is
written without blanks is meant as it is, behind any key that stands for itself. -/
theorem params_texts (pairs : List String) :
    ((∀ pair ∈ pairs, IsPair pair) →
      ∃ values kept, params pairs = .ok values ∧ texts pairs = .ok kept ∧
        Taken pairs values kept) ∧
    ((¬ ∀ pair ∈ pairs, IsPair pair) →
      ∃ before bad after fault, pairs = before ++ bad :: after ∧
        (∀ pair ∈ before, IsPair pair) ∧ ¬ IsPair bad ∧
        params pairs = .error fault ∧ texts pairs = .error (.notAPair bad) ∧
        (Error.invalidArgument fault).message =
          "invalid argument: " ++
            ((if '=' ∈ bad.toList then "empty key in '" else "expected KEY=VALUE, got '") ++
              bad ++ "'") ∧
        (Error.invalidArgument (.notAPair bad)).message =
          "invalid argument: " ++ ("expected KEY=VALUE, got '" ++ bad ++ "'")) ∧
    ∀ (key : String) (v : Json), key ≠ "" → Text.trim key = key → '=' ∉ key.toList →
      v.Plain → v.Sorted → (Json.parse? v.compact).isSome →
        params [key ++ "=" ++ v.compact] = .ok [(key, v)] := by
  refine ⟨fun all => ?_, fun some => ?_, fun key v visible trimmed whole plain sorted readable =>
    params_joined visible trimmed whole plain sorted readable⟩
  · obtain ⟨kept, values⟩ := texts_of_isPair all
    exact ⟨_, _, values, kept, taken_given pairs⟩
  · obtain ⟨before, bad, after, whole, all, wrong⟩ := exists_first_not_isPair some
    obtain ⟨values, kept⟩ := error_of_not_isPair all wrong after
    rw [← whole] at values kept
    exact ⟨before, bad, after, faultOf bad, whole, all, wrong, values, kept,
      message_faultOf bad, rfl⟩

/-- A key that is given twice, a text without a key between two pairs, and a value with `=` in it. -/
theorem params_texts_repeated :
    (∃ values kept, params [" a =1", "b=x=y", "a=[2]"] = .ok values ∧
      texts [" a =1", "b=x=y", "a=[2]"] = .ok kept ∧
      Taken [" a =1", "b=x=y", "a=[2]"] values kept) ∧
    (∃ before bad after fault, ["a=1", " =3", "b"] = before ++ bad :: after ∧
      (∀ pair ∈ before, IsPair pair) ∧ ¬ IsPair bad ∧
      params ["a=1", " =3", "b"] = .error fault ∧
      texts ["a=1", " =3", "b"] = .error (.notAPair bad) ∧
      (Error.invalidArgument fault).message =
        "invalid argument: " ++
          ((if '=' ∈ bad.toList then "empty key in '" else "expected KEY=VALUE, got '") ++
            bad ++ "'") ∧
      (Error.invalidArgument (.notAPair bad)).message =
        "invalid argument: " ++ ("expected KEY=VALUE, got '" ++ bad ++ "'")) ∧
    params ["k" ++ "=" ++ (Json.object [("a=b", .array [.int (-3), .string "="])]).compact] =
      .ok [("k", .object [("a=b", .array [.int (-3), .string "="])])] := by
  have pairs : ∀ pair ∈ [" a =1", "b=x=y", "a=[2]"], IsPair pair := by
    simp only [List.forall_mem_cons, List.not_mem_nil, false_imp_iff, implies_true, and_true]
    exact ⟨⟨" a ", "1", by decide, by decide, by decide⟩,
      ⟨"b", "x=y", by decide, by decide, by decide⟩, "a", "[2]", by decide, by decide, by decide⟩
  have broken : ¬ ∀ pair ∈ ["a=1", " =3", "b"], IsPair pair := fun all => by
    obtain ⟨key, value, gives⟩ := (all "b" (by simp)).gives
    have cut := split_eq_ok_iff.mpr gives
    rw [show split "b" = .error (.notAPair "b") by rfl] at cut
    cases cut
  refine ⟨(params_texts _).1 pairs, (params_texts _).2.1 broken, ?_⟩
  refine (params_texts []).2.2 "k" _ (by decide) (by decide) (by decide) ?_ ?_ ?_
  · simp [Json.Plain, Json.PlainFields, Json.PlainItems, Json.InRange]
  · simp [Json.Sorted, Json.SortedFields, Json.SortedItems, Dictionary.Sorted]
  · decide +kernel

end Pairs

end FleetControl
