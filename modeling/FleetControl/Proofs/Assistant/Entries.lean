import FleetControl.Assistant.Server
import FleetControl.Proofs.Json.Fields

/-!
# The entries of servers

What is proved:

1. `Server.toOption_ofValue`: fitting a stored entry gives the server that `Server.ofEntry?` reads off
   it. That one looks up three keys and keeps all other pairs, and says nothing of trees, depths or
   the order in which faults are found.
2. `Server.ofEntry?_toJson`: the entry of a server without kept fields defines that server.
3. `Server.plain_toJson`, `Server.sorted_toJson` and `Server.depth_toJson`: such an entry can be
   written and read.
-/

namespace FleetControl

namespace Json

def text? : Json → Option String
  | .string s => some s
  | _ => none

def texts? : Json → Option (List String)
  | .array items => items.mapM text?
  | _ => none

def pairs? : Json → Option (Dictionary String)
  | .object fields => fields.mapM fun (key, value) => value.text?.map fun text => (key, text)
  | _ => none

end Json

namespace Server

/-- The names of the fields that a server has of its own. -/
def known : List String := ["command", "args", "env"]

/-- The server that an entry defines: an object with a string under `command` and, if they are there,
an array of strings under `args` and an object of strings under `env`. The other pairs are kept. -/
def ofEntry? : Json → Option Server
  | .object fields =>
    let fields : Json.Fields := fields
    match (fields.get? "command").bind Json.text?,
      (fields.get? "args").elim (some []) Json.texts?,
      (fields.get? "env").elim (some []) Json.pairs? with
    | some command, some args, some env =>
      some ⟨command, args, env, fields.filter fun kv => !known.contains kv.1⟩
    | _, _, _ => none
  | _ => none

end Server

/-! ## Results without their faults -/

section Results

variable {ε α β : Type}

theorem toOption_pure (a : α) : (pure a : Except ε α).toOption = pure a := rfl

theorem toOption_bind (x : Except ε α) (f : α → Except ε β) :
    (x >>= f).toOption = x.toOption >>= fun a => (f a).toOption := by
  cases x <;> rfl

theorem toOption_mapM (f : α → Except ε β) (list : List α) :
    (list.mapM f).toOption = list.mapM fun a => (f a).toOption := by
  induction list with
  | nil => rfl
  | cons a rest ih => simp only [List.mapM_cons, toOption_bind, toOption_pure, ih]

theorem toOption_foldlM (f : β → α → Except ε β) (list : List α) (b : β) :
    (list.foldlM f b).toOption = list.foldlM (fun b a => (f b a).toOption) b := by
  induction list generalizing b with
  | nil => rfl
  | cons a rest ih => simp only [List.foldlM_cons, toOption_bind, ih]

/-- Inserting what is read from each part of a list, one after the other. -/
theorem foldlM_insert (read : β → Option (String × α)) (list : List β) (acc : Dictionary α) :
    list.foldlM (fun (acc : Dictionary α) b => (do
        let kv ← read b
        pure (acc.insert kv.1 kv.2) : Option (Dictionary α))) acc =
      (list.mapM read).map acc.insertAll := by
  induction list generalizing acc with
  | nil => rfl
  | cons b rest ih =>
    simp only [List.foldlM_cons, List.mapM_cons, bind_assoc, pure_bind, ih]
    cases read b with
    | none => rfl
    | some kv => cases rest.mapM read <;> rfl

end Results

namespace Json

/-! ## Fitting strings -/

theorem toOption_keyOf (key : Option String) : (Decoder.keyOf key).toOption = key := by
  cases key <;> rfl

theorem toOption_string (d : Nat) (v : Json) :
    (Decoder.string d (Tree.ofJson v)).toOption = v.text? := by
  cases v <;> rfl

theorem toOption_mapM_string (d : Nat) (items : List Json) :
    ((Tree.ofItems items).mapM (Decoder.string d)).toOption = items.mapM text? := by
  rw [toOption_mapM]
  induction items with
  | nil => rfl
  | cons v rest ih => simp only [Tree.ofItems, List.mapM_cons, toOption_string, ih]

theorem toOption_list_string {d : Nat} {v : Json} (deep : v.depth ≤ d) :
    (Decoder.list Decoder.string d (Tree.ofJson v)).toOption = v.texts? := by
  cases v with
  | array items =>
    cases d with
    | zero => simp [depth, Tree.ofJson, Tree.depth] at deep
    | succ d => exact toOption_mapM_string d items
  | null | bool | int | float | string | object => cases d <;> rfl

theorem toOption_mapOf_string {d : Nat} {v : Json} (sorted : v.Sorted) (deep : v.depth ≤ d) :
    (Decoder.mapOf Decoder.string d (Tree.ofJson v)).toOption = v.pairs? := by
  cases v with
  | object fields =>
    cases d with
    | zero => simp [depth, Tree.ofJson, Tree.depth] at deep
    | succ d =>
      have folded : (Decoder.mapOf Decoder.string (d + 1) (Tree.ofJson (.object fields))).toOption =
          ((Tree.ofFields fields).mapM fun (kv : Option String × Tree) => do
            let key ← kv.1
            let text ← (Decoder.string d kv.2).toOption
            pure (key, text)).map (Dictionary.insertAll []) := by
        rw [← foldlM_insert]
        simp only [Tree.ofJson, Decoder.mapOf, toOption_foldlM, toOption_bind, toOption_pure,
          toOption_keyOf, bind_assoc, pure_bind]
      have each : ((Tree.ofFields fields).mapM fun kv => do
            let key ← kv.1
            let text ← (Decoder.string d kv.2).toOption
            pure (key, text)) =
          fields.mapM fun kv => kv.2.text?.map fun text => (kv.1, text) := by
        clear folded sorted deep
        induction fields with
        | nil => rfl
        | cons kv rest ih =>
          simp only [Tree.ofFields, List.mapM_cons, ih, toOption_string]
          cases kv.2.text? <;> rfl
      rw [folded, each]
      cases read : fields.mapM fun kv => kv.2.text?.map fun text => (kv.1, text) with
      | none => exact read.symm
      | some texts =>
        have same : Dictionary.Sorted texts := by
          rw [Dictionary.sorted_iff_keys, Dictionary.keys_mapM read]
          exact Dictionary.sorted_iff_keys.mp sorted.1
        rw [Option.map_some, Dictionary.insertAll_last same (List.forall_mem_nil _)]
        exact read.symm
  | null | bool | int | float | string | array => cases d <;> rfl

/-! ## Values that hold texts -/

theorem text?_eq_some_iff {v : Json} {text : String} : v.text? = some text ↔ v = .string text := by
  cases v <;> simp [text?]

theorem texts?_eq_some {v : Json} {texts : List String} (h : v.texts? = some texts) :
    v = strings texts := by
  cases v with
  | array items =>
    simp only [texts?] at h
    unfold strings
    congr 1
    induction items generalizing texts with
    | nil =>
      cases h
      rfl
    | cons v rest ih =>
      simp only [List.mapM_cons, bind, Option.bind_eq_some_iff] at h
      obtain ⟨text, first, others, read, same⟩ := h
      cases same
      rw [text?_eq_some_iff.mp first, ih read]
      rfl
  | null | bool | int | float | string | object => cases h

theorem pairs?_eq_some {v : Json} {texts : Dictionary String} (h : v.pairs? = some texts) :
    v = .object (texts.map fun (key, text) => (key, .string text)) := by
  cases v with
  | object fields =>
    simp only [pairs?] at h
    congr 1
    induction fields generalizing texts with
    | nil =>
      cases h
      rfl
    | cons kv rest ih =>
      simp only [List.mapM_cons, bind, Option.bind_eq_some_iff, Option.map_eq_some_iff] at h
      obtain ⟨pair, ⟨text, first, same⟩, others, read, last⟩ := h
      cases same
      cases last
      rw [ih read, List.map_cons, show kv = (kv.1, kv.2) from rfl, text?_eq_some_iff.mp first]
  | null | bool | int | float | string | array => cases h

/-! ## Placing the pairs of an object -/

namespace Slots

theorem position?_singletons (known : List String) (key : String) :
    position? (known.map fun name => [name]) key = known.idxOf? key := by
  have same : (fun names : List String => names.contains key) ∘ (fun name => [name]) =
      (· == key) := by
    funext name
    by_cases e : name = key
    · simp [e]
    · simp [e, Ne.symm e]
  simp only [position?, List.findIdx?_map, same]
  rfl

theorem set_map_update {known : List String} (nodup : known.Nodup) (slot : String → Option Tree)
    {i : Nat} {key : String} (h : known[i]? = some key) (t : Option Tree) :
    (known.map slot).set i t = known.map (Function.update slot key t) := by
  induction known generalizing i with
  | nil => cases h
  | cons name known ih =>
    obtain ⟨absent, nodup⟩ := List.nodup_cons.mp nodup
    cases i with
    | zero =>
      obtain rfl : name = key := by simpa using h
      have others : known.map (Function.update slot name t) = known.map slot := by
        apply List.map_congr_left
        intro n hn
        have other : n ≠ name := fun e => absent (e ▸ hn)
        simp [other]
      simp [others]
    | succ i =>
      have later : known[i]? = some key := by simpa using h
      have other : name ≠ key := fun e => absurd (e ▸ List.mem_of_getElem? later) absent
      simp [ih nodup later, Function.update_of_ne other]

theorem place_ofFields {known : List String} (nodup : known.Nodup) {fields : Fields}
    (sorted : fields.Sorted) (slot : String → Option Tree) (others : List (String × Tree))
    (free : ∀ kv ∈ fields, slot kv.1 = none) :
    place (known.map fun name => [name]) (Tree.ofFields fields) (known.map slot) others =
      .ok (known.map fun name => (slot name).or ((fields.get? name).map Tree.ofJson),
        others.reverse ++ (fields.filter fun kv => !known.contains kv.1).map
          fun kv => (kv.1, Tree.ofJson kv.2)) := by
  -- `slot` is what was placed so far. No key comes twice, so what comes finds its field free.
  induction fields generalizing slot others with
  | nil => simp [Tree.ofFields, place, Dictionary.get?]
  | cons kv rest ih =>
    obtain ⟨key, value⟩ := kv
    obtain ⟨first, sorted⟩ := List.pairwise_cons.mp sorted
    have later : ∀ kv ∈ rest, kv.1 ≠ key := by
      intro kv hk same
      have less := first kv hk
      rw [same] at less
      exact String.lt_irrefl key less
    have absent : Dictionary.get? rest key = none := Dictionary.get?_eq_none later
    simp only [Tree.ofFields, place, position?_singletons]
    cases position : known.idxOf? key with
    | none =>
      have unknown : key ∉ known := List.idxOf?_eq_none_iff.mp position
      have same : ∀ name ∈ known,
          (slot name).or ((Dictionary.get? rest name).map Tree.ofJson) =
            (slot name).or ((Dictionary.get? ((key, value) :: rest) name).map Tree.ofJson) := by
        intro name hn
        have other : key ≠ name := fun e => unknown (e ▸ hn)
        simp [Dictionary.get?, other]
      dsimp only
      rw [ih sorted slot _ fun kv hk => free kv (List.mem_cons_of_mem _ hk),
        List.map_congr_left same]
      simp [unknown]
    | some i =>
      have here : known[i]? = some key := by
        obtain ⟨inside, found, -⟩ := List.idxOf?_eq_some_iff.mp position
        simp [List.getElem?_eq_getElem inside, found]
      have member : key ∈ known := List.mem_of_getElem? here
      have empty : slot key = none := free (key, value) List.mem_cons_self
      have slots : (known.map slot)[i]? = some none := by simp [here, empty]
      simp only [slots, set_map_update nodup slot here]
      rw [ih sorted]
      · have same : ∀ name ∈ known,
            (Function.update slot key (some (Tree.ofJson value)) name).or
                ((Dictionary.get? rest name).map Tree.ofJson) =
              (slot name).or ((Dictionary.get? ((key, value) :: rest) name).map Tree.ofJson) := by
          intro name _
          by_cases e : key = name
          · subst e
            simp [Dictionary.get?, empty]
          · simp [Dictionary.get?, e, Function.update_of_ne (Ne.symm e)]
        rw [List.map_congr_left same]
        simp [member]
      · intro kv hk
        rw [Function.update_of_ne (later kv hk)]
        exact free kv (List.mem_cons_of_mem _ hk)

theorem rest_kept {d : Nat} {kept : Fields} (positional : Bool) (trees : List (Option Tree))
    (sorted : kept.Sorted) (inner : ∀ kv ∈ kept, kv.2.Sorted ∧ kv.2.depth ≤ d) :
    (Slots.mk d positional trees (kept.map fun kv => (kv.1, Tree.ofJson kv.2))).rest = .ok kept := by
  have read : Tree.fieldsToJson? d (Tree.ofFields kept) [] = some ([] ++ kept) :=
    Tree.fieldsToJson?_ofFields kept d [] sorted (sortedFields_iff.mpr fun kv hk => (inner kv hk).1)
      (fieldsDepth_le_iff.mpr fun kv hk => (inner kv hk).2) (List.forall_mem_nil _)
  rw [rest_of_others rfl, read, List.nil_append]

end Slots

end Json

/-! ## Fitting an entry -/

namespace Server

open Json

def slotsOf (d : Nat) (fields : Json.Fields) : Slots :=
  ⟨d, false, known.map fun name => (fields.get? name).map Tree.ofJson,
    (fields.filter fun kv => !known.contains kv.1).map fun kv => (kv.1, Tree.ofJson kv.2)⟩

theorem ofOpenTree_ofFields (d : Nat) {fields : Json.Fields} (sorted : fields.Sorted) :
    Slots.ofOpenTree "McpServer" [["command"], ["args"], ["env"]] (d + 1)
      (.object (Tree.ofFields fields)) = .ok (slotsOf d fields) := by
  have placed := Slots.place_ofFields (show known.Nodup by decide) sorted (fun _ => none) []
    fun _ _ => rfl
  have names : known.map (fun name => [name]) = [["command"], ["args"], ["env"]] := rfl
  rw [names] at placed
  simp only [Slots.ofOpenTree, Slots.ofObject]
  have empty : ([["command"], ["args"], ["env"]] : List FieldNames).map (fun _ => (none : Option Tree)) =
      known.map fun _ => none := rfl
  rw [empty, placed]
  simp [slotsOf, bind, Except.bind, pure, Except.pure]

/-- A field that may be left out is read like the value under its name. -/
theorem toOption_defaulted {α : Type} {d i : Nat} {fields : Json.Fields} {name : String}
    {decoder : Decoder α} {read : Json → Option α} (default : α) (here : known[i]? = some name)
    (reads : ∀ v, fields.get? name = some v → (decoder d (Tree.ofJson v)).toOption = read v) :
    ((slotsOf d fields).defaulted i default decoder).toOption =
      (fields.get? name).elim (some default) read := by
  have tree : (slotsOf d fields).tree? i = (fields.get? name).map Tree.ofJson := by
    simp [Slots.tree?, slotsOf, here]
  unfold Slots.defaulted
  rw [tree]
  cases h : fields.get? name with
  | none => rfl
  | some v => exact reads v h

/-- Fitting an entry gives the server that it defines. -/
theorem toOption_ofValue {entry : Json} (sorted : entry.Sorted) :
    (Json.ofValue decoder entry).toOption = ofEntry? entry := by
  cases entry with
  | object fields =>
    set d := Tree.fieldsDepth (Tree.ofFields fields) with hd
    have inner : ∀ kv ∈ fields, kv.2.Sorted ∧ kv.2.depth ≤ d := fun kv hk =>
      ⟨sortedFields_iff.mp sorted.2 kv hk, fieldsDepth_le_iff.mp (Nat.le_refl _) kv hk⟩
    have found : ∀ name v, Dictionary.get? fields name = some v → v.Sorted ∧ v.depth ≤ d :=
      fun name v h => inner (name, v) (Dictionary.mem_of_get? h)
    have args := @toOption_defaulted _ d 1 fields "args" (Decoder.list Decoder.string) texts? [] rfl
      fun v h => toOption_list_string (found "args" v h).2
    have command := @toOption_defaulted _ d 0 fields "command"
      (fun d t => (Decoder.string d t).map some) (fun v => v.text?.map some) none rfl
      fun v _ => by
        rw [← toOption_string d v]
        cases Decoder.string d (Tree.ofJson v) <;> rfl
    have env := @toOption_defaulted _ d 2 fields "env" (Decoder.mapOf Decoder.string) pairs? [] rfl
      fun v h => toOption_mapOf_string (found "env" v h).1 (found "env" v h).2
    have kept : Dictionary.Sorted (fields.filter fun kv => !known.contains kv.1) :=
      List.Pairwise.filter _ sorted.1
    have rest : (slotsOf d fields).rest = .ok (fields.filter fun kv => !known.contains kv.1) :=
      Slots.rest_kept false _ kept fun kv hk => inner kv (List.mem_filter.mp hk).1
    have fitted : Json.ofValue decoder (.object fields) =
        decoder (d + 1) (.object (Tree.ofFields fields)) := rfl
    rw [fitted]
    have slots : (Slots.ofOpenTree "McpServer" [["command"], ["args"], ["env"]] (d + 1)
        (.object (Tree.ofFields fields))).toOption = some (slotsOf d fields) := by
      rw [ofOpenTree_ofFields d sorted.1]
      rfl
    simp only [decoder, toOption_bind, slots, Option.bind_eq_bind, Option.bind_some, args, command,
      env, ofEntry?]
    -- The decoder looks at the arguments before the command: it matters for the fault alone.
    generalize (Dictionary.get? fields "args").elim (some []) texts? = args
    generalize (Dictionary.get? fields "env").elim (some []) pairs? = env
    cases args with
    | none => cases (Dictionary.get? fields "command").bind text? <;> rfl
    | some args =>
      cases Dictionary.get? fields "command" with
      | none => cases env <;> rfl
      | some v =>
        cases h : v.text? with
        | none => simp [h]
        | some command =>
          cases env with
          | none => simp [h]
          | some env =>
            simp only [h, Option.elim_some, Option.map_some, Option.bind_some, toOption_bind,
              toOption_pure, rest]
            rfl
  | null | bool | int | float | string | array => rfl

/-! ## The entry of a server -/

theorem texts?_strings (items : List String) : (Json.strings items).texts? = some items := by
  simp only [Json.strings, texts?]
  induction items with
  | nil => rfl
  | cons s rest ih => simp [text?, ih]

theorem pairs?_object (env : Dictionary String) :
    (Json.object (env.map fun (key, value) => (key, .string value))).pairs? = some env := by
  simp only [pairs?]
  induction env with
  | nil => rfl
  | cons kv rest ih =>
    simp only [List.map_cons, List.mapM_cons, ih]
    rfl

/-- A server without kept fields. -/
def plain (command : String) (args : List String) (env : Dictionary String) : Server :=
  ⟨command, args, env, []⟩

variable (command : String) (args : List String) (env : Dictionary String)

theorem mem_fields_plain {kv : String × Json} (h : kv ∈ (plain command args env).fields) :
    kv = ("command", .string command) ∨ kv = ("args", Json.strings args) ∨
      kv = ("env", .object (env.map fun (key, value) => (key, .string value))) := by
  simp only [fields, plain, List.append_nil, List.mem_append, List.mem_singleton] at h
  rcases h with (h | h) | h
  · exact .inl h
  · cases args with
    | nil => cases h
    | cons => exact .inr (.inl (List.mem_singleton.mp h))
  · cases env with
    | nil => cases h
    | cons => exact .inr (.inr (List.mem_singleton.mp h))

theorem mem_ofList_plain {kv : String × Json}
    (h : kv ∈ Dictionary.ofList (plain command args env).fields) :
    kv = ("command", .string command) ∨ kv = ("args", Json.strings args) ∨
      kv = ("env", .object (env.map fun (key, value) => (key, .string value))) :=
  mem_fields_plain command args env ((Dictionary.mem_insertAll h).resolve_left (by simp))

theorem ofEntry?_toJson :
    ofEntry? (plain command args env).toJson = some (plain command args env) := by
  have kept : (Dictionary.ofList (plain command args env).fields).filter
      (fun kv => !known.contains kv.1) = [] := by
    rw [List.filter_eq_nil_iff]
    intro kv hk
    rcases mem_ofList_plain command args env hk with rfl | rfl | rfl <;> simp [known]
  have commandAt : (Dictionary.ofList (plain command args env).fields).get? "command" =
      some (.string command) := by
    cases args <;> cases env <;>
      simp [fields, plain, Dictionary.ofList, Dictionary.insertAll, Dictionary.get?_insert]
  have argsAt : ((Dictionary.ofList (plain command args env).fields).get? "args").elim (some [])
      texts? = some args := by
    have read := texts?_strings args
    cases args <;> cases env <;>
      simp_all [fields, plain, Dictionary.ofList, Dictionary.insertAll, Dictionary.get?_insert,
        Dictionary.get?]
  have envAt : ((Dictionary.ofList (plain command args env).fields).get? "env").elim (some [])
      pairs? = some env := by
    have read := pairs?_object env
    cases args <;> cases env <;>
      simp_all [fields, plain, Dictionary.ofList, Dictionary.insertAll, Dictionary.get?_insert,
        Dictionary.get?]
  simp only [toJson, ofEntry?, commandAt, argsAt, envAt, kept, Option.bind_some, text?]
  rfl

theorem plain_toJson : (plain command args env).toJson.Plain := by
  show PlainFields _
  rw [plainFields_iff]
  intro kv hk
  rcases mem_ofList_plain command args env hk with rfl | rfl | rfl
  · trivial
  · exact plainItems_strings args
  · show PlainFields _
    rw [plainFields_iff]
    intro kv hk
    obtain ⟨pair, -, rfl⟩ := List.mem_map.mp hk
    trivial

theorem sorted_toJson (sorted : env.Sorted) : (plain command args env).toJson.Sorted := by
  refine ⟨Dictionary.Sorted.nil.insertAll _, ?_⟩
  rw [sortedFields_iff]
  intro kv hk
  rcases mem_ofList_plain command args env hk with rfl | rfl | rfl
  · trivial
  · exact sortedItems_strings args
  · refine ⟨?_, sortedFields_iff.mpr fun kv hk => ?_⟩
    · simpa [Dictionary.sorted_iff_keys, Dictionary.keys, Function.comp_def] using
        Dictionary.sorted_iff_keys.mp sorted
    · obtain ⟨pair, -, rfl⟩ := List.mem_map.mp hk
      trivial

theorem depth_toJson : (plain command args env).toJson.depth ≤ 2 := by
  apply depth_object_le_iff.mpr
  intro kv hk
  rcases mem_ofList_plain command args env hk with rfl | rfl | rfl
  · exact Nat.zero_le _
  · simp [Json.strings, depth, Tree.ofJson, Tree.depth, itemsDepth_strings]
  · apply depth_object_le_iff.mpr
    intro kv hk
    obtain ⟨pair, -, rfl⟩ := List.mem_map.mp hk
    exact Nat.zero_le _

end Server

end FleetControl
