import FleetControl.Proofs.Fleet.Events
import FleetControl.Proofs.Fleet.Sendable

/-!
# Which operation a path names

1. `Operation.names` are the names between the slashes of a path (`toList_path`). With the method
   they determine the operation up to what its request carries beside its path:
   `Operation.bare_eq_of_names_eq`.
2. A path keeps its names apart if no identifier in it has a slash: `Operation.bare_eq_of_path_eq`.
   An identifier with a slash makes one path of two operations: `Operation.path_slash`.
3. What is sent keeps the names apart if every identifier is one that an address leaves as it is,
   `Address.Literal`: `Client.request_literal` gives the address whole, and
   `Client.bare_eq_of_segments_eq` says that no two operations share it. An identifier of other
   characters leads out of its environment: `Client.request_dots`.
-/

namespace FleetControl

namespace Operation

def localNames : Operation → List String
  | .listInstances => ["instances"]
  | .describeInstance id => ["instance", id]
  | .createInstance _ => ["instance"]
  | .modifyInstance id _ => ["instance", id]
  | .deleteInstance id => ["instance", id]
  | .power id action => ["instance", id, action.segment]
  | .listSnapshots i => ["instance", i, "snapshot"]
  | .describeSnapshot i id => ["instance", i, "snapshot", id]
  | .createSnapshot i => ["instance", i, "snapshot"]
  | .deleteSnapshot i id => ["instance", i, "snapshot", id]
  | .restoreSnapshot i id _ => ["instance", i, "snapshot", id, "restore"]
  | .workflowEvents i _ _ _ => ["instance", i, "workflow-events"]

def names (scope : Scope) (operation : Operation) : List String :=
  ["fleet", "service", scope.service, "environment", scope.environment] ++ operation.localNames

theorem map_names_ne_nil (scope : Scope) (operation : Operation) :
    (operation.names scope).map String.toList ≠ [] :=
  List.cons_ne_nil _ _

/-- The identifiers of the objects that an operation is about. -/
def objects : Operation → List String
  | .listInstances => []
  | .describeInstance id => [id]
  | .createInstance _ => []
  | .modifyInstance id _ => [id]
  | .deleteInstance id => [id]
  | .power id _ => [id]
  | .listSnapshots i => [i]
  | .describeSnapshot i id => [i, id]
  | .createSnapshot i => [i]
  | .deleteSnapshot i id => [i, id]
  | .restoreSnapshot i id _ => [i, id]
  | .workflowEvents i _ _ _ => [i]

def identifiers (scope : Scope) (operation : Operation) : List String :=
  [scope.service, scope.environment] ++ operation.objects

/-- An operation without what its request carries beside its path. -/
def bare : Operation → Operation
  | .createInstance _ => .createInstance default
  | .modifyInstance id _ => .modifyInstance id []
  | .restoreSnapshot i id _ => .restoreSnapshot i id []
  | .workflowEvents i _ _ _ => .workflowEvents i default false none
  | operation => operation

def fixedNames : List String :=
  ["fleet", "service", "environment", "instances", "instance", "snapshot", "restore",
    "workflow-events", "start", "stop", "restart"]

theorem segment_mem (action : PowerAction) : action.segment ∈ ["start", "stop", "restart"] := by
  cases action <;> decide

theorem mem_names {scope : Scope} {operation : Operation} {name : String}
    (h : name ∈ operation.names scope) :
    name ∈ operation.identifiers scope ∨ name ∈ fixedNames := by
  have powers := segment_mem
  cases operation <;>
    simp only [names, localNames, identifiers, objects, fixedNames, List.cons_append,
      List.nil_append, List.mem_cons, List.not_mem_nil, or_false] at h powers ⊢ <;>
    grind

theorem forall_mem_names {scope : Scope} {operation : Operation} {p : List Char → Prop}
    (fixed : ∀ name ∈ fixedNames, p name.toList)
    (given : ∀ id ∈ operation.identifiers scope, p id.toList) :
    ∀ name ∈ (operation.names scope).map String.toList, p name := by
  intro chars hchars
  obtain ⟨name, hname, rfl⟩ := List.mem_map.mp hchars
  exact (mem_names hname).elim (given name) (fixed name)

theorem toList_localPath (operation : Operation) :
    operation.localPath.toList = (operation.localNames.map String.toList).flatMap ('/' :: ·) := by
  have instances : "/instances".toList = '/' :: "instances".toList := by decide
  have one : "/instance/".toList = '/' :: "instance".toList ++ ['/'] := by decide
  have new : "/instance".toList = '/' :: "instance".toList := by decide
  have snapshots : "/snapshot".toList = '/' :: "snapshot".toList := by decide
  have snapshot : "/snapshot/".toList = '/' :: "snapshot".toList ++ ['/'] := by decide
  have restore : "/restore".toList = '/' :: "restore".toList := by decide
  have events : "/workflow-events".toList = '/' :: "workflow-events".toList := by decide
  have slash : "/".toList = ['/'] := by decide
  unfold localPath localNames
  cases operation <;>
    simp only [String.toList_append, instances, one, new, snapshots, snapshot, restore, events,
      slash, List.map_cons, List.map_nil, List.flatMap_cons, List.flatMap_nil, List.append_assoc,
      List.cons_append, List.nil_append, List.append_nil]

theorem toList_path (scope : Scope) (operation : Operation) :
    (operation.path scope).toList =
      ((operation.names scope).map String.toList).flatMap ('/' :: ·) := by
  have service : "/fleet/service/".toList =
      '/' :: "fleet".toList ++ '/' :: "service".toList ++ ['/'] := by decide
  have environment : "/environment/".toList = '/' :: "environment".toList ++ ['/'] := by decide
  unfold path names
  simp only [String.toList_append, service, environment, toList_localPath, List.map_cons,
    List.flatMap_cons, List.append_assoc, List.cons_append, List.nil_append]

theorem toList_path_dots (scope : Scope) (environment id : String) :
    ((Operation.deleteInstance ("../../" ++ environment ++ "/instance/" ++ id)).path scope).toList =
      (["fleet", "service", scope.service, "environment"].map String.toList ++
        [scope.environment.toList, "instance".toList, ['.', '.'], ['.', '.']] ++
        [environment, "instance", id].map String.toList).flatMap ('/' :: ·) := by
  have dots : "../../".toList = ['.', '.', '/', '.', '.', '/'] := by decide
  have slashes : "/instance/".toList = '/' :: "instance".toList ++ ['/'] := by decide
  rw [toList_path]
  unfold names localNames
  simp only [String.toList_append, dots, slashes, List.map_cons, List.map_nil, List.flatMap_cons,
    List.flatMap_nil, List.append_assoc, List.cons_append, List.nil_append, List.append_nil]

/-! ## What the names determine -/

theorem segment_injective : Function.Injective PowerAction.segment := by
  intro a b h
  cases a <;> cases b <;> first | rfl | exact absurd h (by decide)

/-- The method and the names determine the environment and the operation. -/
theorem bare_eq_of_names_eq {scope other : Scope} {a b : Operation} (method : a.method = b.method)
    (names : a.names scope = b.names other) : scope = other ∧ a.bare = b.bare := by
  obtain ⟨front, rest⟩ := List.append_inj names rfl
  constructor
  · cases scope
    cases other
    simp_all
  · have apart : ∀ action : PowerAction, action.segment ≠ "snapshot" := by
      intro action
      cases action <;> decide
    cases a <;> cases b <;> simp_all [Operation.method, localNames, bare, segment_injective.eq_iff]

/-! ## Paths -/

theorem flatMap_cons_eq_intercalate (sep : Char) (parts : List (List Char)) :
    parts.flatMap (sep :: ·) = [sep].intercalate ([] :: parts) := by
  induction parts with
  | nil => rfl
  | cons part parts ih =>
    cases parts with
    | nil => simp
    | cons next parts =>
      rw [List.flatMap_cons, ih]
      simp only [List.intercalate_cons_cons, List.nil_append, List.append_assoc, List.cons_append]

/-- A path of identifiers without slashes falls apart into its names. -/
theorem splitOn_path {scope : Scope} {operation : Operation}
    (plain : ∀ id ∈ operation.identifiers scope, '/' ∉ id.toList) :
    (operation.path scope).toList.splitOn '/' =
      [] :: (operation.names scope).map String.toList := by
  rw [toList_path, flatMap_cons_eq_intercalate]
  refine List.splitOn_intercalate '/' ?_ (List.cons_ne_nil _ _)
  rw [List.forall_mem_cons]
  exact ⟨List.not_mem_nil, forall_mem_names (p := ('/' ∉ ·)) (by decide) plain⟩

/-- A path of identifiers without slashes and the method name one operation in one environment. -/
theorem bare_eq_of_path_eq {scope other : Scope} {a b : Operation}
    (plain : ∀ id ∈ a.identifiers scope, '/' ∉ id.toList)
    (plain' : ∀ id ∈ b.identifiers other, '/' ∉ id.toList)
    (method : a.method = b.method) (path : a.path scope = b.path other) :
    scope = other ∧ a.bare = b.bare := by
  have same := splitOn_path plain'
  rw [← path, splitOn_path plain, List.cons.injEq,
    List.map_inj_right fun _ _ => String.toList_injective] at same
  exact bare_eq_of_names_eq method same.2

/-- A snapshot of an instance is deleted by the path that deletes an instance of a longer name. -/
theorem bare_eq_of_path_eq_modify :
    (⟨"s", "e"⟩ : Scope) = ⟨"s", "e"⟩ ∧
      (modifyInstance "i-1" [("size", .string "xl")]).bare = (modifyInstance "i-1" []).bare :=
  bare_eq_of_path_eq (by decide) (by decide) rfl rfl

/-- With a slash in an identifier one path names two operations, or two environments. -/
theorem path_slash :
    ¬ ∀ (scope other : Scope) (a b : Operation), a.method = b.method →
      a.path scope = b.path other → scope = other ∧ a.bare = b.bare := by
  intro determined
  have same := determined ⟨"s", "e"⟩ ⟨"s", "e"⟩ (.deleteInstance "i-1/snapshot/s-1")
    (.deleteSnapshot "i-1" "s-1") rfl (by decide)
  exact absurd same.2 (by simp [bare])

end Operation

/-! ## What an address makes of a path -/

namespace Address

theorem splitSlashes_ne_nil (cs : List Char) : splitSlashes cs ≠ [] := by
  cases cs with
  | nil => exact List.cons_ne_nil _ _
  | cons c rest =>
    unfold splitSlashes
    split
    · exact List.cons_ne_nil _ _
    · split <;> exact List.cons_ne_nil _ _

theorem splitSlashes_append_cons (front rest : List Char) :
    splitSlashes (front ++ '/' :: rest) = splitSlashes front ++ splitSlashes rest := by
  induction front with
  | nil =>
    obtain ⟨part, parts, h⟩ := List.exists_cons_of_ne_nil (splitSlashes_ne_nil rest)
    simp [splitSlashes, h, isSlash]
  | cons c front ih =>
    obtain ⟨part, parts, h⟩ := List.exists_cons_of_ne_nil (splitSlashes_ne_nil front)
    rw [List.cons_append, splitSlashes, ih, splitSlashes, h]
    dsimp only [List.cons_append]
    split <;> rfl

theorem splitSlashes_of_forall {cs : List Char} (h : ∀ c ∈ cs, isSlash c = false) :
    splitSlashes cs = [cs] := by
  induction cs with
  | nil => rfl
  | cons c rest ih =>
    rw [List.forall_mem_cons] at h
    rw [splitSlashes, ih h.2]
    simp [h.1]

theorem resolve_append (path parts : List (List Char)) {rest : List (List Char)} (h : rest ≠ []) :
    resolve path (parts ++ rest) = resolve (parts.foldl (addSegment · · false) path) rest := by
  induction parts generalizing path with
  | nil => rfl
  | cons part parts ih =>
    rw [List.cons_append, resolve, ih, List.foldl_cons]
    exact fun he => h (List.append_eq_nil_iff.mp he).2

def afterAuthority (rest : List Char) : List Char :=
  (rest.dropWhile isSlash).drop (authorityOf rest).length

theorem parse?_of_scheme {s : String} {secure : Bool} {rest : List Char}
    (scheme : scheme? (cleaned s) = some (secure, rest))
    (only : ∀ c ∈ afterAuthority rest, (c == '?' || c == '#') = false) :
    parse? s = (authority? secure (authorityOf rest)).map fun place =>
      ⟨secure, place.1, place.2, resolve [] (splitSlashes ((afterAuthority rest).drop 1)), none,
        none⟩ := by
  have whole : (afterAuthority rest).takeWhile (fun c => !(c == '?' || c == '#')) =
      afterAuthority rest :=
    List.takeWhile_eq_self_iff.mpr fun c hc => by rw [only c hc]; rfl
  unfold parse?
  rw [scheme]
  change ((authority? secure (authorityOf rest)).bind fun place => _) = _
  cases authority? secure (authorityOf rest) with
  | none => rfl
  | some place =>
    dsimp only [Option.bind, Option.map]
    rw [show (rest.dropWhile isSlash).drop
        ((rest.dropWhile isSlash).takeWhile
          fun c => !(isSlash c || c == '?' || c == '#')).length = afterAuthority rest from rfl,
      whole, List.drop_length]

theorem mem_of_mem_afterAuthority {c : Char} {rest : List Char} (h : c ∈ afterAuthority rest) :
    c ∈ rest :=
  (List.dropWhile_suffix isSlash).subset (List.mem_of_mem_drop h)

theorem afterAuthority_append (rest tail : List Char) :
    afterAuthority (rest ++ version ++ '/' :: tail) =
      afterAuthority (rest ++ version) ++ '/' :: tail := by
  unfold afterAuthority
  rw [authorityOf_append,
    dropWhile_append_of_mem _ (List.mem_append_right rest two_mem_version) (by decide),
    List.drop_append_of_le_length]
  exact (List.takeWhile_prefix _).length_le

/-- The segments that the front of a path leads to. -/
def rootOf : List Char → List (List Char)
  | [] => []
  | _ :: rest => (splitSlashes rest).foldl (addSegment · · false) []

theorem resolve_rootOf (start tail : List Char) :
    resolve [] (splitSlashes ((start ++ '/' :: tail).drop 1)) =
      resolve (rootOf start) (splitSlashes tail) := by
  cases start with
  | nil => rfl
  | cons c rest =>
    rw [List.cons_append, List.drop_succ_cons, List.drop_zero, splitSlashes_append_cons,
      resolve_append _ _ (splitSlashes_ne_nil tail)]
    rfl

theorem of_inPath {c : Char} (h : Url.inPath c = true) :
    isEdge c = false ∧ isDropped c = false ∧ (c == '?' || c == '#') = false := by
  simp only [Url.inPath, Url.inFragment, Url.isGraphic, Bool.and_eq_true, decide_eq_true_eq,
    Bool.not_eq_true', Bool.or_eq_false_iff, beq_eq_false_iff_ne] at h
  obtain ⟨⟨⟨low, -⟩, -⟩, ⟨⟨mark, question⟩, -⟩, -⟩ := h
  refine ⟨by simp [isEdge]; omega, ?_, by simp [mark, question]⟩
  rw [isDropped]
  simp only [Bool.or_eq_false_iff, beq_eq_false_iff_ne]
  refine ⟨⟨?_, ?_⟩, ?_⟩ <;> rintro rfl <;> exact absurd low (by decide)

theorem clean_of_inPath {tail : List Char} (kept : ∀ c ∈ tail, Url.inPath c = true) :
    (Text.dropEnd isEdge tail).filter (fun c => !isDropped c) = tail := by
  have edge : tail.reverse.dropWhile isEdge = tail.reverse := by
    cases h : tail.reverse with
    | nil => rfl
    | cons c rest =>
      have hc : c ∈ tail := List.mem_reverse.mp (h ▸ List.mem_cons_self)
      exact List.dropWhile_cons_of_neg (by simp [(of_inPath (kept c hc)).1])
  rw [Text.dropEnd, edge, List.reverse_reverse, List.filter_eq_self]
  exact fun c hc => by simp [(of_inPath (kept c hc)).2.1]

theorem subset_of_scheme? {cs rest : List Char} {secure : Bool}
    (h : scheme? cs = some (secure, rest)) : rest ⊆ cs := by
  unfold scheme? at h
  dsimp only at h
  split at h
  · cases h
    exact List.drop_subset _ _
  · split at h
    · cases h
      exact List.drop_subset _ _
    · cases h

/-- What the address of a client and a path make is the address of the client, from which the path
goes on segment by segment. -/
theorem parse?_append {base : List Char} (plain : ∀ c ∈ base, (c == '?' || c == '#') = false) :
    ∃ origin : Option Address, ∀ tail : List Char, (∀ c ∈ tail, Url.inPath c = true) →
      parse? (String.ofList (base ++ version ++ '/' :: tail)) =
        origin.map fun start => { start with
          segments := resolve start.segments (splitSlashes tail) } := by
  have none_marks : version.all fun c => !(c == '?' || c == '#') := by decide
  have marks : ∀ c ∈ version, (c == '?' || c == '#') = false := by
    simpa only [Bool.not_eq_true'] using List.all_eq_true.mp none_marks
  have opening : ∀ tail : List Char, (∀ c ∈ tail, Url.inPath c = true) →
      scheme? (cleaned (String.ofList (base ++ version ++ '/' :: tail))) =
        (if ':' ∈ front base then scheme? (front base) else none).map
          fun start => (start.1, start.2 ++ version ++ '/' :: tail) := by
    intro tail kept
    rw [cleaned_append, clean_of_inPath kept, scheme?_append]
    split <;> rfl
  cases start : (if ':' ∈ front base then scheme? (front base) else none) with
  | none =>
    refine ⟨none, fun tail kept => ?_⟩
    have no_scheme := opening tail kept
    rw [start] at no_scheme
    unfold parse?
    rw [no_scheme]
    rfl
  | some found =>
    obtain ⟨secure, rest⟩ := found
    have within : ∀ c ∈ rest, c ∈ base := by
      intro c hc
      have scheme : scheme? (front base) = some (secure, rest) := by
        split at start
        · exact start
        · cases start
      exact (List.dropWhile_suffix isEdge).subset
        (List.mem_filter.mp (subset_of_scheme? scheme hc)).1
    refine ⟨(authority? secure (authorityOf (rest ++ version))).map fun place =>
      ⟨secure, place.1, place.2, rootOf (afterAuthority (rest ++ version)), none, none⟩,
      fun tail kept => ?_⟩
    have scheme := opening tail kept
    rw [start, Option.map_some] at scheme
    rw [parse?_of_scheme scheme, authorityOf_append, afterAuthority_append, Option.map_map]
    · congr 1
      funext place
      rw [Function.comp_apply, resolve_rootOf]
    · intro c hc
      rcases List.mem_append.mp (mem_of_mem_afterAuthority hc) with hc | hc
      · rcases List.mem_append.mp hc with hc | hc
        · exact plain c (within c hc)
        · exact marks c hc
      · rcases List.mem_cons.mp hc with rfl | hc
        · decide
        · exact (of_inPath (kept c hc)).2.2

/-- A segment of characters of a path, none of them a slash. -/
def Plain (segment : List Char) : Prop :=
  ∀ c ∈ segment, Url.inPath c = true ∧ isSlash c = false

instance : DecidablePred Plain := fun segment =>
  List.decidableBAll (fun c => Url.inPath c = true ∧ isSlash c = false) segment

/-- A plain segment that an address leaves as it is: its dots, if it has no more, neither stay nor
step back. -/
def Literal (segment : List Char) : Prop :=
  Plain segment ∧ plainDots segment ≠ ['.'] ∧ plainDots segment ≠ ['.', '.']

instance : DecidablePred Literal := fun segment =>
  inferInstanceAs (Decidable (Plain segment ∧ plainDots segment ≠ ['.'] ∧
    plainDots segment ≠ ['.', '.']))

theorem splitSlashes_flatMap (part : List Char) {parts : List (List Char)}
    (h : ∀ segment ∈ part :: parts, Plain segment) :
    splitSlashes (part ++ parts.flatMap ('/' :: ·)) = part :: parts := by
  induction parts generalizing part with
  | nil =>
    rw [List.flatMap_nil, List.append_nil]
    exact splitSlashes_of_forall fun c hc => (h part List.mem_cons_self c hc).2
  | cons next parts ih =>
    rw [List.forall_mem_cons] at h
    rw [List.flatMap_cons, List.cons_append, splitSlashes_append_cons, ih next h.2,
      splitSlashes_of_forall fun c hc => (h.1 c hc).2]
    rfl

/-- The address of a client goes on by plain segments one by one. -/
theorem parse?_flatMap {base : List Char} (plain : ∀ c ∈ base, (c == '?' || c == '#') = false) :
    ∃ origin : Option Address, ∀ parts : List (List Char), parts ≠ [] →
      (∀ segment ∈ parts, Plain segment) →
        parse? (String.ofList (base ++ version ++ parts.flatMap ('/' :: ·))) =
          origin.map fun start => { start with segments := resolve start.segments parts } := by
  obtain ⟨origin, after⟩ := parse?_append plain
  refine ⟨origin, fun parts ne h => ?_⟩
  obtain ⟨part, parts, rfl⟩ := List.exists_cons_of_ne_nil ne
  rw [List.flatMap_cons, List.cons_append, after, splitSlashes_flatMap part h]
  intro c hc
  rcases List.mem_append.mp hc with hc | hc
  · exact (h part List.mem_cons_self c hc).1
  · obtain ⟨segment, hsegment, hc⟩ := List.mem_flatMap.mp hc
    rcases List.mem_cons.mp hc with rfl | hc
    · decide
    · exact (h segment (List.mem_cons_of_mem _ hsegment) c hc).1

theorem addSegment_literal {segment : List Char} (h : Literal segment) (path : List (List Char))
    (last : Bool) : addSegment path segment last = path ++ [segment] := by
  have same : ∀ cs, Plain cs → Url.percentEncode Url.inPath cs = cs := by
    intro cs plain
    unfold Url.percentEncode
    induction cs with
    | nil => rfl
    | cons c rest ih =>
      obtain ⟨hc, hrest⟩ := List.forall_mem_cons.mp plain
      rw [List.flatMap_cons, if_pos hc.1, ih hrest]
      rfl
  unfold addSegment
  dsimp only
  rw [if_neg h.2.2, if_neg h.2.1, same segment h.1]

theorem foldl_literal {parts : List (List Char)} (h : ∀ part ∈ parts, Literal part)
    (path : List (List Char)) : parts.foldl (addSegment · · false) path = path ++ parts := by
  induction parts generalizing path with
  | nil => exact (List.append_nil path).symm
  | cons part rest ih =>
    rw [List.forall_mem_cons] at h
    rw [List.foldl_cons, addSegment_literal h.1, ih h.2, List.append_assoc]
    rfl

theorem resolve_literal {parts : List (List Char)} (ne : parts ≠ [])
    (h : ∀ part ∈ parts, Literal part) (path : List (List Char)) :
    resolve path parts = path ++ parts := by
  obtain ⟨init, last, rfl⟩ : ∃ init last, parts = init ++ [last] :=
    ⟨_, _, (List.dropLast_concat_getLast ne).symm⟩
  rw [resolve_append _ _ (List.cons_ne_nil _ _),
    foldl_literal fun part hpart => h part (List.mem_append_left _ hpart), resolve,
    addSegment_literal (h last (by simp)), List.append_assoc]

theorem addSegment_dots (path : List (List Char)) (segment : List Char) :
    addSegment (path ++ [segment]) ['.', '.'] false = path := by
  simp [addSegment, plainDots]

theorem resolve_dots {front back : List (List Char)} {one two : List Char} (ne : back ≠ [])
    (h : ∀ part ∈ front ++ [one, two], Literal part) (path : List (List Char)) :
    resolve path (front ++ [one, two, ['.', '.'], ['.', '.']] ++ back) =
      resolve path (front ++ back) := by
  simp only [List.forall_mem_append, List.forall_mem_cons] at h
  obtain ⟨hfront, hone, htwo, -⟩ := h
  rw [resolve_append _ _ ne, resolve_append _ _ ne, List.foldl_append, foldl_literal hfront]
  simp only [List.foldl_cons, List.foldl_nil, addSegment_literal hone, addSegment_literal htwo,
    addSegment_dots]

theorem parse?_dots {base : List Char} (plain : ∀ c ∈ base, (c == '?' || c == '#') = false)
    {front back : List (List Char)} {one two : List Char} (ne : back ≠ [])
    (literal : ∀ part ∈ front ++ [one, two], Literal part) (within : ∀ part ∈ back, Plain part) :
    parse? (String.ofList (base ++ version ++
        (front ++ [one, two, ['.', '.'], ['.', '.']] ++ back).flatMap ('/' :: ·))) =
      parse? (String.ofList (base ++ version ++ (front ++ back).flatMap ('/' :: ·))) := by
  obtain ⟨origin, reads⟩ := parse?_flatMap plain
  have dots : Plain ['.', '.'] := by decide
  have parts : ∀ part ∈ front ++ [one, two], Plain part := fun part hpart => (literal part hpart).1
  simp only [List.forall_mem_append, List.forall_mem_cons] at parts
  obtain ⟨hfront, hone, htwo, -⟩ := parts
  rw [reads _ (List.append_ne_nil_of_right_ne_nil _ ne) ?_,
    reads _ (List.append_ne_nil_of_right_ne_nil _ ne) ?_]
  · congr 1
    funext start
    rw [resolve_dots ne literal]
  · exact List.forall_mem_append.mpr ⟨hfront, within⟩
  · simp only [List.forall_mem_append, List.forall_mem_cons]
    exact ⟨⟨hfront, hone, htwo, dots, dots, List.forall_mem_nil _⟩, within⟩

end Address

namespace Client

theorem address_text (client : Client) (path : String) : client.baseUrl ++ apiVersion ++ path =
    String.ofList (client.baseUrl.toList ++ Address.version ++ path.toList) := by
  unfold Address.version
  rw [← String.toList_append, ← String.toList_append, String.ofList_toList]

/-- A client reaches every operation for literal identifiers below one and the same address, by the
names of its path. -/
theorem request_literal {client : Client}
    (plain : ∀ c ∈ client.baseUrl.toList, (c == '?' || c == '#') = false) :
    ∃ origin : Address, ∀ scope operation request,
      (∀ id ∈ operation.identifiers scope, Address.Literal id.toList) →
      client.request scope operation = .ok request →
        request.method = operation.method ∧
          request.address = { origin with
            segments := origin.segments ++ (operation.names scope).map String.toList
            query := request.address.query } := by
  obtain ⟨origin, reads⟩ := Address.parse?_flatMap plain
  refine ⟨origin.getD default, fun scope operation request literal sent => ?_⟩
  have parts := Operation.forall_mem_names (p := Address.Literal) (by decide) literal
  have address := reads _ (Operation.map_names_ne_nil scope operation) fun segment h =>
    (parts segment h).1
  unfold Client.request prepare at sent
  rw [address_text, Operation.toList_path, address] at sent
  cases origin with
  | none => cases sent
  | some origin =>
    rw [Option.map_some,
      Address.resolve_literal (Operation.map_names_ne_nil scope operation) parts] at sent
    dsimp only at sent
    split at sent
    · cases sent
      refine ⟨rfl, ?_⟩
      dsimp only
      split
      · rfl
      · rw [Address.addPairs_eq]
        rfl
    · cases sent

/-- Two requests of a client for literal identifiers that agree in their method and their path ask
for the same. -/
theorem bare_eq_of_segments_eq {client : Client}
    (plain : ∀ c ∈ client.baseUrl.toList, (c == '?' || c == '#') = false)
    {scope other : Scope} {a b : Operation} {first second : Request}
    (literal : ∀ id ∈ a.identifiers scope, Address.Literal id.toList)
    (literal' : ∀ id ∈ b.identifiers other, Address.Literal id.toList)
    (sent : client.request scope a = .ok first) (sent' : client.request other b = .ok second)
    (method : first.method = second.method)
    (segments : first.address.segments = second.address.segments) :
    scope = other ∧ a.bare = b.bare := by
  obtain ⟨origin, reaches⟩ := request_literal plain
  obtain ⟨method₁, address₁⟩ := reaches scope a first literal sent
  obtain ⟨method₂, address₂⟩ := reaches other b second literal' sent'
  rw [address₁, address₂] at segments
  have names := List.append_cancel_left segments
  rw [List.map_inj_right fun _ _ => String.toList_injective] at names
  exact Operation.bare_eq_of_names_eq (method₁ ▸ method₂ ▸ method) names

/-- An identifier with dots leads out of the environment that a client is set to: with it the
request to delete an instance is the one that deletes an instance of another environment. -/
theorem request_dots {client : Client}
    (plain : ∀ c ∈ client.baseUrl.toList, (c == '?' || c == '#') = false)
    {scope : Scope} {environment id : String}
    (literal : ∀ name ∈ [scope.service, scope.environment, environment, id],
      Address.Literal name.toList) :
    client.request scope (.deleteInstance ("../../" ++ environment ++ "/instance/" ++ id)) =
      client.request ⟨scope.service, environment⟩ (.deleteInstance id) := by
  have fixed : ∀ name ∈ Operation.fixedNames, Address.Literal name.toList := by decide
  have named : Address.Literal "instance".toList := fixed _ (by decide)
  simp only [List.forall_mem_cons] at literal
  obtain ⟨service, left, target, object, -⟩ := literal
  have front : ∀ part ∈ ["fleet", "service", scope.service, "environment"].map String.toList ++
      [scope.environment.toList, "instance".toList], Address.Literal part := by
    simp only [List.forall_mem_append, List.map_cons, List.map_nil, List.forall_mem_cons]
    exact ⟨⟨fixed _ (by decide), fixed _ (by decide), service, fixed _ (by decide),
      List.forall_mem_nil _⟩, left, named, List.forall_mem_nil _⟩
  have back : ∀ part ∈ [environment, "instance", id].map String.toList, Address.Plain part := by
    simp only [List.map_cons, List.map_nil, List.forall_mem_cons]
    exact ⟨target.1, named.1, object.1, List.forall_mem_nil _⟩
  have ne : [environment, "instance", id].map String.toList ≠ [] := List.cons_ne_nil _ _
  have same := Address.parse?_dots plain ne front back
  rw [← Operation.toList_path_dots, ← address_text] at same
  -- the path without the detour is that of the other environment
  have there : ((Operation.deleteInstance id).path ⟨scope.service, environment⟩).toList =
      (["fleet", "service", scope.service, "environment"].map String.toList ++
        [environment, "instance", id].map String.toList).flatMap ('/' :: ·) :=
    Operation.toList_path _ _
  rw [← there, ← address_text] at same
  unfold Client.request prepare
  rw [same]
  rfl

example : ∀ name ∈ ["s", "e", "prod", "i-9"], Address.Literal name.toList := by decide

end Client

end FleetControl
