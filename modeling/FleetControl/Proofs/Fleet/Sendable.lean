import FleetControl.Fleet.Request
import Mathlib.Data.List.TakeWhile

/-!
# Which requests can be sent

1. Whether an address can be read is decided before its path: `isSome_parse?` names the part that
   decides, and `cleaned_append` says that a path does not reach into it.
2. So a client that can send one request can send every request: `isOk_request`.
-/

namespace FleetControl

namespace Address

/-- The host and the number among the ports, as they stand after the scheme. -/
def authorityOf (rest : List Char) : List Char :=
  (rest.dropWhile isSlash).takeWhile fun c => !(isSlash c || c == '?' || c == '#')

theorem isSome_parse? (s : String) :
    (parse? s).isSome =
      ((scheme? (cleaned s)).bind fun front => authority? front.1 (authorityOf front.2)).isSome := by
  unfold parse? authorityOf
  cases scheme? (cleaned s) with
  | none => rfl
  | some front =>
    obtain ⟨secure, rest⟩ := front
    dsimp only [bind, Option.bind]
    split <;> simp_all

/-! ## What stands before a path -/

theorem dropWhile_append_of_mem {p : Char → Bool} {xs : List Char} (ys : List Char) {c : Char}
    (hc : c ∈ xs) (h : p c = false) : (xs ++ ys).dropWhile p = xs.dropWhile p ++ ys := by
  rw [List.dropWhile_append, if_neg]
  intro he
  rw [List.isEmpty_iff, List.dropWhile_eq_nil_iff] at he
  exact absurd (he c hc) (by simp [h])

theorem takeWhile_append_cons {p : Char → Bool} (xs ys : List Char) {c : Char} (h : p c = false) :
    (xs ++ c :: ys).takeWhile p = xs.takeWhile p := by
  rw [List.takeWhile_append, List.takeWhile_cons_of_neg (by simp [h]), List.append_nil]
  split
  · next whole => exact ((List.takeWhile_prefix p).eq_of_length whole).symm
  · rfl

theorem dropEnd_append_cons {p : Char → Bool} (xs ys : List Char) {c : Char} (h : p c = false) :
    Text.dropEnd p (xs ++ c :: ys) = xs ++ c :: Text.dropEnd p ys := by
  have kept : (ys.reverse ++ [c]).dropWhile p = ys.reverse.dropWhile p ++ [c] := by
    rw [List.dropWhile_append, List.dropWhile_cons_of_neg (by simp [h])]
    split
    · next none_kept => rw [List.isEmpty_iff.mp none_kept, List.nil_append]
    · rfl
  unfold Text.dropEnd
  rw [List.reverse_append, List.reverse_cons, dropWhile_append_of_mem _ (by simp) h, kept]
  simp

theorem takeWhile_append_of_mem {p : Char → Bool} {xs : List Char} (ys : List Char) {c : Char}
    (hc : c ∈ xs) (h : p c = false) :
    (xs ++ ys).takeWhile p = xs.takeWhile p ∧ (xs.takeWhile p).length < xs.length := by
  have short : (xs.takeWhile p).length ≠ xs.length := by
    intro whole
    have same := (List.takeWhile_prefix p).eq_of_length whole
    have all := List.takeWhile_eq_self_iff.mp same c hc
    rw [h] at all
    cases all
  rw [List.takeWhile_append, if_neg short]
  exact ⟨rfl, Nat.lt_of_le_of_ne (List.takeWhile_prefix p).length_le short⟩

/-- The version of the API, between the address of a client and a path. -/
def version : List Char := Client.apiVersion.toList

theorem two_mem_version : '2' ∈ version := by decide

theorem colon_free : ∀ c ∈ version, c != ':' :=
  List.all_eq_true.mp (by decide)

/-- What cleaning leaves of the address of a client. -/
def front (base : List Char) : List Char :=
  (base.dropWhile isEdge).filter fun c => !isDropped c

/-- Cleaning an address cleans its parts: neither the version nor a slash is dropped. -/
theorem cleaned_append (base tail : List Char) :
    cleaned (String.ofList (base ++ version ++ '/' :: tail)) =
      front base ++ version ++ '/' :: (Text.dropEnd isEdge tail).filter fun c => !isDropped c := by
  have start : (base ++ version).dropWhile isEdge = base.dropWhile isEdge ++ version := by
    rw [List.dropWhile_append]
    split
    · next none_kept =>
      rw [List.isEmpty_iff.mp none_kept]
      decide
    · rfl
  have kept : version.filter (fun c => !isDropped c) = version := by decide
  unfold cleaned front Text.strip Text.dropStart
  rw [String.toList_ofList,
    dropWhile_append_of_mem _ (List.mem_append_right base two_mem_version) (by decide), start,
    dropEnd_append_cons _ _ (by decide), List.filter_append, List.filter_append,
    List.filter_cons_of_pos (by decide), kept]

/-- The scheme stands before the first colon, and no version has one. -/
theorem scheme?_append (start tail : List Char) :
    scheme? (start ++ version ++ tail) =
      if ':' ∈ start then (scheme? start).map fun front => (front.1, front.2 ++ version ++ tail)
      else none := by
  unfold scheme?
  dsimp only
  by_cases h : ':' ∈ start
  · obtain ⟨name, short⟩ :=
      takeWhile_append_of_mem (p := (· != ':')) (version ++ tail) h (by decide)
    rw [if_pos h, List.append_assoc, name, List.drop_append_of_le_length (by omega)]
    split
    · simp
    · split <;> simp
  · have plain : ∀ c ∈ start ++ version, c != ':' := by
      intro c hc
      rcases List.mem_append.mp hc with hc | hc
      · exact bne_iff_ne.mpr fun he => h (he ▸ hc)
      · exact colon_free c hc
    have digit : '2' ∈ ((start ++ version ++ tail).takeWhile (· != ':')).map Char.toLower := by
      rw [List.takeWhile_append_of_pos plain]
      exact List.mem_map.mpr ⟨'2', by simp [two_mem_version], by decide⟩
    rw [if_neg h, if_neg, if_neg]
    · intro he
      rw [he] at digit
      revert digit
      decide
    · intro he
      rw [he] at digit
      revert digit
      decide

/-- The authority ends before the path. -/
theorem authorityOf_append (rest tail : List Char) :
    authorityOf (rest ++ version ++ '/' :: tail) = authorityOf (rest ++ version) := by
  unfold authorityOf
  rw [dropWhile_append_of_mem _ (List.mem_append_right rest two_mem_version) (by decide),
    takeWhile_append_cons _ _ (by decide)]

theorem isSome_parse?_path (base tail other : List Char) :
    (parse? (String.ofList (base ++ version ++ '/' :: tail))).isSome =
      (parse? (String.ofList (base ++ version ++ '/' :: other))).isSome := by
  simp only [isSome_parse?, cleaned_append, scheme?_append]
  split
  · cases scheme? (front base) with
    | none => rfl
    | some start =>
      simp only [Option.map_some, Option.bind_some, authorityOf_append]
  · rfl

end Address

/-! ## Requests -/

theorem Operation.exists_path (scope : Scope) (operation : Operation) :
    ∃ tail, (operation.path scope).toList = '/' :: tail := by
  unfold path
  simp only [String.toList_append, List.append_assoc]
  exact ⟨_, rfl⟩

namespace Client

theorem isOk_prepare (client : Client) (method : Method) (path : String)
    (pairs : List (String × String)) (body : Option Json) :
    (client.prepare method path pairs body).isOk =
      ((Address.parse? (client.baseUrl ++ apiVersion ++ path)).isSome &&
        client.token.all isHeaderText) := by
  unfold prepare
  cases Address.parse? (client.baseUrl ++ apiVersion ++ path) with
  | none => rfl
  | some address =>
    dsimp only
    split
    · next h => simp [h, Except.isOk, Except.toBool]
    · next h => simp [h, Except.isOk, Except.toBool]

/-- A client that can send the request of one operation can send that of any. -/
theorem isOk_request (client : Client) (scope other : Scope) (operation operation' : Operation) :
    (client.request scope operation).isOk = (client.request other operation').isOk := by
  have chars : ∀ path : String, client.baseUrl ++ apiVersion ++ path =
      String.ofList (client.baseUrl.toList ++ Address.version ++ path.toList) := by
    intro path
    unfold Address.version
    rw [← String.toList_append, ← String.toList_append, String.ofList_toList]
  obtain ⟨tail, h⟩ := operation.exists_path scope
  obtain ⟨tail', h'⟩ := operation'.exists_path other
  unfold request
  rw [isOk_prepare, isOk_prepare, chars, chars, h, h', Address.isSome_parse?_path _ tail tail']

end Client

end FleetControl
