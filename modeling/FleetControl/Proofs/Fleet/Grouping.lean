import FleetControl.Fleet.Collect
import FleetControl.Proofs.Fleet.Sendable
import FleetControl.Proofs.Poll.Turn

/-!
# Answers in groups

What the answers of an API mean to a poll run, without the requests that ask for them.

1. `Fetch.grouped` scans answers for pages and cuts after each fetch: a page that fails ends a
   fetch and loses it.
2. `grouped_gather` says that fetching page by page brings exactly these fetches, in this order.
   Only whether a fetch failed counts, not how.
-/

namespace FleetControl

/-- The page in an answer, if it has one. -/
def Answer.page? : Answer → Option Page
  | .dropped | .failed _ => none
  | .answered status body =>
    if isSuccess status then (Json.read Page.decoder (bodyOf status body)).toOption else none

namespace Fetch

/-- Cuts answers into fetches; `asked` is the token of the next page and `pages` are those of the
fetch so far. A fetch goes on after a page that names another token, up to `maxPages` pages. -/
def groupedFrom (asked : Option String) (pages : List Page) : List Answer → List (Option Fetch)
  | [] => []
  | answer :: rest =>
    match answer.page? with
    | none => none :: groupedFrom none [] rest
    | some page =>
      let pages := pages ++ [page]
      match page.follows asked with
      | none => some (ofPages pages) :: groupedFrom none [] rest
      | some next =>
        if pages.length < maxPages then groupedFrom (some next) pages rest
        else some (ofPages pages) :: groupedFrom none [] rest

theorem groupedFrom_cons (asked : Option String) (pages : List Page) (answer : Answer)
    (rest : List Answer) :
    groupedFrom asked pages (answer :: rest) =
      match answer.page? with
      | none => none :: groupedFrom none [] rest
      | some page =>
        match page.follows asked with
        | none => some (ofPages (pages ++ [page])) :: groupedFrom none [] rest
        | some next =>
          if (pages ++ [page]).length < maxPages then groupedFrom (some next) (pages ++ [page]) rest
          else some (ofPages (pages ++ [page])) :: groupedFrom none [] rest := rfl

/-- The fetches in a list of answers, in order; one that failed is `none`. -/
def grouped (answers : List Answer) : List (Option Fetch) :=
  groupedFrom none [] answers

theorem prefix_groupedFrom (asked : Option String) (pages : List Page) (answers more : List Answer) :
    groupedFrom asked pages answers <+: groupedFrom asked pages (answers ++ more) := by
  induction answers generalizing asked pages with
  | nil => exact List.nil_prefix
  | cons answer rest ih =>
    rw [List.cons_append, groupedFrom_cons, groupedFrom_cons]
    cases answer.page? with
    | none => exact List.cons_prefix_cons.mpr ⟨rfl, ih none []⟩
    | some page =>
      dsimp only
      cases page.follows asked with
      | none => exact List.cons_prefix_cons.mpr ⟨rfl, ih none []⟩
      | some next =>
        dsimp only
        split
        · exact ih (some next) (pages ++ [page])
        · exact List.cons_prefix_cons.mpr ⟨rfl, ih none []⟩

theorem toOption_readPage (request : Request) (answer : Answer) :
    (readPage request answer).toOption = answer.page? := by
  unfold readPage Answer.page?
  cases answer with
  | dropped | failed => rfl
  | answered status body =>
    unfold Answer.accepted Answer.decode
    dsimp only
    split
    · simp only [bind, Except.bind]
      cases Json.read Page.decoder (Answer.bodyOf status body) <;> rfl
    · rfl

/-- Fetching page by page takes the first fetch off the answers. -/
theorem groupedFrom_collectFrom {client : Client} {query : Query}
    (sendable : ∀ token, (client.request query.scope (Operation.ofQuery query token)).isOk)
    (left : Nat) (token : Option String) (pages : List Page) (answers : List Answer)
    (room : pages.length + (left + 1) = maxPages) :
    let collected := collectFrom client query (left + 1) token (ofPages pages) answers
    match collected.result with
    | none => groupedFrom token pages answers = []
    | some result =>
      groupedFrom token pages answers = result.toOption :: groupedFrom none [] collected.rest ∧
        collected.rest.length < answers.length := by
  induction answers generalizing left token pages with
  | nil =>
    have sendable_now := sendable token
    unfold collectFrom
    cases hr : client.request query.scope (Operation.ofQuery query token) with
    | error fault =>
      rw [hr] at sendable_now
      cases sendable_now
    | ok request => rfl
  | cons answer rest ih =>
    have sendable_now := sendable token
    unfold collectFrom
    rw [groupedFrom_cons token pages]
    cases hr : client.request query.scope (Operation.ofQuery query token) with
    | error fault =>
      rw [hr] at sendable_now
      cases sendable_now
    | ok request =>
      dsimp only
      rw [← toOption_readPage request answer]
      cases readPage request answer with
      | error e => exact ⟨rfl, Nat.lt_succ_self _⟩
      | ok page =>
        dsimp only [Except.toOption]
        rw [← ofPages_snoc]
        cases page.follows token with
        | none => exact ⟨rfl, Nat.lt_succ_self _⟩
        | some next =>
          -- the page bound counts the pages so far, fetching the ones that are left
          cases left with
          | zero =>
            have full : ¬ (pages ++ [page]).length < maxPages := by
              rw [List.length_append, List.length_singleton]
              omega
            dsimp only
            rw [if_neg full]
            exact ⟨rfl, Nat.lt_succ_self _⟩
          | succ left =>
            have more : (pages ++ [page]).length + (left + 1) = maxPages := by
              rw [List.length_append, List.length_singleton]
              omega
            have later := ih left (some next) (pages ++ [page]) more
            dsimp only [Collected.asked] at later ⊢
            rw [if_pos (by omega)]
            revert later
            cases (collectFrom client query (left + 1) (some next) (ofPages (pages ++ [page]))
              rest).result with
            | none => exact id
            | some result => exact fun later => ⟨later.1, Nat.lt_succ_of_lt later.2⟩

/-- What a poll run sees of a fetch is prompt and brings what the fetch brought. -/
theorem reply?_spec {collected : Collected} {reply : Reply} (h : collected.reply? = some reply) :
    reply.delay = 0 ∧ reply.cancels = false ∧
      some reply.brings = collected.result.map Except.toOption := by
  unfold Collected.reply? at h
  cases hr : collected.result with
  | none =>
    rw [hr] at h
    cases h
  | some result =>
    rw [hr] at h
    cases result <;> cases h <;> exact ⟨rfl, rfl, rfl⟩

theorem brings_gatherFrom {client : Client} {query : Query}
    (sendable : ∀ token, (client.request query.scope (Operation.ofQuery query token)).isOk)
    (fuel : Nat) (answers : List Answer) (enough : answers.length < fuel) :
    ((gatherFrom client query fuel answers).filterMap Collected.reply?).map Reply.brings =
      grouped answers := by
  -- every fetch takes at least one answer, so fuel past the number of answers is enough
  induction fuel generalizing answers with
  | zero => exact absurd enough (Nat.not_lt_zero _)
  | succ fuel ih =>
    have first := groupedFrom_collectFrom sendable (maxPages - 1) none [] answers rfl
    change match (collect client query answers).result with | none => _ | some result => _ at first
    unfold gatherFrom grouped
    dsimp only
    cases hr : (collect client query answers).result with
    | none =>
      rw [hr] at first
      rw [show groupedFrom none [] answers = [] from first, List.filterMap_cons]
      unfold Collected.reply?
      rw [hr]
      rfl
    | some result =>
      rw [hr] at first
      have shorter : (collect client query answers).rest.length < answers.length := first.2
      rw [show groupedFrom none [] answers = _ from first.1, List.filterMap_cons]
      have rest := ih (collect client query answers).rest (by omega)
      unfold Collected.reply?
      rw [hr]
      cases result <;> exact congrArg _ rest

/-- Fetching brings the fetches in the answers. -/
theorem grouped_gather {client : Client} {query : Query}
    (sendable : ∀ token, (client.request query.scope (Operation.ofQuery query token)).isOk)
    (answers : List Answer) :
    ((gather client query answers).filterMap Collected.reply?).map Reply.brings = grouped answers :=
  brings_gatherFrom sendable _ answers (Nat.lt_succ_self _)

end Fetch

end FleetControl
