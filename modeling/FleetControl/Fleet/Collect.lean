import FleetControl.Fleet.Answer
import FleetControl.Poll.Run

/-!
# Collecting the pages of a workflow

A fetch asks for page after page and merges them. The API is given by the answers that it has left.

1. `collect` asks for at most `maxPages` pages; a page is followed by another if it names a token
   that is neither empty nor the one it was asked for with.
2. A page that fails loses the whole fetch, and so does a request that cannot be sent. An answer that
   is missing leaves a request pending.
3. `gather` goes on fetching for as long as there are answers; `Collected.reply` is what a poll run
   sees of a fetch.
-/

namespace FleetControl

def maxPages : Nat := 50

/-- What a fetch sent, which answers it left, and what it brought; nothing if its last request is
still pending. -/
structure Collected where
  sent : List Request
  rest : List Answer
  result : Option (Except Error Fetch)

namespace Collected

def asked (request : Request) (collected : Collected) : Collected :=
  { collected with sent := request :: collected.sent }

/-- What a poll run sees of a fetch. -/
def reply? (collected : Collected) : Option Reply :=
  collected.result.map fun result =>
    match result with
    | .ok fetch => .prompt (.ok fetch)
    | .error e => .prompt (.error (.fetch e.message))

end Collected

namespace Fetch

def readPage (request : Request) (answer : Answer) : Except Error Page := do
  let body ← answer.accepted request
  Answer.decode Page.decoder body

/-- Asks for at most `pages` more pages, beginning with a token, and merges them into a fetch. -/
def collectFrom (client : Client) (query : Query) :
    Nat → Option String → Fetch → List Answer → Collected
  | 0, _, fetch, answers => ⟨[], answers, some (.ok fetch)⟩
  | pages + 1, token, fetch, answers =>
    match client.request query.scope (Operation.ofQuery query token) with
    | .error fault => ⟨[], answers, some (.error (.request fault))⟩
    | .ok request =>
      match answers with
      | [] => ⟨[request], [], none⟩
      | answer :: rest =>
        match readPage request answer with
        | .error e => ⟨[request], rest, some (.error e)⟩
        | .ok page =>
          let fetch := fetch.addPage page
          match page.follows token with
          | none => ⟨[request], rest, some (.ok fetch)⟩
          | some next =>
            (collectFrom client query pages (some next) fetch rest).asked request

def collect (client : Client) (query : Query) (answers : List Answer) : Collected :=
  collectFrom client query maxPages none empty answers

/-- Fetch after fetch, by at most `fuel`, up to the first that stays pending. A fetch that sends
nothing takes no answer, so only `fuel` ends it. -/
def gatherFrom (client : Client) (query : Query) : Nat → List Answer → List Collected
  | 0, _ => []
  | fuel + 1, answers =>
    let collected := collect client query answers
    match collected.result with
    | none => [collected]
    | some _ => collected :: gatherFrom client query fuel collected.rest

/-- Fetch after fetch for as long as there are answers. -/
def gather (client : Client) (query : Query) (answers : List Answer) : List Collected :=
  gatherFrom client query (answers.length + 1) answers

end Fetch

end FleetControl
