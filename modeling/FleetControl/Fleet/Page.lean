import FleetControl.Workflow.Record

/-!
# Pages of workflow events

The events of a workflow come in pages; a fetch is what all pages say together.

1. `Fetch.addPage` merges a page: the entries of one resource become one, its events in order.
2. `Page.next?` is the token of the following page; `Page.follows` says whether it is asked for.
-/

namespace FleetControl

/-- One page of workflow events. -/
structure Page where
  resources : List Resource
  workflow : Option WorkflowRecord
  token : Option String
  deriving Repr, Inhabited

namespace Page

open Json in
/-- Reads a page; everything may be absent. -/
def decoder : Decoder Page := fun depth t => do
  let slots ← Slots.ofTree "WorkflowEventsPage"
    [["resources"], ["workflowInfo", "workflow"], ["nextPageToken"]] depth t
  let resources ← slots.defaulted 0 [] (Decoder.list Resource.decoder)
  let workflow ← slots.defaulted 1 none (Decoder.nullable WorkflowRecord.decoder)
  let token ← slots.defaulted 2 none (Decoder.nullable Decoder.string)
  pure ⟨resources, workflow, token⟩

/-- The token of the following page, unless it is empty. -/
def next? (page : Page) : Option String :=
  page.token.filter fun token => !token.isEmpty

/-- The token to ask for after a page that was asked for with `asked`: one that differs. -/
def follows (page : Page) (asked : Option String) : Option String :=
  page.next?.filter fun token => some token != asked

end Page

namespace Resource

/-- One entry for two of the same resource: the events of both, the first name, the last status that
is not blank. -/
def merge (first later : Resource) : Resource where
  id := first.id
  name := if first.name.isEmpty then later.name else first.name
  steps := first.steps.append later.steps
  explicit := if later.explicit?.isSome then later.explicit else first.explicit

end Resource

namespace Fetch

/-- Merges an entry into the first with its key, or puts it at the end. -/
def addResource : List Resource → Resource → List Resource
  | [], later => [later]
  | first :: rest, later =>
    if first.key = later.key then first.merge later :: rest else first :: addResource rest later

/-- Merges a page: its entries in order, and its workflow record if it has one. -/
def addPage (fetch : Fetch) (page : Page) : Fetch where
  resources := page.resources.foldl addResource fetch.resources
  workflow := page.workflow <|> fetch.workflow

def ofPages (pages : List Page) : Fetch :=
  pages.foldl addPage empty

/-! ## Small lemmas -/

theorem ofPages_snoc (pages : List Page) (page : Page) :
    ofPages (pages ++ [page]) = (ofPages pages).addPage page := by
  unfold ofPages
  rw [List.foldl_append]
  rfl

end Fetch

end FleetControl
