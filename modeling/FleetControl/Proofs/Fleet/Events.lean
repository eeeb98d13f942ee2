import FleetControl.Fleet.Request
import FleetControl.Proofs.Url.Forms

/-!
# Requests for events

What a request for a page of events says when it is sent: its method, its place, and the pairs that
a server reads in its query.
-/

namespace FleetControl

/-- Whether a request asks for a page of the events of a workflow. The place is a text as a client
writes it; what an identifier makes of it is the reader's. -/
structure Request.AsksForEvents (client : Client) (scope : Scope) (instanceId actionType : String)
    (enhanced : Bool) (token : Option String) (request : Request) : Prop where
  method : request.method.text = "GET"
  bare : request.body = "" ∧ request.contentType = none
  authorization : request.authorization = client.token.map Client.bearer
  place : ∃ address : Address,
    Address.parse? (client.baseUrl ++ "/2022-09-01-00/fleet/service/" ++ scope.service ++
      "/environment/" ++ scope.environment ++ "/instance/" ++ instanceId ++ "/workflow-events") =
        some address ∧
    request.address = { address with query := request.address.query } ∧
    request.address.pairs = address.pairs ++
      [("actionType", actionType), ("enhancedStatus", if enhanced then "true" else "false")] ++
        (token.map fun token => ("nextPageToken", token)).toList

theorem Address.addPairs_eq (address : Address) (pairs : List (String × String)) :
    address.addPairs pairs = { address with query := (address.addPairs pairs).query } := by
  unfold addPairs
  split <;> rfl

namespace Client

theorem eq_ok_of_prepare {client : Client} {method : Method} {path : String}
    {pairs : List (String × String)} {body : Option Json} {request : Request}
    (prepared : client.prepare method path pairs body = .ok request) :
    ∃ address, Address.parse? (client.baseUrl ++ apiVersion ++ path) = some address ∧
      request = ⟨method, if pairs.isEmpty then address else address.addPairs pairs,
        client.token.map bearer, body.map fun _ => "application/json", userAgent,
        (body.map Json.compact).getD ""⟩ := by
  unfold prepare at prepared
  cases read : Address.parse? (client.baseUrl ++ apiVersion ++ path) with
  | none =>
    rw [read] at prepared
    cases prepared
  | some address =>
    rw [read] at prepared
    dsimp only at prepared
    split at prepared
    · exact ⟨address, rfl, (Except.ok.inj prepared).symm⟩
    · cases prepared

theorem asksForEvents {client : Client} {scope : Scope} {instanceId : String} {action : Action}
    {enhanced : Bool} {token : Option String} {request : Request}
    (prepared :
      client.request scope (.workflowEvents instanceId action enhanced token) = .ok request) :
    request.AsksForEvents client scope instanceId action.text enhanced token := by
  obtain ⟨address, read, rfl⟩ := eq_ok_of_prepare prepared
  -- the path, piece by piece as it is put together
  have written : client.baseUrl ++ apiVersion ++
      (Operation.workflowEvents instanceId action enhanced token).path scope =
        client.baseUrl ++ "/2022-09-01-00/fleet/service/" ++ scope.service ++ "/environment/" ++
          scope.environment ++ "/instance/" ++ instanceId ++ "/workflow-events" := by
    have version : apiVersion ++ "/fleet/service/" = "/2022-09-01-00/fleet/service/" := by decide
    rw [← version]
    unfold Operation.path Operation.localPath
    simp only [String.append_assoc]
  rw [written] at read
  refine ⟨rfl, ⟨rfl, rfl⟩, rfl, address, read, Address.addPairs_eq address _, ?_⟩
  have pairs := address.pairs_addPairs
    (Operation.workflowEvents instanceId action enhanced token).pairs
  rw [List.append_assoc]
  refine pairs.trans (congrArg (address.pairs ++ ·) ?_)
  cases token <;> rfl

end Client

end FleetControl
