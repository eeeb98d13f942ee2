import FleetControl.Error
import FleetControl.Fleet.Instance
import FleetControl.Json.Printer
import FleetControl.Url.Address
import FleetControl.Workflow.Query

/-!
# Requests to the fleet API

1. `Operation` is what can be asked of a service environment; `Operation.method`, `Operation.path`
   and `Operation.body` say how it is asked.
2. `Client` holds the address of the API and the token; `Client.request` makes the request of an
   operation, `Client.signIn` the one that asks for a token.
3. A request that cannot be sent is refused before anything is sent.
-/

namespace FleetControl

/-- The methods of requests. -/
inductive Method where
  | get
  | post
  | patch
  | delete
  deriving DecidableEq, Repr, Inhabited

def Method.text : Method → String
  | .get => "GET"
  | .post => "POST"
  | .patch => "PATCH"
  | .delete => "DELETE"

/-- What can be asked of a service environment. -/
inductive Operation where
  | listInstances
  | describeInstance (id : String)
  | createInstance (new : NewInstance)
  | modifyInstance (id : String) (params : Json.Fields)
  | deleteInstance (id : String)
  | power (id : String) (action : PowerAction)
  | listSnapshots (instanceId : String)
  | describeSnapshot (instanceId id : String)
  | createSnapshot (instanceId : String)
  | deleteSnapshot (instanceId id : String)
  | restoreSnapshot (instanceId id : String) (params : Json.Fields)
  | workflowEvents (instanceId : String) (action : Action) (enhanced : Bool) (token : Option String)
  deriving Repr, Inhabited

namespace Operation

def method : Operation → Method
  | .listInstances => .get
  | .describeInstance _ => .get
  | .createInstance _ => .post
  | .modifyInstance _ _ => .patch
  | .deleteInstance _ => .delete
  | .power _ _ => .post
  | .listSnapshots _ => .get
  | .describeSnapshot _ _ => .get
  | .createSnapshot _ => .post
  | .deleteSnapshot _ _ => .delete
  | .restoreSnapshot _ _ _ => .post
  | .workflowEvents _ _ _ _ => .get

/-- The path of an operation within its environment. -/
def localPath : Operation → String
  | .listInstances => "/instances"
  | .describeInstance id => "/instance/" ++ id
  | .createInstance _ => "/instance"
  | .modifyInstance id _ => "/instance/" ++ id
  | .deleteInstance id => "/instance/" ++ id
  | .power id action => "/instance/" ++ id ++ "/" ++ action.segment
  | .listSnapshots i => "/instance/" ++ i ++ "/snapshot"
  | .describeSnapshot i id => "/instance/" ++ i ++ "/snapshot/" ++ id
  | .createSnapshot i => "/instance/" ++ i ++ "/snapshot"
  | .deleteSnapshot i id => "/instance/" ++ i ++ "/snapshot/" ++ id
  | .restoreSnapshot i id _ => "/instance/" ++ i ++ "/snapshot/" ++ id ++ "/restore"
  | .workflowEvents i _ _ _ => "/instance/" ++ i ++ "/workflow-events"

def path (scope : Scope) (operation : Operation) : String :=
  "/fleet/service/" ++ scope.service ++ "/environment/" ++ scope.environment ++ operation.localPath

/-- The pairs that an operation adds to the query. -/
def pairs : Operation → List (String × String)
  | .workflowEvents _ action enhanced token =>
    [("actionType", action.text), ("enhancedStatus", if enhanced then "true" else "false")] ++
      match token with
      | none => []
      | some token => [("nextPageToken", token)]
  | _ => []

def body : Operation → Option Json
  | .createInstance new => some new.toJson
  | .modifyInstance _ params => some (.object [("requestParams", .object params)])
  | .restoreSnapshot _ _ params => some (.object [("inputParametersOverride", .object params)])
  | _ => none

/-- The operation that asks for a page of events. -/
def ofQuery (query : Query) (token : Option String) : Operation :=
  .workflowEvents query.instanceId query.action query.enhanced token

end Operation

/-- A request as it is sent. -/
structure Request where
  method : Method
  address : Address
  authorization : Option String
  contentType : Option String
  userAgent : String
  body : String
  deriving Repr, Inhabited

/-- The address of the API and the token, if there is one. -/
structure Client where
  baseUrl : String
  token : Option String
  deriving DecidableEq, Repr, Inhabited

namespace Client

def apiVersion : String := "/2022-09-01-00"

def userAgent : String := "omnistrate-ctl/0.1.0"

/-- A client for an address, which must be one of the web; slashes at its end are dropped. -/
def new (address : String) (token : Option String) : Except ConfigFault Client :=
  if Text.startsWith address "http://" || Text.startsWith address "https://" then
    .ok ⟨String.ofList (Text.dropEnd (· == '/') address.toList), token⟩
  else .error (.badAddress address)

/-- Whether a token can stand in a header: no control character other than a tab. -/
def isHeaderText (s : String) : Bool :=
  s.toList.all fun c => c == '\t' || (0x20 ≤ c.toNat && c.toNat != 0x7F)

/-- The header that shows a token; blanks at its end are not sent. -/
def bearer (token : String) : String :=
  String.ofList (Text.dropEnd (fun c => c == ' ' || c == '\t') ("Bearer " ++ token).toList)

def prepare (client : Client) (method : Method) (path : String) (pairs : List (String × String))
    (body : Option Json) : Except RequestFault Request :=
  match Address.parse? (client.baseUrl ++ apiVersion ++ path) with
  | none => .error .unsendable
  | some address =>
    if client.token.all isHeaderText then
      .ok {
        method, userAgent
        address := if pairs.isEmpty then address else address.addPairs pairs
        authorization := client.token.map bearer
        contentType := body.map fun _ => "application/json"
        body := (body.map Json.compact).getD "" }
    else .error .unsendable

def request (client : Client) (scope : Scope) (operation : Operation) :
    Except RequestFault Request :=
  client.prepare operation.method (operation.path scope) operation.pairs operation.body

def signIn (client : Client) (email password : String) : Except RequestFault Request :=
  client.prepare .post "/signin" []
    (some (.object [("email", .string email), ("password", .string password)]))

end Client

end FleetControl
