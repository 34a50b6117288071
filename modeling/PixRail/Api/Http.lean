import PixRail.Api.Callbacks
import PixRail.Api.Metrics
import PixRail.Interleave.Layer
import PixRail.Store.Listings
import PixRail.Switcher.System

/-!
# The HTTP server

`internal/api/server.go` as a layer in front of the switch.  A request goes
through the middleware, the authorisation and a handler.  A handler answers
by itself, or hands one call over to the service and answers with its
outcome.  The operations of the server are the clock, the health and the
outbox of the store, and the metrics.

`http.ServeMux` is not modelled: a request carries the endpoint that it was
routed to.  A payload is what is given to `json.Encoder`.  Spans and log
lines are left out.
-/

namespace PixRail.Api

open Go Config Rail Events Store Interleave Switcher Messaging

/-! ## Requests and responses -/

/-- The routes of the server, with the path values. -/
inductive Endpoint where
  | healthz
  | readyz
  | metrics
  | transfers
  | transfer (id : GoString)
  | spiSubmissions (id : GoString)
  | reviews (id : GoString)
  | spiCallbacks (id : GoString)
  | outbox
  deriving DecidableEq

/-- The role that a route asks for. -/
def Endpoint.role : Endpoint → Option APIKeyRole
  | healthz => none
  | readyz => none
  | metrics => none
  | transfers => some roleTenant
  | transfer _ => some roleTenant
  | spiSubmissions _ => some roleWorker
  | reviews _ => some roleRisk
  | spiCallbacks _ => some roleProvider
  | outbox => some roleTenant

/-- Where the mux sends a request. -/
inductive Target where
  | endpoint (e : Endpoint)
  /-- No route, or none for the method. -/
  | refused (status : Nat)
  deriving DecidableEq

/-- A request.  The body is `none` when it cannot be read. -/
structure HttpRequest extends Request where
  method : GoString
  path : GoString
  target : Target
  idempotencyKey : GoString := []
  xRequestID : GoString := []
  xCorrelationID : GoString := []
  timestamp : GoString := []
  signature : GoString := []
  body : Option GoString := none
  deriving DecidableEq

/-- `createTransferPayload`. -/
structure CreateTransferPayload where
  accountID : GoString
  amountCents : Int
  currency : GoString
  receiverKey : GoString
  receiverKeyType : DictKeyType
  description : GoString

/-- `reviewPayload`. -/
structure ReviewPayload where
  decision : ReviewDecision
  reason : GoString

/-- The library functions of the server. -/
structure ServerLib extends CallbackLib where
  /-- `json.NewDecoder(body).Decode` into a `createTransferPayload`. -/
  decodeTransfer : Option GoString → Option CreateTransferPayload
  /-- `json.NewDecoder(body).Decode` into a `reviewPayload`. -/
  decodeReview : Option GoString → Option ReviewPayload
  /-- `t.Format("20060102150405.000000000")`. -/
  format : Time → GoString

/-- The `data` of `transferResponse`. -/
structure TransferData where
  id : GoString
  tenantID : GoString
  accountID : GoString
  status : TransferStatus
  amountCents : Int
  currency : GoString
  receiverKeyType : DictKeyType
  receiverName : GoString
  receiverBank : GoString
  fraudScore : Int
  fraudRules : List GoString
  decisionReason : GoString
  spiMessageID : GoString
  endToEndID : GoString
  settlementCode : GoString
  createdAt : Time
  updatedAt : Time
  deriving DecidableEq

/-- The payloads that the server writes. -/
inductive Body where
  /-- A `map[string]string`. -/
  | fields (fields : List (GoString × GoString))
  | error (code message : GoString)
  | transfer (data : TransferData) (idempotentReplay : Bool)
  | outbox (data : List OutboxRecord)
  | metrics (m : Metrics)
  /-- What the mux writes. -/
  | refusal

/-- The status and the payload that a handler writes. -/
structure Reply where
  status : Nat
  body : Body

/-- A reply with the headers of the middleware. -/
structure HttpResponse extends Reply where
  requestID : GoString
  correlationID : GoString

/-- `writeError`. -/
def writeError (status : Nat) (code message : GoString) : Reply := ⟨status, .error code message⟩

/-- `transferResponse`. -/
def transferResponse (transfer : Transfer) (replay : Bool) : Body :=
  .transfer {
    id := transfer.id
    tenantID := transfer.tenantID
    accountID := transfer.accountID
    status := transfer.status
    amountCents := transfer.amountCents
    currency := transfer.currency
    receiverKeyType := transfer.receiverKeyType
    receiverName := transfer.receiverName
    receiverBank := transfer.receiverBank
    fraudScore := transfer.fraudScore
    fraudRules := transfer.fraudRules
    decisionReason := transfer.decisionReason
    spiMessageID := transfer.spiMessageID
    endToEndID := transfer.endToEndID
    settlementCode := transfer.settlementCode
    createdAt := transfer.createdAt
    updatedAt := transfer.updatedAt } replay

/-- `Server.handleDomainError`. -/
def handleDomainError (err : Err) : Reply :=
  if err.is .validation then writeError 400 (go "validation_failed") err.text
  else if err.is .unauthorized then writeError 401 (go "unauthorized") err.text
  else if err.is .rateLimited then writeError 429 (go "rate_limited") err.text
  else if err.is .notFound then writeError 404 (go "not_found") err.text
  else if err.is .conflict then writeError 409 (go "conflict") err.text
  else if err.is .dependencyFailed then writeError 502 (go "dependency_failed") err.text
  else writeError 500 (go "internal_error") (go "unexpected error")

/-- The reply of an error response.  `handled` is not one. -/
def refusal : Response → Reply
  | .error status code message => writeError status code message
  | .handled _ => ⟨200, .fields []⟩

/-- `routeLabel` of a path. -/
def routeLabel (path : GoString) : GoString :=
  if (go "/v1/pix/transfers/").isPrefixOf path ∧ (go "/spi-callbacks").isSuffixOf path then
    go "/v1/pix/transfers/\x7bid\x7d/spi-callbacks"
  else if (go "/v1/pix/transfers/").isPrefixOf path ∧ (go "/spi-submissions").isSuffixOf path then
    go "/v1/pix/transfers/\x7bid\x7d/spi-submissions"
  else if (go "/v1/pix/transfers/").isPrefixOf path ∧ (go "/reviews").isSuffixOf path then
    go "/v1/pix/transfers/\x7bid\x7d/reviews"
  else if (go "/v1/pix/transfers/").isPrefixOf path then go "/v1/pix/transfers/\x7bid\x7d"
  else path

/-! ## Operations -/

/-- The operations of the server. -/
inductive ServerOp where
  /-- `time.Now()`. -/
  | now
  /-- `service.Health`, with a context of its own. -/
  | health
  /-- `service.Outbox`. -/
  | outbox
  /-- A call of an `Observe` method. -/
  | observe (o : Observation)
  /-- The metrics that `WritePrometheus` reads. -/
  | metrics

@[reducible] def ServerOp.Ret : ServerOp → Type
  | now => Time
  | health => Ctx
  | outbox => Except Err (List OutboxRecord)
  | observe _ => Unit
  | metrics => Metrics

abbrev serverSig : Sig := ⟨ServerOp, ServerOp.Ret⟩

/-- A program of the server without a call to the service. -/
abbrev Local := Prog serverSig

def act (o : ServerOp) : Local o.Ret := Prog.perform (S := serverSig) o

/-- A result, or a call to the service and what is done with its outcome. -/
abbrev Served (E : Env) (β : Type) := β ⊕ Serve (switch E) serverSig β

/-- A handler. -/
abbrev Handler (E : Env) := Local (Served E Reply)

section handlers

variable {E : Env} (srv : Server) (L : ServerLib)

/-- Answers without a call to the service. -/
def answer (reply : Reply) : Handler E := .ret (.inl reply)

/-- Hands a call over to the service. -/
def serve (c : Call) (after : Outcome → Local Reply) : Handler E := .ret (.inr ⟨c, after⟩)

/-- What a handler does with a `Result`.  No other outcome belongs to the
calls it is used for. -/
def onResult (status : Result → Nat) : Outcome → Local Reply
  | .result (.error err) => return handleDomainError err
  | .result (.ok result) => do
    let _ ← act (.observe (.decision result.transfer.status.text))
    let _ ← act (.observe (.events result.events.length))
    return ⟨status result, transferResponse result.transfer result.idempotentReplay⟩
  | _ => return handleDomainError ⟨[], []⟩

/-! ## Handlers -/

/-- `Server.health`. -/
def Server.health : Handler E :=
  answer ⟨200, .fields [(go "status", go "ok"), (go "component", go "pixrail-api")]⟩

/-- `Server.ready`. -/
def Server.ready : Handler E := do
  match ← act .health with
  | some err =>
    answer ⟨503, .fields [(go "status", go "unavailable"), (go "dependency", go "store"),
      (go "error", err.err.text)]⟩
  | none => answer ⟨200, .fields [(go "status", go "ready"), (go "dependency", go "store")]⟩

/-- `Server.metricsHandler`. -/
def Server.metricsHandler : Handler E := do
  let m ← act .metrics
  answer ⟨200, .metrics m⟩

/-- `Server.createTransfer`. -/
def Server.createTransfer (tenantID correlationID : GoString) (r : HttpRequest) : Handler E :=
  match L.decodeTransfer r.body with
  | none => answer (writeError 400 (go "invalid_json") (go "request body must be valid JSON"))
  | some payload => do
    let requestedAt ← act .now
    serve (.createTransfer {
        tenantID := tenantID
        accountID := payload.accountID
        idempotencyKey := r.idempotencyKey
        correlationID := correlationID
        amountCents := payload.amountCents
        currency := payload.currency
        receiverKey := payload.receiverKey
        receiverKeyType := payload.receiverKeyType
        description := payload.description
        requestedAt := requestedAt })
      (onResult fun result => if result.idempotentReplay then 200 else 201)

/-- `Server.getTransfer`. -/
def Server.getTransfer (tenantID id : GoString) : Handler E :=
  serve (.getTransfer tenantID id) fun out =>
    match out with
    | .transfer (.error err) => return handleDomainError err
    | .transfer (.ok transfer) => return ⟨200, transferResponse transfer false⟩
    | _ => return handleDomainError ⟨[], []⟩

/-- `Server.submitToSPI`. -/
def Server.submitToSPI (tenantID id correlationID : GoString) : Handler E :=
  serve (.submitToSPI tenantID id correlationID) (onResult fun _ => 200)

/-- `Server.recordReview`. -/
def Server.recordReview (tenantID id correlationID : GoString) (r : HttpRequest) : Handler E :=
  match L.decodeReview r.body with
  | none => answer (writeError 400 (go "invalid_json") (go "request body must be valid JSON"))
  | some payload => do
    let reviewedAt ← act .now
    serve (.recordReview {
        tenantID := tenantID
        transferID := id
        decision := payload.decision
        reason := payload.reason
        correlationID := correlationID
        reviewedAt := reviewedAt })
      (onResult fun _ => 200)

/-- What `readAndVerifyProviderCallback` reads of a request. -/
def HttpRequest.callback (r : HttpRequest) (id correlationID : GoString) : CallbackRequest where
  toRequest := r.toRequest
  id := id
  timestamp := r.timestamp
  signature := r.signature
  body := r.body
  correlationID := correlationID

/-- `Server.recordSettlement`.  The two readings of the clock, that of the
signature and that of the receipt, are both taken at the start. -/
def Server.recordSettlement (tenantID id correlationID : GoString) (r : HttpRequest) :
    Handler E := do
  let now ← act .now
  let receivedAt ← act .now
  match Api.recordSettlement srv L.toCallbackLib now receivedAt tenantID
      (r.callback id correlationID) with
  | .error response => answer (refusal response)
  | .ok callback => serve (.recordSettlement callback) (onResult fun _ => 200)

/-- `Server.outbox`. -/
def Server.outbox (tenantID : GoString) : Handler E := do
  match ← act .outbox with
  | .error err => answer (writeError 500 (go "outbox_read_failed") err.text)
  | .ok records =>
    answer ⟨200, .outbox (records.filter fun record => record.event.tenantID = tenantID)⟩

/-- `Server.authRole`. -/
def Server.authRole (role : APIKeyRole) (r : HttpRequest) (next : GoString → Handler E) :
    Handler E :=
  match Api.authRole srv.keys role r.toRequest with
  | .error status code message => answer (writeError status code message)
  | .handled tenantID => next tenantID

/-- The routes of `Server.routes`. -/
def Server.route (r : HttpRequest) (correlationID : GoString) : Endpoint → Handler E
  | .healthz => Server.health
  | .readyz => Server.ready
  | .metrics => Server.metricsHandler
  | .transfers => srv.authRole roleTenant r fun tenantID =>
      Server.createTransfer L tenantID correlationID r
  | .transfer id => srv.authRole roleTenant r fun tenantID => Server.getTransfer tenantID id
  | .spiSubmissions id => srv.authRole roleWorker r fun tenantID =>
      Server.submitToSPI tenantID id correlationID
  | .reviews id => srv.authRole roleRisk r fun tenantID =>
      Server.recordReview L tenantID id correlationID r
  | .spiCallbacks id => srv.authRole roleProvider r fun tenantID =>
      srv.recordSettlement L tenantID id correlationID r
  | .outbox => srv.authRole roleTenant r fun tenantID => Server.outbox tenantID

/-- The mux with the routes. -/
def Server.mux (r : HttpRequest) (correlationID : GoString) : Handler E :=
  match r.target with
  | .endpoint e => srv.route L r correlationID e
  | .refused status => answer ⟨status, .refusal⟩

/-- `headerOrNew`. -/
def headerOrNew (value tag : GoString) : Local GoString :=
  if trimSpace value ≠ [] then return trimSpace value
  else do
    let now ← act .now
    return tag ++ go "_" ++ (L.format now).filter (· ≠ 46)

/-- The end of `logAndMetricsMiddleware`. -/
def observeRequest (r : HttpRequest) (started : Time) (requestID correlationID : GoString)
    (reply : Reply) : Local HttpResponse := do
  let ended ← act .now
  let _ ← act (.observe (.request r.method (routeLabel r.path) reply.status
    (timeSub ended started)))
  return { reply with requestID := requestID, correlationID := correlationID }

/-- `logAndMetricsMiddleware` around the mux. -/
def Server.handler (r : HttpRequest) : Local (Served E HttpResponse) := do
  let started ← act .now
  let requestID ← headerOrNew L r.xRequestID (go "req")
  let correlationID ← headerOrNew L r.xCorrelationID (go "corr")
  Front.andThen (srv.mux L r correlationID) (observeRequest r started requestID correlationID)

end handlers

/-! ## The server in front of the switch -/

/-- What comes in: a request, or a batch of the worker or of the relay on the
same store. -/
inductive Incoming where
  | request (r : HttpRequest)
  | submitPendingSPI (limit : Int)
  | drain (policy : RetryPolicy) (limit : Int)
  deriving DecidableEq

/-- What goes out. -/
inductive Outgoing where
  | response (r : HttpResponse)
  | finished (out : Outcome)

/-- What a step of the server takes from outside: the clock, and the state of
the context. -/
structure ServerInput where
  now : Time
  ctx : Ctx := none

def serverHandle {E : Env} : (o : ServerOp) → ServerInput → State E → Metrics →
    Option (o.Ret × Metrics)
  | .now, i, _, m => some (i.now, m)
  | .health, i, _, m => some (i.ctx, m)
  | .outbox, i, s, m => some (s.store.outbox i.ctx, m)
  | .observe o, _, _, m => some ((), m.observe o)
  | .metrics, _, _, m => some (m, m)

/-- A batch, which answers no request. -/
def background {E : Env} (c : Call) : Front (switch E) serverSig Outgoing :=
  .ret (.inr ⟨c, fun out => return .finished out⟩)

def Server.body {E : Env} (srv : Server) (L : ServerLib) :
    Incoming → Front (switch E) serverSig Outgoing
  | .request r => Front.andThen (srv.handler L r) fun response => return .response response
  | .submitPendingSPI limit => background (.submitPendingSPI limit)
  | .drain policy limit => background (.drain policy limit)

/-- The server as a layer. -/
@[reducible] def server (E : Env) (srv : Server) (L : ServerLib) :
    Layer (switch E) serverSig where
  Input := ServerInput
  State := Metrics
  Call := Incoming
  Out := Outgoing
  handle := serverHandle
  body := srv.body L

/-- A run of the server and the switch from their start. -/
abbrev ServerRuns (E : Env) (srv : Server) (L : ServerLib) (tl dl : Option E.Lim) (started : Time)
    (tr : Trace (server E srv L).system) (w : World (server E srv L).system) : Prop :=
  Run (.init (State.initial E tl dl, newMetrics started)) tr w

/-- Call `cid` has answered the request. -/
abbrev Responded {E : Env} {srv : Server} {L : ServerLib} (w : World (server E srv L).system)
    (cid : Nat) (r : HttpRequest) (resp : HttpResponse) : Prop :=
  w.threads cid = some ⟨.request r, .ret (.response resp)⟩

end PixRail.Api
