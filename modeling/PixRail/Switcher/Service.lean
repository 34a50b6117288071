import PixRail.Switcher.Ports

/-!
# The service

`internal/switcher/service.go`.  Each method is a program over the
operations of `Ports`; the text between two operations is the local
computation of the method.  `if err != nil { return Result{}, err }` is the
`.error` branch of a match.

`CreateTransfer` is cut at its seams: `createTransfer` normalises, validates
and looks the idempotency key up, `decideTransfer` asks the limiters and the
two ports, `persist` builds the transfer with its events and inserts it.
-/

namespace PixRail.Switcher

open Go Rail Events Store Interleave

/-- The library functions the service takes as they are. -/
structure Lib where
  digest : Digest
  marshal : Payload → Except Err GoString

structure Result where
  transfer : Transfer
  idempotentReplay : Bool := false
  events : List Event := []

structure SPIBatchResult where
  scanned : Nat := 0
  submitted : Nat := 0
  replayed : Nat := 0
  skipped : Nat := 0
  deriving DecidableEq

def spiClaimTTL : Duration := 30 * second

variable (L : Lib)

/-! ## `CreateTransfer` -/

/-- The verdict on a transfer found under the idempotency key of a request
with that hash. -/
def replayOf (requestHash : GoString) (transfer : Transfer) : Except Err Result :=
  if transfer.requestHash ≠ [] ∧ transfer.requestHash ≠ requestHash then
    .error (ErrKind.conflict.wrap (go "idempotency key reused with different request payload"))
  else .ok { transfer := transfer, idempotentReplay := true }

/-- The `addEvent` closure of `CreateTransfer`: an event whose payload does
not marshal is dropped. -/
def addEvent (transfer : Transfer) (outbox : List Event) (eventType : EventType)
    (payload : Payload) : Code (List Event) := do
  let eventID ← perform (.newID (go "evt"))
  let occurredAt ← perform .now
  match newEvent L.marshal eventID eventType.name transfer.tenantID transfer.accountID
      transfer.id transfer.correlationID occurredAt payload with
  | .error _ => return outbox
  | .ok event => return outbox ++ [event]

/-- The events of a new transfer. -/
def creationEvents (transfer : Transfer) (dictEntry : DictEntry) (decision : FraudDecision)
    (requestHash : GoString) : Code (List Event) := do
  let outbox ← addEvent L transfer [] .pixTransferRequested
    [(go "amount_cents", .num transfer.amountCents), (go "currency", .str transfer.currency),
      (go "receiver_key_type", .str transfer.receiverKeyType.text)]
  let outbox ← addEvent L transfer outbox .dictKeyResolved
    [(go "receiver_id", .str dictEntry.receiverID),
      (go "receiver_bank", .str dictEntry.bankISPB),
      (go "risk_signal", .num dictEntry.riskSignal)]
  let outbox ← addEvent L transfer outbox .fraudScoreCalculated
    [(go "score", .num decision.score), (go "status", .str decision.status.text),
      (go "rules", .strs decision.rules)]
  if decision.status = .accepted then
    let outbox ← addEvent L transfer outbox .pixTransferAccepted
      [(go "decision_reason", .str transfer.decisionReason)]
    addEvent L transfer outbox .spiSubmissionRequested
      [(go "request_hash", .str requestHash)]
  else if decision.status = .review then
    addEvent L transfer outbox .pixTransferReviewRequested
      [(go "score", .num decision.score), (go "rules", .strs decision.rules),
        (go "decision_reason", .str decision.reason)]
  else if decision.status = .blocked then
    addEvent L transfer outbox .pixTransferBlocked
      [(go "score", .num decision.score), (go "rules", .strs decision.rules),
        (go "decision_reason", .str decision.reason)]
  else return outbox

/-- The transfer that `CreateTransfer` builds. -/
def newTransfer (id : GoString) (now : Time) (req : CreateTransferRequest)
    (requestHash : GoString) (dictEntry : DictEntry) (decision : FraudDecision) : Transfer where
  id := id
  tenantID := req.tenantID
  accountID := req.accountID
  idempotencyKey := req.idempotencyKey
  requestHash := requestHash
  correlationID := req.correlationID
  amountCents := req.amountCents
  currency := req.currency
  receiverKey := req.receiverKey
  receiverKeyType := req.receiverKeyType
  receiverName := dictEntry.name
  receiverBank := dictEntry.bankISPB
  receiverRisk := dictEntry.riskSignal
  fraudScore := decision.score
  fraudRules := decision.rules
  status := decision.status
  decisionReason := decision.reason
  createdAt := now
  updatedAt := now

/-- The audit record of a new transfer. -/
def creationAudit (transfer : Transfer) : AuditRecord where
  tenantID := transfer.tenantID
  accountID := transfer.accountID
  transferID := transfer.id
  action := go "pix_transfer_decided"
  correlationID := transfer.correlationID
  metadata := [(go "status", transfer.status.text), (go "score", itoa transfer.fraudScore)]
  createdAt := transfer.createdAt

/-- `CreateTransfer` from the fraud decision on: build, insert, and after a
conflict look the key up again. -/
def persist (req : CreateTransferRequest) (requestHash : GoString) (dictEntry : DictEntry)
    (decision : FraudDecision) : Code (Except Err Result) := do
  let now ← perform .now
  let id ← perform (.newID (go "pxt"))
  let transfer := newTransfer id now req requestHash dictEntry decision
  let outbox ← creationEvents L transfer dictEntry decision requestHash
  match ← storeCall (.insertTransfer transfer outbox [creationAudit transfer]) with
  | .ok () => return .ok { transfer := transfer, events := outbox }
  | .error err =>
    if err.is .conflict then
      match ← storeCall (.findByIdempotency req.tenantID req.idempotencyKey) with
      | .error findErr => return .error findErr
      | .ok (some existing) => return replayOf requestHash existing
      | .ok none => return .error err
    else return .error err

/-- `CreateTransfer` from the limiters to the fraud decision. -/
def decideTransfer (req : CreateTransferRequest) (requestHash : GoString) :
    Code (Except Err Result) := do
  if (← perform (.tenantAllow (scopedKey req.tenantID req.accountID))) = false then
    return .error (ErrKind.rateLimited.wrap (go "tenant/account bucket exhausted"))
  else if (← perform (.dictAllow (scopedKey req.tenantID req.receiverKey))) = false then
    return .error (ErrKind.rateLimited.wrap (go "dict lookup bucket exhausted"))
  else
    match ← perform (.resolve req.tenantID req.receiverKey req.receiverKeyType) with
    | .error err =>
      if err.is .deadlineExceeded ∨ err.is .canceled then
        return .error (ErrKind.dependencyFailed.wrap (go "dict lookup timeout"))
      else return .error err
    | .ok dictEntry =>
      match ← perform (.score req dictEntry) with
      | .error err => return .error err
      | .ok decision =>
        if decision.status = .accepted ∨ decision.status = .review ∨
            decision.status = .blocked then
          persist L req requestHash dictEntry decision
        else
          return .error (ErrKind.dependencyFailed.wrap (go "fraud decision status is invalid"))

/-- The normalisation at the head of `CreateTransfer`, with the clock reading
for a request that has no time. -/
def normalize (req : CreateTransferRequest) (requestedAt : Time) : CreateTransferRequest :=
  { req with
    tenantID := trimSpace req.tenantID
    accountID := trimSpace req.accountID
    idempotencyKey := trimSpace req.idempotencyKey
    correlationID := trimSpace req.correlationID
    receiverKey := trimSpace req.receiverKey
    currency := if req.currency = [] then go "BRL" else req.currency
    requestedAt := requestedAt }

/-- `if t.IsZero() { t = s.now().UTC() }`. -/
def orNow (t : Time) : Code Time := if t = 0 then perform .now else pure t

/-- `Service.CreateTransfer`. -/
def createTransfer (req : CreateTransferRequest) : Code (Except Err Result) := do
  let req := normalize req (← orNow req.requestedAt)
  match req.validate with
  | .error err => return .error err
  | .ok () =>
    let requestHash := req.fingerprint L.digest
    match ← storeCall (.findByIdempotency req.tenantID req.idempotencyKey) with
    | .error err => return .error err
    | .ok (some transfer) => return replayOf requestHash transfer
    | .ok none => decideTransfer L req requestHash

/-! ## `GetTransfer` -/

/-- `Service.GetTransfer`. -/
def getTransfer (tenantID transferID : GoString) : Code (Except Err Transfer) :=
  storeCall (.getTransfer tenantID transferID)

/-! ## `SubmitToSPI` -/

/-- The `addEvent` closure of `SubmitToSPI`. -/
def spiEvent (current : Transfer) (correlationID : GoString) (eventType : EventType)
    (payload : Payload) : Code (Except Err Event) := do
  let eventID ← perform (.newID (go "evt"))
  let occurredAt ← perform .now
  return newEvent L.marshal eventID eventType.name current.tenantID current.accountID
    current.id correlationID occurredAt payload

/-- Give the claim back and return the error.  The answer of the release is
ignored. -/
def releaseAndFail (tenantID transferID claimToken : GoString) (err : Err) :
    Code (Except Err Result) := do
  let now ← perform .now
  let _ ← storeCall (.releaseSPISubmission tenantID transferID claimToken err.text
    (now + second))
  return .error err

/-- The audit record of a recorded submission. -/
def submissionAudit (current : Transfer) (correlationID : GoString) (message : SPIMessage) :
    AuditRecord where
  tenantID := current.tenantID
  accountID := current.accountID
  transferID := current.id
  action := go "spi_submission_recorded"
  correlationID := correlationID
  metadata := [(go "spi_message_id", message.messageID),
    (go "end_to_end_id", message.endToEndID)]
  createdAt := message.submittedAt

/-- `SubmitToSPI` once the claim is granted. -/
def submitClaimed (tenantID transferID claimToken correlationID : GoString)
    (current : Transfer) : Code (Except Err Result) := do
  match ← perform (.submit current) with
  | .error err => releaseAndFail tenantID transferID claimToken err
  | .ok message =>
    match ← spiEvent L current correlationID .spiMessageCreated
        [(go "spi_message_id", .str message.messageID),
          (go "end_to_end_id", .str message.endToEndID)] with
    | .error err => releaseAndFail tenantID transferID claimToken err
    | .ok created =>
      match ← spiEvent L current correlationID .pixTransferApproved
          [(go "end_to_end_id", .str message.endToEndID),
            (go "spi_message_id", .str message.messageID),
            (go "decision_reason", .str current.decisionReason)] with
      | .error err => releaseAndFail tenantID transferID claimToken err
      | .ok approved =>
        let eventsToWrite := [created, approved]
        match ← storeCall (.recordSPISubmission tenantID transferID claimToken message
            eventsToWrite (submissionAudit current correlationID message)) with
        | .error err => return .error err
        | .ok (updated, true) => return .ok { transfer := updated, idempotentReplay := true }
        | .ok (updated, false) => return .ok { transfer := updated, events := eventsToWrite }

/-- `Service.SubmitToSPI`. -/
def submitToSPI (tenantID transferID correlationID : GoString) :
    Code (Except Err Result) := do
  let tenantID := trimSpace tenantID
  let transferID := trimSpace transferID
  let correlationID := trimSpace correlationID
  if tenantID = [] ∨ transferID = [] then
    return .error (ErrKind.validation.wrap (go "tenant_id and transfer_id are required"))
  else
    let claimToken ← perform (.newID (go "spiclaim"))
    let now ← perform .now
    match ← storeCall (.claimSPISubmission tenantID transferID claimToken
        (now + spiClaimTTL)) with
    | .error err => return .error err
    | .ok (current, true) => return .ok { transfer := current, idempotentReplay := true }
    | .ok (current, false) =>
      submitClaimed L tenantID transferID claimToken
        (if correlationID = [] then current.correlationID else correlationID) current

/-! ## `SubmitPendingSPI` -/

/-- `PendingSPISubmissions` up to the lock: the context, then the clock. -/
def pendingSPISubmissions (limit : Int) : Code (Except Err (List Transfer)) := do
  match ← perform .health with
  | some err => return .error err.err
  | none =>
    let now ← perform .now
    return .ok (← storeCall (.pendingSPISubmissions now limit))

/-- The loop of `SubmitPendingSPI`. -/
def submitLoop (result : SPIBatchResult) : List Transfer → Code (SPIBatchResult × Option Err)
  | [] => return (result, none)
  | transfer :: pending => do
    match ← submitToSPI L transfer.tenantID transfer.id transfer.correlationID with
    | .error err =>
      if err.is .conflict then
        submitLoop { result with skipped := result.skipped + 1 } pending
      else return (result, some err)
    | .ok submitted =>
      if submitted.idempotentReplay then
        submitLoop { result with replayed := result.replayed + 1 } pending
      else submitLoop { result with submitted := result.submitted + 1 } pending

/-- `Service.SubmitPendingSPI`. -/
def submitPendingSPI (limit : Int) : Code (SPIBatchResult × Option Err) := do
  match ← pendingSPISubmissions limit with
  | .error err => return ({}, some err)
  | .ok pending => submitLoop L { scanned := pending.length } pending

/-! ## `RecordReview` -/

/-- The `addEvent` closure of `RecordReview`. -/
def reviewEvent (current : Transfer) (correlationID : GoString) (reviewedAt : Time)
    (eventType : EventType) (payload : Payload) : Code (Except Err Event) := do
  let eventID ← perform (.newID (go "evt"))
  return newEvent L.marshal eventID eventType.name current.tenantID current.accountID
    current.id correlationID reviewedAt payload

/-- The reason that is stored when the request has none. -/
def defaultReason (nextStatus : TransferStatus) : GoString :=
  if nextStatus = .blocked then go "manual review blocked" else go "manual review approved"

/-- The audit record of a review. -/
def reviewAudit (current : Transfer) (correlationID : GoString) (decision : ReviewDecision)
    (nextStatus : TransferStatus) (reviewedAt : Time) : AuditRecord where
  tenantID := current.tenantID
  accountID := current.accountID
  transferID := current.id
  action := go "manual_review_recorded"
  correlationID := correlationID
  metadata := [(go "decision", decision.text), (go "status", nextStatus.text)]
  createdAt := reviewedAt

/-- `RecordReview` once the decision is known: the two events, the audit
record, and the write.  `nextType` and `nextPayload` are the event that goes
with the next status. -/
def writeReview (tenantID transferID correlationID reason : GoString) (reviewedAt : Time)
    (decision : ReviewDecision) (current : Transfer) (nextStatus : TransferStatus)
    (eventType nextType : EventType) (nextPayload : Payload) :
    Code (Except Err Result) := do
  match ← reviewEvent L current correlationID reviewedAt eventType
      [(go "decision", .str decision.text), (go "reason", .str reason)] with
  | .error err => return .error err
  | .ok event =>
    match ← reviewEvent L current correlationID reviewedAt nextType nextPayload with
    | .error err => return .error err
    | .ok next =>
      let eventsToWrite := [event, next]
      match ← storeCall (.recordReviewDecision tenantID transferID nextStatus reason
          eventsToWrite (reviewAudit current correlationID decision nextStatus reviewedAt)) with
      | .error err => return .error err
      | .ok updated => return .ok { transfer := updated, events := eventsToWrite }

/-- `Service.RecordReview`. -/
def recordReview (req : ReviewDecisionRequest) : Code (Except Err Result) := do
  let tenantID := trimSpace req.tenantID
  let transferID := trimSpace req.transferID
  let correlationID := trimSpace req.correlationID
  let reason := trimSpace req.reason
  let reviewedAt ← orNow req.reviewedAt
  if tenantID = [] ∨ transferID = [] then
    return .error (ErrKind.validation.wrap (go "tenant_id and transfer_id are required"))
  else
    match ← storeCall (.getTransfer tenantID transferID) with
    | .error err => return .error err
    | .ok current =>
      if current.status ≠ .review then
        return .error (ErrKind.conflict.wrap (go "transfer is not waiting for review"))
      else
        let correlationID := if correlationID = [] then current.correlationID else correlationID
        match req.decision with
        | .block =>
          let reason := if reason = [] then defaultReason .blocked else reason
          writeReview L tenantID transferID correlationID reason reviewedAt req.decision
            current .blocked .pixTransferReviewBlocked .pixTransferBlocked
            [(go "score", .num current.fraudScore), (go "rules", .strs current.fraudRules),
              (go "decision_reason", .str reason)]
        | .approve =>
          let reason := if reason = [] then defaultReason .accepted else reason
          writeReview L tenantID transferID correlationID reason reviewedAt req.decision
            current .accepted .pixTransferReviewApproved .spiSubmissionRequested
            [(go "request_hash", .str current.requestHash)]
        | .other _ _ =>
          return .error (ErrKind.validation.wrap (go "review decision must be approve or block"))

/-! ## `RecordSettlement` -/

/-- The event type of a supported callback status. -/
def settlementEvent : SettlementStatus → Option EventType
  | .accepted => some .pixTransferSettled
  | .rejected => some .pixTransferRejected
  | .other _ _ => none

/-- The audit record of a settlement callback. -/
def settlementAudit (current : Transfer) (callback : SettlementCallback) : AuditRecord where
  tenantID := current.tenantID
  accountID := current.accountID
  transferID := current.id
  action := go "spi_settlement_callback_recorded"
  correlationID := callback.correlationID
  metadata := [(go "status", callback.status.text), (go "code", callback.code)]
  createdAt := callback.receivedAt

/-- `RecordSettlement` from the read of the transfer on. -/
def settle (callback : SettlementCallback) : Code (Except Err Result) := do
  match ← storeCall (.getTransfer callback.tenantID callback.transferID) with
  | .error err => return .error err
  | .ok current =>
    if current.spiMessageID = [] ∨ current.spiMessageID ≠ callback.spiMessageID then
      return .error (ErrKind.conflict.wrap (go "spi_message_id mismatch"))
    else
      match settlementEvent callback.status with
      | none =>
        return .error (ErrKind.validation.wrap (go "unsupported settlement status"))
      | some eventType =>
        let eventID ← perform (.newID (go "evt"))
        match newEvent L.marshal eventID eventType.name current.tenantID current.accountID
            current.id callback.correlationID callback.receivedAt
            [(go "spi_message_id", .str callback.spiMessageID),
              (go "status", .str callback.status.text), (go "code", .str callback.code)] with
        | .error err => return .error err
        | .ok event =>
          match ← storeCall (.updateSettlement callback.tenantID callback.transferID callback
              [event] (settlementAudit current callback)) with
          | .error err => return .error err
          | .ok (updated, true) => return .ok { transfer := updated, idempotentReplay := true }
          | .ok (updated, false) => return .ok { transfer := updated, events := [event] }

/-- `if id == "" { id = newID(tag) }`. -/
def orNewID (id tag : GoString) : Code GoString :=
  if id = [] then perform (.newID tag) else pure id

/-- `Service.RecordSettlement`. -/
def recordSettlement (callback : SettlementCallback) : Code (Except Err Result) := do
  let receivedAt ← orNow callback.receivedAt
  let correlationID ← orNewID callback.correlationID (go "corr")
  let callback := { callback with receivedAt := receivedAt, correlationID := correlationID }
  if callback.tenantID = [] ∨ callback.transferID = [] ∨ callback.spiMessageID = [] then
    return .error (ErrKind.validation.wrap
      (go "tenant_id, transfer_id, and spi_message_id are required"))
  else
    settle L { callback with
      callbackHash :=
        if callback.callbackHash = [] then callback.fingerprint L.digest
        else callback.callbackHash }

end PixRail.Switcher
