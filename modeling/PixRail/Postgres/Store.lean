import PixRail.Postgres.Schema

/-!
# The Postgres store

`internal/postgres/store.go`: the transfer operations and the outbox
operations, statement by statement.  A method that begins a transaction is
one `runTx`; it runs alone, and its failure undoes everything but the values
drawn from a sequence.  A method that reads the clock takes the reading.
-/

namespace PixRail.Postgres

open Go Rail Events Store Sql

/-- A program on the database. -/
abbrev Db (α : Type) := Tx Database Err α

/-- What a failed transaction leaves: the sequences are not rolled back. -/
def rollback (start reached : Database) : Database :=
  { start with outboxSeq := reached.outboxSeq, auditSeq := reached.auditSeq }

/-- `translatePgError`.  The text of the other errors is the server's; the
model keeps their code. -/
def translatePgError : Violation GoString → Err
  | .unique constraintName => ErrKind.conflict.wrap constraintName
  | .check => ⟨[], go "SQLSTATE 23514"⟩
  | .reference => ⟨[], go "SQLSTATE 23503"⟩

/-! ## Statements -/

/-- `where tenant_id = $1 and id = $2`. -/
def byID (tenantID transferID : GoString) (row : TransferRow) : Bool :=
  row.tenantID = tenantID && row.id = transferID

/-- `where tenant_id = $1 and idempotency_key = $2`. -/
def byIdempotencyKey (tenantID key : GoString) (row : TransferRow) : Bool :=
  row.tenantID = tenantID && row.idempotencyKey = key

/-- `transferSelectSQL` with a condition, scanned. -/
def selectTransfer (p : TransferRow → Bool) : Db (Option Transfer) := fun db =>
  (.ok ((db.transfers.find? p).map scanTransfer), db)

theorem select_bind {α : Type} (p : TransferRow → Bool) (k : Option Transfer → Db α)
    (db : Database) :
    (selectTransfer p >>= k) db = k ((db.transfers.find? p).map scanTransfer) db := rfl

/-- `insertTransfer`. -/
def insertTransferRow (transfer : Transfer) : Db Unit := fun db =>
  match db.transfers.insert (transferRow transfer) with
  | .error v => (.error (translatePgError v), db)
  | .ok transfers => (.ok (), { db with transfers := transfers })

/-- `update pix_transfers set … where tenant_id = … and id = …`. -/
def updateTransfer (tenantID transferID : GoString) (f : TransferRow → TransferRow) : Db Unit :=
  fun db =>
    match db.transfers.update (byID tenantID transferID) f with
    | .error v => (.error (translatePgError v), db)
    | .ok transfers => (.ok (), { db with transfers := transfers })

/-- `references pix_transfers(id)`. -/
def referenced (db : Database) (transferID : GoString) : Bool :=
  db.transfers.rows.any fun row => row.id = transferID

/-- `insertOutbox`, with the defaults of the columns it does not name. -/
def insertOutbox (event : Event) : Db Unit := fun db =>
  let db := { db with outboxSeq := db.outboxSeq + 1 }
  match db.outbox.insert
      { sequence := db.outboxSeq, event := event, availableAt := event.occurredAt } with
  | .error v => (.error (translatePgError v), db)
  | .ok outbox =>
    if referenced db event.transferID then (.ok (), { db with outbox := outbox })
    else (.error (translatePgError .reference), db)

/-- `for _, event := range outbox`. -/
def insertOutboxAll : List Event → Db Unit
  | [] => return ()
  | event :: outbox => do
    insertOutbox event
    insertOutboxAll outbox

/-- `insertAudit`. -/
def insertAudit (record : AuditRecord) : Db Unit := fun db =>
  let db := { db with auditSeq := db.auditSeq + 1 }
  match db.audit.insert ⟨db.auditSeq, record⟩ with
  | .error v => (.error (translatePgError v), db)
  | .ok audit =>
    if referenced db record.transferID then (.ok (), { db with audit := audit })
    else (.error (translatePgError .reference), db)

/-- `for _, record := range audit`. -/
def insertAuditAll : List AuditRecord → Db Unit
  | [] => return ()
  | record :: audit => do
    insertAudit record
    insertAuditAll audit

/-- `select callback_hash from processed_spi_callbacks`. -/
def selectCallbackHash (tenantID spiMessageID : GoString) : Db (Option GoString) := fun db =>
  (.ok ((db.callbacks.find? fun row =>
    row.tenantID = tenantID && row.spiMessageID = spiMessageID).map (·.callbackHash)), db)

theorem selectCallbackHash_bind {α : Type} (tenantID spiMessageID : GoString)
    (k : Option GoString → Db α) (db : Database) :
    (selectCallbackHash tenantID spiMessageID >>= k) db =
      k ((db.callbacks.find? fun row =>
        row.tenantID = tenantID && row.spiMessageID = spiMessageID).map (·.callbackHash)) db := rfl

/-- `insert into processed_spi_callbacks`. -/
def insertCallback (row : CallbackRow) : Db Unit := fun db =>
  match db.callbacks.insert row with
  | .error v => (.error (translatePgError v), db)
  | .ok callbacks => (.ok (), { db with callbacks := callbacks })

/-! ## The `set` lists of the updates -/

/-- The columns that `ClaimSPISubmission` sets. -/
def setClaim (transfer : Transfer) (row : TransferRow) : TransferRow :=
  { row with
    spiClaimToken := transfer.spiClaimToken
    spiClaimedUntil := transfer.spiClaimedUntil
    spiSubmissionAttempts := row.spiSubmissionAttempts + 1
    spiLastError := []
    updatedAt := transfer.updatedAt }

/-- The columns that `RecordSPISubmission` sets. -/
def setSubmission (transfer : Transfer) (row : TransferRow) : TransferRow :=
  { row with
    status := transfer.status
    spiMessageID := some transfer.spiMessageID
    endToEndID := some transfer.endToEndID
    spiClaimToken := []
    spiClaimedUntil := none
    spiLastError := []
    updatedAt := transfer.updatedAt }

/-- The columns that `ReleaseSPISubmission` sets. -/
def setRelease (transfer : Transfer) (row : TransferRow) : TransferRow :=
  { row with
    spiClaimToken := []
    spiClaimedUntil := transfer.spiClaimedUntil
    spiLastError := transfer.spiLastError
    updatedAt := transfer.updatedAt }

/-- The columns that `RecordReviewDecision` sets. -/
def setReview (transfer : Transfer) (row : TransferRow) : TransferRow :=
  { row with
    status := transfer.status
    decisionReason := transfer.decisionReason
    updatedAt := transfer.updatedAt }

/-- The columns that `UpdateSettlement` sets. -/
def setSettlement (transfer : Transfer) (row : TransferRow) : TransferRow :=
  { row with
    status := transfer.status
    settlementCode := transfer.settlementCode
    updatedAt := transfer.updatedAt }

/-! ## The transfer operations -/

/-- `Store.FindByIdempotency`. -/
def findByIdempotency (tenantID key : GoString) : Db (Option Transfer) :=
  selectTransfer (byIdempotencyKey tenantID key)

/-- `Store.InsertTransfer`. -/
def insertTransfer (transfer : Transfer) (outbox : List Event) (audit : List AuditRecord) :
    Db Unit :=
  runTx rollback do
    insertTransferRow transfer
    insertOutboxAll outbox
    insertAuditAll audit

/-- `Store.GetTransfer`. -/
def getTransfer (tenantID transferID : GoString) : Db Transfer := do
  match ← selectTransfer (byID tenantID transferID) with
  | none => throw ErrKind.notFound.err
  | some transfer => return transfer

/-- `Store.ClaimSPISubmission`. -/
def claimSPISubmission (now : Time) (tenantID transferID claimToken : GoString)
    (claimUntil : Time) : Db (Transfer × Bool) :=
  runTx rollback do
    match ← selectTransfer (byID tenantID transferID) with
    | none => throw ErrKind.notFound.err
    | some transfer =>
      if transfer.status = .approved ∧ transfer.spiMessageID ≠ [] then
        return (transfer, true)
      else
        match transfer.claimSPISubmission claimToken claimUntil now with
        | .error err => throw err
        | .ok transfer =>
          updateTransfer tenantID transferID (setClaim transfer)
          return (transfer, false)

/-- `Store.RecordSPISubmission`. -/
def recordSPISubmission (tenantID transferID claimToken : GoString) (message : SPIMessage)
    (outbox : List Event) (audit : AuditRecord) : Db (Transfer × Bool) :=
  runTx rollback do
    match ← selectTransfer (byID tenantID transferID) with
    | none => throw ErrKind.notFound.err
    | some transfer =>
      if transfer.status = .approved ∧ transfer.spiMessageID = message.messageID then
        return (transfer, true)
      else
        match transfer.recordSPISubmission claimToken message with
        | .error err => throw err
        | .ok transfer =>
          updateTransfer tenantID transferID (setSubmission transfer)
          insertOutboxAll outbox
          insertAudit audit
          return (transfer, false)

/-- `Store.ReleaseSPISubmission`. -/
def releaseSPISubmission (now : Time) (tenantID transferID claimToken lastError : GoString)
    (retryAt : Time) : Db Unit :=
  runTx rollback do
    match ← selectTransfer (byID tenantID transferID) with
    | none => throw ErrKind.notFound.err
    | some transfer =>
      if transfer.status = .approved ∧ transfer.spiMessageID ≠ [] then return ()
      else
        match transfer.releaseSPISubmission claimToken lastError retryAt now with
        | .error err => throw err
        | .ok transfer =>
          updateTransfer tenantID transferID (setRelease transfer)

/-- `Store.RecordReviewDecision`. -/
def recordReviewDecision (tenantID transferID : GoString) (status : TransferStatus)
    (reason : GoString) (outbox : List Event) (audit : AuditRecord) : Db Transfer :=
  runTx rollback do
    match ← selectTransfer (byID tenantID transferID) with
    | none => throw ErrKind.notFound.err
    | some transfer =>
      match transfer.recordReviewDecision status reason audit.createdAt with
      | .error err => throw err
      | .ok transfer =>
        updateTransfer tenantID transferID (setReview transfer)
        insertOutboxAll outbox
        insertAudit audit
        return transfer

/-- `Store.UpdateSettlement`. -/
def updateSettlement (H : Digest) (tenantID transferID : GoString)
    (callback : SettlementCallback) (outbox : List Event) (audit : AuditRecord) :
    Db (Transfer × Bool) :=
  runTx rollback do
    match ← selectTransfer (byID tenantID transferID) with
    | none => throw ErrKind.notFound.err
    | some transfer =>
      let callbackHash :=
        if callback.callbackHash = [] then callback.fingerprint H else callback.callbackHash
      match ← selectCallbackHash tenantID callback.spiMessageID with
      | some existingHash =>
        if existingHash = callbackHash then return (transfer, true)
        else throw (ErrKind.conflict.wrap
          (go "conflicting settlement callback for terminal transfer"))
      | none =>
        match transfer.recordSettlement callback with
        | .error err => throw err
        | .ok transfer =>
          updateTransfer tenantID transferID (setSettlement transfer)
          insertOutboxAll outbox
          insertAudit audit
          insertCallback ⟨tenantID, callback.spiMessageID, callbackHash, callback.receivedAt⟩
          return (transfer, false)

/-- `Store.Outbox`: the rows in the order of the sequence. -/
def outboxRecords (db : Database) : List OutboxRecord :=
  db.outbox.rows.insertionSort fun a b => a.sequence ≤ b.sequence

/-- `Store.Audit`: the rows in the order of the id. -/
def auditRecords (db : Database) : List AuditRecord :=
  (db.audit.rows.insertionSort fun a b => a.id ≤ b.id).map (·.record)

/-! ## The outbox operations -/

/-- The condition of `ClaimPendingOutbox`, at the time `now()` of the
statement. -/
def pendingAt (now : Time) (row : OutboxRecord) : Bool :=
  row.published = false && row.availableAt ≤ now &&
    match row.claimedUntil with
    | none => true
    | some claimedUntil => claimedUntil ≤ now

/-- `next_records`: the sequence numbers that the statement locks. -/
def nextRecords (now : Time) (limit : Int) (rows : List OutboxRecord) : List Int :=
  (((rows.filter (pendingAt now)).insertionSort fun a b => a.sequence ≤ b.sequence).take
    (if limit ≤ 0 then 100 else limit.toNat)).map (·.sequence)

/-- `Store.ClaimPendingOutbox`: `checkedAt` is the reading that the expiry
is checked against, `now` the time of the statement. -/
def claimPendingOutbox (checkedAt now : Time) (limit : Int) (claimToken : GoString)
    (claimUntil : Time) : Db (List OutboxRecord) := fun db =>
  if claimToken = [] ∨ ¬ checkedAt < claimUntil then
    (.error (ErrKind.validation.wrap (go "valid outbox claim token and expiry are required")), db)
  else
    let next := nextRecords now limit db.outbox.rows
    match db.outbox.update (fun row => row.sequence ∈ next)
        (fun row => { row with claimToken := claimToken, claimedUntil := some claimUntil }) with
    | .error v => (.error (translatePgError v), db)
    | .ok outbox =>
      (.ok (outbox.rows.filter fun row => row.sequence ∈ next), { db with outbox := outbox })

/-- Both mark statements: `update payment_outbox set … where sequence = $1
and claim_token = $2`, and the check of the number of rows. -/
def markOutbox (sequence : Int) (claimToken : GoString) (f : OutboxRecord → OutboxRecord) :
    Db Unit := fun db =>
  let owned := fun row : OutboxRecord => row.sequence = sequence && row.claimToken = claimToken
  match db.outbox.update owned f with
  | .error v => (.error (translatePgError v), db)
  | .ok outbox =>
    if db.outbox.rows.countP owned = 0 then
      (.error (ErrKind.conflict.wrap (go "outbox record is not claimed by this worker")),
        { db with outbox := outbox })
    else (.ok (), { db with outbox := outbox })

/-- `Store.MarkOutboxPublished`. -/
def markOutboxPublished (sequence : Int) (claimToken : GoString) (dispatchedAt : Time) : Db Unit :=
  markOutbox sequence claimToken fun row =>
    { row with
      published := true
      dispatchedAt := some dispatchedAt
      lastError := []
      claimToken := []
      claimedUntil := none }

/-- `Store.MarkOutboxFailed`. -/
def markOutboxFailed (sequence : Int) (claimToken lastError : GoString) (retryAt : Time) :
    Db Unit :=
  markOutbox sequence claimToken fun row =>
    { row with
      attempts := row.attempts + 1
      lastError := lastError
      availableAt := retryAt
      claimToken := []
      claimedUntil := none }

end PixRail.Postgres
