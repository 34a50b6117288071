import PixRail.Events.Events
import Mathlib.Data.List.Sort

/-!
# The in-memory store

`internal/store/memory.go`.  A method takes the store and returns its answer
and the store after it.  Every method body runs under the lock, so one
application of a method is one atomic step.  A method that reads the clock
under the lock takes the reading `now`; a method that starts with
`s.Health(ctx)` takes the state of its context, `none` for a live one and
otherwise the error `ctx.Err()`.

Two methods read the clock before they take the lock
(`PendingSPISubmissions`, `ClaimPendingOutbox`).  The functions here are
their locked sections, with the reading as an argument; the reading itself
is part of the callers' programs.
-/

namespace PixRail.Store

open Go Rail Events

structure MemoryStore where
  transfers : GoMap GoString Transfer
  idempotency : GoMap GoString GoString
  callbacks : GoMap GoString GoString
  events : List OutboxRecord
  audit : List AuditRecord
  nextSeq : Int

/-- `NewMemoryStore`. -/
def newMemoryStore : MemoryStore where
  transfers := ∅
  idempotency := ∅
  callbacks := ∅
  events := []
  audit := []
  nextSeq := 0

/-- The two errors of a context that is done. -/
inductive CtxErr where
  | canceled
  | deadlineExceeded
  deriving DecidableEq

def CtxErr.err : CtxErr → Err
  | canceled => ErrKind.canceled.err
  | deadlineExceeded => ErrKind.deadlineExceeded.err

theorem CtxErr.not_conflict (e : CtxErr) : ¬ e.err.is .conflict := by
  cases e <;> simp [CtxErr.err]

/-- What `ctx.Err()` returns. -/
abbrev Ctx := Option CtxErr

/-- The key of a tenant-scoped map: `tenantID + ":" + key`. -/
def scopedKey (tenantID key : GoString) : GoString := tenantID ++ go ":" ++ key

/-- The idempotency key that a transfer is filed under. -/
def idemKey (transfer : Transfer) : GoString :=
  scopedKey transfer.tenantID transfer.idempotencyKey

namespace MemoryStore

/-- `s.transfers[transfer.ID] = transfer`. -/
def putTransfer (s : MemoryStore) (transfer : Transfer) : MemoryStore :=
  { s with transfers := s.transfers.insert transfer.id transfer }

/-- `appendEventsLocked`. -/
def appendEventsLocked (s : MemoryStore) : List Event → MemoryStore
  | [] => s
  | event :: outbox =>
    appendEventsLocked
      { s with
        nextSeq := s.nextSeq + 1
        events := s.events ++
          [{ sequence := s.nextSeq + 1, event := event, availableAt := event.occurredAt }] }
      outbox

/-- The append of audit records. -/
def appendAudit (s : MemoryStore) (audit : List AuditRecord) : MemoryStore :=
  { s with audit := s.audit ++ audit }

/-- The lookup every transfer method starts with: the transfer of that id,
if it is one of the tenant. -/
def owned (s : MemoryStore) (tenantID transferID : GoString) : Option Transfer :=
  match s.transfers.lookup transferID with
  | none => none
  | some transfer => if transfer.tenantID ≠ tenantID then none else some transfer

/-- `FindByIdempotency`. -/
def findByIdempotency (s : MemoryStore) (ctx : Ctx) (tenantID key : GoString) :
    Except Err (Option Transfer) :=
  match ctx with
  | some err => .error err.err
  | none =>
    match s.idempotency.lookup (scopedKey tenantID key) with
    | none => .ok none
    | some id => .ok (s.transfers.lookup id)

/-- `InsertTransfer`. -/
def insertTransfer (s : MemoryStore) (transfer : Transfer) (outbox : List Event)
    (audit : List AuditRecord) : Except Err Unit × MemoryStore :=
  if ∃ existingID ∈ s.idempotency.lookup (idemKey transfer), existingID ≠ transfer.id then
    (.error (ErrKind.conflict.wrap (go "idempotency key already used")), s)
  else if transfer.id ∈ s.transfers then
    (.error (ErrKind.conflict.wrap (go "transfer already exists")), s)
  else
    (.ok (),
      ({ s.putTransfer transfer with
          idempotency := s.idempotency.insert (idemKey transfer) transfer.id
        }.appendEventsLocked outbox).appendAudit audit)

/-- `GetTransfer`. -/
def getTransfer (s : MemoryStore) (tenantID transferID : GoString) : Except Err Transfer :=
  match s.owned tenantID transferID with
  | none => .error ErrKind.notFound.err
  | some transfer => .ok transfer

/-- `ClaimSPISubmission`. -/
def claimSPISubmission (s : MemoryStore) (ctx : Ctx) (now : Time)
    (tenantID transferID claimToken : GoString) (claimUntil : Time) :
    Except Err (Transfer × Bool) × MemoryStore :=
  match ctx with
  | some err => (.error err.err, s)
  | none =>
    match s.owned tenantID transferID with
    | none => (.error ErrKind.notFound.err, s)
    | some transfer =>
      if transfer.status = .approved ∧ transfer.spiMessageID ≠ [] then
        (.ok (transfer, true), s)
      else
        match transfer.claimSPISubmission claimToken claimUntil now with
        | .error err => (.error err, s)
        | .ok transfer => (.ok (transfer, false), s.putTransfer transfer)

/-- `RecordSPISubmission`. -/
def recordSPISubmission (s : MemoryStore) (ctx : Ctx)
    (tenantID transferID claimToken : GoString) (message : SPIMessage)
    (outbox : List Event) (audit : AuditRecord) :
    Except Err (Transfer × Bool) × MemoryStore :=
  match ctx with
  | some err => (.error err.err, s)
  | none =>
    match s.owned tenantID transferID with
    | none => (.error ErrKind.notFound.err, s)
    | some transfer =>
      if transfer.status = .approved ∧ transfer.spiMessageID = message.messageID then
        (.ok (transfer, true), s)
      else
        match transfer.recordSPISubmission claimToken message with
        | .error err => (.error err, s)
        | .ok transfer =>
          (.ok (transfer, false),
            ((s.putTransfer transfer).appendEventsLocked outbox).appendAudit [audit])

/-- `ReleaseSPISubmission`. -/
def releaseSPISubmission (s : MemoryStore) (ctx : Ctx) (now : Time)
    (tenantID transferID claimToken lastError : GoString) (retryAt : Time) :
    Except Err Unit × MemoryStore :=
  match ctx with
  | some err => (.error err.err, s)
  | none =>
    match s.owned tenantID transferID with
    | none => (.error ErrKind.notFound.err, s)
    | some transfer =>
      if transfer.status = .approved ∧ transfer.spiMessageID ≠ [] then (.ok (), s)
      else
        match transfer.releaseSPISubmission claimToken lastError retryAt now with
        | .error err => (.error err, s)
        | .ok transfer => (.ok (), s.putTransfer transfer)

/-- `RecordReviewDecision`. -/
def recordReviewDecision (s : MemoryStore) (tenantID transferID : GoString)
    (status : TransferStatus) (reason : GoString) (outbox : List Event)
    (audit : AuditRecord) : Except Err Transfer × MemoryStore :=
  match s.owned tenantID transferID with
  | none => (.error ErrKind.notFound.err, s)
  | some transfer =>
    match transfer.recordReviewDecision status reason audit.createdAt with
    | .error err => (.error err, s)
    | .ok transfer =>
      (.ok transfer, ((s.putTransfer transfer).appendEventsLocked outbox).appendAudit [audit])

/-- The hash `UpdateSettlement` files a callback under. -/
def callbackHash (H : Digest) (callback : SettlementCallback) : GoString :=
  if callback.callbackHash = [] then callback.fingerprint H else callback.callbackHash

/-- `UpdateSettlement`. -/
def updateSettlement (H : Digest) (s : MemoryStore) (tenantID transferID : GoString)
    (callback : SettlementCallback) (outbox : List Event) (audit : AuditRecord) :
    Except Err (Transfer × Bool) × MemoryStore :=
  match s.owned tenantID transferID with
  | none => (.error ErrKind.notFound.err, s)
  | some transfer =>
    match s.callbacks.lookup (scopedKey tenantID callback.spiMessageID) with
    | some existingHash =>
      if existingHash = callbackHash H callback then (.ok (transfer, true), s)
      else
        (.error (ErrKind.conflict.wrap
          (go "conflicting settlement callback for terminal transfer")), s)
    | none =>
      match transfer.recordSettlement callback with
      | .error err => (.error err, s)
      | .ok transfer =>
        (.ok (transfer, false),
          ({ s.putTransfer transfer with
              callbacks := s.callbacks.insert (scopedKey tenantID callback.spiMessageID)
                (callbackHash H callback)
            }.appendEventsLocked outbox).appendAudit [audit])

/-- The default of a batch limit. -/
def batchLimit (limit : Int) : Nat := if limit ≤ 0 then 100 else limit.toNat

/-- A transfer that `PendingSPISubmissions` lists. -/
def Pending (now : Time) (transfer : Transfer) : Prop :=
  transfer.status = .accepted ∧ transfer.spiMessageID = [] ∧
    ¬ ∃ until_ ∈ transfer.spiClaimedUntil, now < until_

instance (now : Time) (transfer : Transfer) : Decidable (Pending now transfer) :=
  inferInstanceAs (Decidable (_ ∧ _ ∧ _))

/-- `order` is an order in which the code may range over the transfers. -/
def RangeOrder (s : MemoryStore) (order : List GoString) : Prop :=
  order.Nodup ∧ order.toFinset = s.transfers.keys

instance (s : MemoryStore) (order : List GoString) : Decidable (s.RangeOrder order) :=
  inferInstanceAs (Decidable (_ ∧ _))

/-- `PendingSPISubmissions` under the lock, when it ranges over the transfers
in the given order.  `sort.Slice` need not be stable; a stable sort after
every order of the range gives every outcome of an unstable one. -/
def pendingSPISubmissions (s : MemoryStore) (order : List GoString) (now : Time)
    (limit : Int) : List Transfer :=
  let transfers := (order.filterMap fun id => s.transfers.lookup id).filter
    (fun transfer => Pending now transfer)
  (transfers.insertionSort fun a b => a.createdAt ≤ b.createdAt).take (batchLimit limit)

/-- A record that `ClaimPendingOutbox` takes. -/
def Claimable (now : Time) (record : OutboxRecord) : Prop :=
  record.published = false ∧ record.availableAt ≤ now ∧
    ¬ ∃ until_ ∈ record.claimedUntil, now < until_

instance (now : Time) (record : OutboxRecord) : Decidable (Claimable now record) :=
  inferInstanceAs (Decidable (_ ∧ _ ∧ _))

/-- The loop of `ClaimPendingOutbox`.  It returns the outbox and the claimed
records; `left` is how many more it may claim. -/
def claimLoop (now : Time) (claimToken : GoString) (claimUntil : Time) :
    Nat → List OutboxRecord → List OutboxRecord × List OutboxRecord
  | _, [] => ([], [])
  | left, record :: events =>
    if Claimable now record then
      let record := { record with claimToken := claimToken, claimedUntil := some claimUntil }
      if left ≤ 1 then (record :: events, [record])
      else
        let rest := claimLoop now claimToken claimUntil (left - 1) events
        (record :: rest.1, record :: rest.2)
    else
      let rest := claimLoop now claimToken claimUntil left events
      (record :: rest.1, rest.2)

/-- `ClaimPendingOutbox` under the lock. -/
def claimPendingOutbox (s : MemoryStore) (now : Time) (limit : Int) (claimToken : GoString)
    (claimUntil : Time) : List OutboxRecord × MemoryStore :=
  let claimed := claimLoop now claimToken claimUntil (batchLimit limit) s.events
  (claimed.2.insertionSort fun a b => a.sequence ≤ b.sequence,
    { s with events := claimed.1 })

/-- The loop of the two mark methods: the first record with the sequence
number is updated if it carries the claim token. -/
def markLoop (sequence : Int) (claimToken : GoString) (update : OutboxRecord → OutboxRecord) :
    List OutboxRecord → Except Err (List OutboxRecord)
  | [] => .error (ErrKind.notFound.wrap (go "outbox sequence not found"))
  | record :: events =>
    if record.sequence ≠ sequence then
      match markLoop sequence claimToken update events with
      | .error err => .error err
      | .ok events => .ok (record :: events)
    else if record.claimToken = [] ∨ record.claimToken ≠ claimToken then
      .error (ErrKind.conflict.wrap (go "outbox record is not claimed by this worker"))
    else .ok (update record :: events)

/-- Both mark methods, for an update of the record. -/
def markOutbox (s : MemoryStore) (ctx : Ctx) (sequence : Int) (claimToken : GoString)
    (update : OutboxRecord → OutboxRecord) : Except Err Unit × MemoryStore :=
  match ctx with
  | some err => (.error err.err, s)
  | none =>
    match markLoop sequence claimToken update s.events with
    | .error err => (.error err, s)
    | .ok events => (.ok (), { s with events := events })

/-- The record after an acknowledgement. -/
def published (dispatchedAt : Time) (record : OutboxRecord) : OutboxRecord :=
  { record with
    published := true
    lastError := []
    claimToken := []
    claimedUntil := none
    dispatchedAt := some dispatchedAt }

/-- The record after a failed publish. -/
def failed (lastError : GoString) (retryAt : Time) (record : OutboxRecord) : OutboxRecord :=
  { record with
    attempts := record.attempts + 1
    lastError := lastError
    availableAt := retryAt
    claimToken := []
    claimedUntil := none }

/-- `MarkOutboxPublished`. -/
def markOutboxPublished (s : MemoryStore) (ctx : Ctx) (sequence : Int)
    (claimToken : GoString) (dispatchedAt : Time) : Except Err Unit × MemoryStore :=
  s.markOutbox ctx sequence claimToken (published dispatchedAt)

/-- `MarkOutboxFailed`. -/
def markOutboxFailed (s : MemoryStore) (ctx : Ctx) (sequence : Int)
    (claimToken lastError : GoString) (retryAt : Time) : Except Err Unit × MemoryStore :=
  s.markOutbox ctx sequence claimToken (failed lastError retryAt)

end MemoryStore

end PixRail.Store
