import PixRail.Sql.Table
import PixRail.Store.Memory

/-!
# The Postgres schema

`db/migrations`: the tables of the payment switch with their checks, unique
keys and references, and the way a transfer is written to a row and scanned
from it (`internal/postgres/store.go`).

Texts, times, JSON values and integers are stored exactly; the width of an
integer column is not part of the model.  The columns of `payment_outbox`
are the fields of an outbox record one by one, so its rows are such records.
-/

namespace PixRail.Postgres

open Go Rail Events Store Sql

/-- A row of `pix_transfers`. -/
structure TransferRow where
  id : GoString
  tenantID : GoString
  accountID : GoString
  idempotencyKey : GoString
  requestHash : GoString
  correlationID : GoString
  endToEndID : Option GoString
  amountCents : Int
  currency : GoString
  receiverKey : GoString
  receiverKeyType : DictKeyType
  receiverName : GoString
  receiverBank : GoString
  receiverRisk : Int
  fraudScore : Int
  fraudRules : List GoString
  status : TransferStatus
  decisionReason : GoString
  spiMessageID : Option GoString
  spiClaimToken : GoString
  spiClaimedUntil : Option Time
  spiSubmissionAttempts : Int
  spiLastError : GoString
  settlementCode : GoString
  createdAt : Time
  updatedAt : Time

/-- `nullif(s, '')`. -/
def nullif (s : GoString) : Option GoString := if s = [] then none else some s

/-- `coalesce(column, '')`. -/
def coalesce (column : Option GoString) : GoString := column.getD []

theorem coalesce_nullif (s : GoString) : coalesce (nullif s) = s := by
  unfold nullif
  split
  · rename_i h
    exact h.symm
  · rfl

/-- The row that `insertTransfer` writes. -/
def transferRow (transfer : Transfer) : TransferRow where
  id := transfer.id
  tenantID := transfer.tenantID
  accountID := transfer.accountID
  idempotencyKey := transfer.idempotencyKey
  requestHash := transfer.requestHash
  correlationID := transfer.correlationID
  endToEndID := nullif transfer.endToEndID
  amountCents := transfer.amountCents
  currency := transfer.currency
  receiverKey := transfer.receiverKey
  receiverKeyType := transfer.receiverKeyType
  receiverName := transfer.receiverName
  receiverBank := transfer.receiverBank
  receiverRisk := transfer.receiverRisk
  fraudScore := transfer.fraudScore
  fraudRules := transfer.fraudRules
  status := transfer.status
  decisionReason := transfer.decisionReason
  spiMessageID := nullif transfer.spiMessageID
  spiClaimToken := transfer.spiClaimToken
  spiClaimedUntil := transfer.spiClaimedUntil
  spiSubmissionAttempts := transfer.spiSubmissionAttempts
  spiLastError := transfer.spiLastError
  settlementCode := transfer.settlementCode
  createdAt := transfer.createdAt
  updatedAt := transfer.updatedAt

/-- `scanTransfer` over the columns of `transferSelectSQL`. -/
def scanTransfer (row : TransferRow) : Transfer where
  id := row.id
  tenantID := row.tenantID
  accountID := row.accountID
  idempotencyKey := row.idempotencyKey
  requestHash := row.requestHash
  correlationID := row.correlationID
  endToEndID := coalesce row.endToEndID
  amountCents := row.amountCents
  currency := row.currency
  receiverKey := row.receiverKey
  receiverKeyType := row.receiverKeyType
  receiverName := row.receiverName
  receiverBank := row.receiverBank
  receiverRisk := row.receiverRisk
  fraudScore := row.fraudScore
  fraudRules := row.fraudRules
  status := row.status
  decisionReason := row.decisionReason
  spiMessageID := coalesce row.spiMessageID
  spiClaimToken := row.spiClaimToken
  spiClaimedUntil := row.spiClaimedUntil
  spiSubmissionAttempts := row.spiSubmissionAttempts
  spiLastError := row.spiLastError
  settlementCode := row.settlementCode
  createdAt := row.createdAt
  updatedAt := row.updatedAt

theorem scan_transferRow (transfer : Transfer) : scanTransfer (transferRow transfer) = transfer := by
  simp only [scanTransfer, transferRow, coalesce_nullif]

/-- Two nullable columns hold one value. -/
def sameValue (a b : Option GoString) : Bool := a.isSome && a == b

/-- The `check` constraints of `pix_transfers`. -/
def columnChecks (row : TransferRow) : Bool :=
  0 < row.amountCents && row.currency = go "BRL" &&
    row.status ∈ [TransferStatus.accepted, .approved, .blocked, .review, .settled, .rejected]

def transferSchema : Schema TransferRow GoString where
  check := columnChecks
  keys :=
    [⟨go "pix_transfers_pkey", fun a b => a.id = b.id⟩,
      ⟨go "pix_transfers_end_to_end_id_key", fun a b => sameValue a.endToEndID b.endToEndID⟩,
      ⟨go "pix_transfers_spi_message_id_key",
        fun a b => sameValue a.spiMessageID b.spiMessageID⟩,
      ⟨go "pix_transfers_tenant_id_idempotency_key_key",
        fun a b => a.tenantID = b.tenantID && a.idempotencyKey = b.idempotencyKey⟩]

def outboxSchema : Schema OutboxRecord GoString where
  check := fun _ => true
  keys :=
    [⟨go "payment_outbox_pkey", fun a b => a.sequence = b.sequence⟩,
      ⟨go "payment_outbox_event_id_key", fun a b => a.event.eventID = b.event.eventID⟩]

/-- A row of `audit_records`. -/
structure AuditRow where
  id : Int
  record : AuditRecord

def auditSchema : Schema AuditRow GoString where
  check := fun _ => true
  keys := [⟨go "audit_records_pkey", fun a b => a.id = b.id⟩]

/-- A row of `processed_spi_callbacks`. -/
structure CallbackRow where
  tenantID : GoString
  spiMessageID : GoString
  callbackHash : GoString
  processedAt : Time

def callbackSchema : Schema CallbackRow GoString where
  check := fun _ => true
  keys := [⟨go "processed_spi_callbacks_pkey", fun a b => a.tenantID = b.tenantID &&
    a.spiMessageID = b.spiMessageID && a.callbackHash = b.callbackHash⟩]

/-- The migrated database, with the last values of the two `bigserial`
sequences. -/
structure Database where
  transfers : Table transferSchema
  outbox : Table outboxSchema
  audit : Table auditSchema
  callbacks : Table callbackSchema
  outboxSeq : Int
  auditSeq : Int

/-- The database after the migrations. -/
def Database.empty : Database where
  transfers := .empty
  outbox := .empty
  audit := .empty
  callbacks := .empty
  outboxSeq := 0
  auditSeq := 0

end PixRail.Postgres
