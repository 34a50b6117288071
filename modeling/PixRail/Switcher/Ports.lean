import PixRail.Store.Memory
import PixRail.Interleave.Prog

/-!
# The operations of the switch

The interfaces the service and the relay are written against: the store
(`switcher.Store` and `messaging.OutboxStore`), the DICT resolver, the fraud
scorer, the SPI client, the two rate limiters, the publisher, the clock and
`newID`.  Each method is one operation, and `Op.Ret` is the type of its
answer.  A Go pair `(value, error)` is an `Except`.
-/

namespace PixRail.Switcher

open Go Rail Events Store Interleave

/-- A call of a store method.  The two methods that read the clock before
they take the lock carry the reading. -/
inductive StoreCall where
  | findByIdempotency (tenantID key : GoString)
  | insertTransfer (transfer : Transfer) (outbox : List Event) (audit : List AuditRecord)
  | getTransfer (tenantID transferID : GoString)
  | claimSPISubmission (tenantID transferID claimToken : GoString) (claimUntil : Time)
  | recordSPISubmission (tenantID transferID claimToken : GoString) (message : SPIMessage)
      (outbox : List Event) (audit : AuditRecord)
  | releaseSPISubmission (tenantID transferID claimToken lastError : GoString)
      (retryAt : Time)
  | recordReviewDecision (tenantID transferID : GoString) (status : TransferStatus)
      (reason : GoString) (outbox : List Event) (audit : AuditRecord)
  | updateSettlement (tenantID transferID : GoString) (callback : SettlementCallback)
      (outbox : List Event) (audit : AuditRecord)
  | pendingSPISubmissions (now : Time) (limit : Int)
  | claimPendingOutbox (now : Time) (limit : Int) (claimToken : GoString)
      (claimUntil : Time)
  | markOutboxPublished (sequence : Int) (claimToken : GoString) (dispatchedAt : Time)
  | markOutboxFailed (sequence : Int) (claimToken lastError : GoString) (retryAt : Time)

@[reducible] def StoreCall.Ret : StoreCall → Type
  | findByIdempotency _ _ => Except Err (Option Transfer)
  | insertTransfer _ _ _ => Except Err Unit
  | getTransfer _ _ => Except Err Transfer
  | claimSPISubmission _ _ _ _ => Except Err (Transfer × Bool)
  | recordSPISubmission _ _ _ _ _ _ => Except Err (Transfer × Bool)
  | releaseSPISubmission _ _ _ _ _ => Except Err Unit
  | recordReviewDecision _ _ _ _ _ _ => Except Err Transfer
  | updateSettlement _ _ _ _ _ => Except Err (Transfer × Bool)
  | pendingSPISubmissions _ _ => List Transfer
  | claimPendingOutbox _ _ _ _ => List OutboxRecord
  | markOutboxPublished _ _ _ => Except Err Unit
  | markOutboxFailed _ _ _ _ => Except Err Unit

/-- The events that a store call hands over. -/
def StoreCall.outbox : StoreCall → List Event
  | insertTransfer _ outbox _ => outbox
  | recordSPISubmission _ _ _ _ outbox _ => outbox
  | recordReviewDecision _ _ _ _ outbox _ => outbox
  | updateSettlement _ _ _ outbox _ => outbox
  | _ => []

/-- The audit records that a store call hands over. -/
def StoreCall.audit : StoreCall → List AuditRecord
  | insertTransfer _ _ audit => audit
  | recordSPISubmission _ _ _ _ _ audit => [audit]
  | recordReviewDecision _ _ _ _ _ audit => [audit]
  | updateSettlement _ _ _ _ audit => [audit]
  | _ => []

/-- The call answered that it wrote its events and audit records. -/
def StoreCall.wrote : (c : StoreCall) → c.Ret → Bool
  | insertTransfer _ _ _, .ok () => true
  | recordSPISubmission _ _ _ _ _ _, .ok (_, replay) => !replay
  | recordReviewDecision _ _ _ _ _ _, .ok _ => true
  | updateSettlement _ _ _ _ _, .ok (_, replay) => !replay
  | _, _ => false

inductive Op where
  /-- `now()`. -/
  | now
  /-- `newID` and `newClaimToken`. -/
  | newID (tag : GoString)
  /-- `store.Health(ctx)`, where it is not part of an atomic store call. -/
  | health
  /-- `tenantLimit.Allow`, `true` when there is no limiter. -/
  | tenantAllow (key : GoString)
  /-- `dictLimit.Allow`, `true` when there is no limiter. -/
  | dictAllow (key : GoString)
  | resolve (tenantID key : GoString) (keyType : DictKeyType)
  | score (req : CreateTransferRequest) (dict : DictEntry)
  | submit (transfer : Transfer)
  | publish (event : Event)
  | store (c : StoreCall)

@[reducible] def Op.Ret : Op → Type
  | now => Time
  | newID _ => GoString
  | health => Ctx
  | tenantAllow _ => Bool
  | dictAllow _ => Bool
  | resolve _ _ _ => Except Err DictEntry
  | score _ _ => Except Err FraudDecision
  | submit _ => Except Err SPIMessage
  | publish _ => Except Err Unit
  | store c => c.Ret

/-- The signature of the switch. -/
abbrev sig : Sig := ⟨Op, Op.Ret⟩

/-- A program of the switch. -/
abbrev Code := Prog sig

def perform (o : Op) : Code o.Ret := Prog.perform (S := sig) o

def storeCall (c : StoreCall) : Code c.Ret := perform (.store c)

end PixRail.Switcher
