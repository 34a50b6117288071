import PixRail.Rail.Model

/-!
# Events and outbox records

`internal/events/events.go`.  The payload of an event is the JSON of a map
with string keys.  `json.Marshal` is a parameter of the constructor: the
code keeps an error path for it, and so does the model.
-/

namespace PixRail.Events

open Go Rail

/-- The values that the payload maps hold: strings, integers and lists of
strings. -/
inductive JSONValue where
  | str (s : GoString)
  | num (n : Int)
  | strs (l : List GoString)
  deriving DecidableEq

/-- A `map[string]any`, with the keys in the order of the source. -/
abbrev Payload := List (GoString × JSONValue)

/-- The event types that the service writes. -/
inductive EventType where
  | pixTransferRequested
  | dictKeyResolved
  | fraudScoreCalculated
  | pixTransferAccepted
  | spiSubmissionRequested
  | pixTransferReviewRequested
  | pixTransferBlocked
  | pixTransferReviewApproved
  | pixTransferReviewBlocked
  | spiMessageCreated
  | pixTransferApproved
  | pixTransferSettled
  | pixTransferRejected
  deriving DecidableEq

def EventType.name : EventType → GoString
  | pixTransferRequested => go "pix_transfer_requested"
  | dictKeyResolved => go "dict_key_resolved"
  | fraudScoreCalculated => go "fraud_score_calculated"
  | pixTransferAccepted => go "pix_transfer_accepted"
  | spiSubmissionRequested => go "spi_submission_requested"
  | pixTransferReviewRequested => go "pix_transfer_review_requested"
  | pixTransferBlocked => go "pix_transfer_blocked"
  | pixTransferReviewApproved => go "pix_transfer_review_approved"
  | pixTransferReviewBlocked => go "pix_transfer_review_blocked"
  | spiMessageCreated => go "spi_message_created"
  | pixTransferApproved => go "pix_transfer_approved"
  | pixTransferSettled => go "pix_transfer_settled"
  | pixTransferRejected => go "pix_transfer_rejected"

/-- Every event type. -/
def EventType.all : List EventType :=
  [pixTransferRequested, dictKeyResolved, fraudScoreCalculated, pixTransferAccepted,
    spiSubmissionRequested, pixTransferReviewRequested, pixTransferBlocked,
    pixTransferReviewApproved, pixTransferReviewBlocked, spiMessageCreated,
    pixTransferApproved, pixTransferSettled, pixTransferRejected]

theorem EventType.mem_all (e : EventType) : e ∈ EventType.all := by
  cases e <;> decide

theorem EventType.name_injective : Function.Injective EventType.name := by
  have hnodup : (EventType.all.map EventType.name).Nodup := by decide +kernel
  intro a b h
  exact List.inj_on_of_nodup_map hnodup (mem_all a) (mem_all b) h

structure Event where
  eventID : GoString
  eventType : GoString
  schemaVersion : GoString
  occurredAt : Time
  producer : GoString
  tenantID : GoString
  accountID : GoString
  transferID : GoString
  correlationID : GoString
  payload : GoString
  deriving DecidableEq

structure OutboxRecord where
  sequence : Int
  event : Event
  published : Bool := false
  attempts : Int := 0
  lastError : GoString := []
  availableAt : Time
  claimToken : GoString := []
  claimedUntil : Option Time := none
  dispatchedAt : Option Time := none
  deriving DecidableEq

/-- What the append of a record fixes: its number and its event. -/
def OutboxRecord.entry (r : OutboxRecord) : Int × Event := (r.sequence, r.event)

def producer : GoString := go "pixrail.payment-switch"

/-- `events.New`. -/
def newEvent (marshal : Payload → Except Err GoString)
    (eventID eventType tenantID accountID transferID correlationID : GoString)
    (occurredAt : Time) (payload : Payload) : Except Err Event :=
  match marshal payload with
  | .error err => .error { err with text := go "marshal event payload: " ++ err.text }
  | .ok raw =>
    .ok {
      eventID := eventID
      eventType := eventType
      schemaVersion := go "1"
      occurredAt := occurredAt
      producer := producer
      tenantID := tenantID
      accountID := accountID
      transferID := transferID
      correlationID := correlationID
      payload := raw }

end PixRail.Events
