import PixRail.Switcher.Service
import PixRail.Messaging.Relay
import PixRail.Interleave.World

/-!
# The running switch

The in-memory store, the two limiters and the ports answer the operations,
and any number of service calls and relay drains are in flight.  A step of
the switch carries an `Input`: the clock reading of the step, the state of
the caller's context, and the answer of the port that the operation asks, if
it asks one.  Ports may answer anything.

The rate limiter is an interface of the service, so its implementation is a
parameter (`Env.allow`).
-/

namespace PixRail.Switcher

open Go Rail Events Store Interleave Messaging

/-- What a step takes from outside. -/
inductive Answer where
  | silent
  /-- The bytes of `rand.Read`, `none` when it fails. -/
  | random (bytes : Option (List UInt8))
  | dict (r : Except Err DictEntry)
  | fraud (r : Except Err FraudDecision)
  | spi (r : Except Err SPIMessage)
  | published (r : Except Err Unit)
  /-- The order of a range over the transfers. -/
  | order (ids : List GoString)

structure Input where
  now : Time
  ctx : Ctx := none
  answer : Answer := .silent

/-- The parameters of the switch: the library functions and the limiter. -/
structure Env extends Lib where
  Lim : Type
  allow : Lim → Time → GoString → Bool × Lim

/-- The shared state. -/
structure State (E : Env) where
  store : MemoryStore
  tenantLimit : Option E.Lim
  dictLimit : Option E.Lim

/-- `newID`: a tag and 32 hexadecimal digits, or the clock when there is no
randomness. -/
def newID (tag : GoString) (now : Time) : Option (List UInt8) → GoString
  | some bytes => tag ++ go "_" ++ hexEncode bytes
  | none => tag ++ go "_" ++ itoa (unixNano now)

/-- `limiter == nil || limiter.Allow(key)`, and the limiter after it. -/
def allowed (E : Env) (limiter : Option E.Lim) (now : Time) (key : GoString) :
    Bool × Option E.Lim :=
  match limiter with
  | none => (true, none)
  | some l => ((E.allow l now key).1, some (E.allow l now key).2)

/-- The answer of the store to a call. -/
def storeHandle (H : Digest) : (c : StoreCall) → Input → MemoryStore →
    Option (c.Ret × MemoryStore)
  | .findByIdempotency tenantID key, i, s =>
    some (s.findByIdempotency i.ctx tenantID key, s)
  | .insertTransfer transfer outbox audit, _, s =>
    some (s.insertTransfer transfer outbox audit)
  | .getTransfer tenantID transferID, _, s => some (s.getTransfer tenantID transferID, s)
  | .claimSPISubmission tenantID transferID claimToken claimUntil, i, s =>
    some (s.claimSPISubmission i.ctx i.now tenantID transferID claimToken claimUntil)
  | .recordSPISubmission tenantID transferID claimToken message outbox audit, i, s =>
    some (s.recordSPISubmission i.ctx tenantID transferID claimToken message outbox audit)
  | .releaseSPISubmission tenantID transferID claimToken lastError retryAt, i, s =>
    some (s.releaseSPISubmission i.ctx i.now tenantID transferID claimToken lastError retryAt)
  | .recordReviewDecision tenantID transferID status reason outbox audit, _, s =>
    some (s.recordReviewDecision tenantID transferID status reason outbox audit)
  | .updateSettlement tenantID transferID callback outbox audit, _, s =>
    some (s.updateSettlement H tenantID transferID callback outbox audit)
  | .pendingSPISubmissions now limit, i, s =>
    match i.answer with
    | .order order =>
      if s.RangeOrder order then some (s.pendingSPISubmissions order now limit, s) else none
    | _ => none
  | .claimPendingOutbox now limit claimToken claimUntil, _, s =>
    some (s.claimPendingOutbox now limit claimToken claimUntil)
  | .markOutboxPublished sequence claimToken dispatchedAt, i, s =>
    some (s.markOutboxPublished i.ctx sequence claimToken dispatchedAt)
  | .markOutboxFailed sequence claimToken lastError retryAt, i, s =>
    some (s.markOutboxFailed i.ctx sequence claimToken lastError retryAt)

/-- The answer to an operation.  `none` when the input is not one for it. -/
def handle (E : Env) : (o : Op) → Input → State E → Option (o.Ret × State E)
  | .now, i, s => some (i.now, s)
  | .newID tag, i, s =>
    match i.answer with
    | .random bytes =>
      if ∀ b ∈ bytes, b.length = 16 then some (newID tag i.now bytes, s) else none
    | _ => none
  | .health, i, s => some (i.ctx, s)
  | .tenantAllow key, i, s =>
    let (ok, limiter) := allowed E s.tenantLimit i.now key
    some (ok, { s with tenantLimit := limiter })
  | .dictAllow key, i, s =>
    let (ok, limiter) := allowed E s.dictLimit i.now key
    some (ok, { s with dictLimit := limiter })
  | .resolve _ _ _, i, s => match i.answer with | .dict r => some (r, s) | _ => none
  | .score _ _, i, s => match i.answer with | .fraud r => some (r, s) | _ => none
  | .submit _, i, s => match i.answer with | .spi r => some (r, s) | _ => none
  | .publish _, i, s => match i.answer with | .published r => some (r, s) | _ => none
  | .store c, i, s =>
    match storeHandle E.digest c i s.store with
    | some (r, store) => some (r, { s with store := store })
    | none => none

/-- The calls of the service and of the relay. -/
inductive Call where
  | createTransfer (req : CreateTransferRequest)
  | getTransfer (tenantID transferID : GoString)
  | submitToSPI (tenantID transferID correlationID : GoString)
  | submitPendingSPI (limit : Int)
  | recordReview (req : ReviewDecisionRequest)
  | recordSettlement (callback : SettlementCallback)
  | drain (policy : RetryPolicy) (limit : Int)

/-- What a call returns. -/
inductive Outcome where
  | result (r : Except Err Result)
  | transfer (r : Except Err Transfer)
  | batch (r : SPIBatchResult × Option Err)
  | stats (r : RelayStats × Option Err)

def body (L : Lib) : Call → Code Outcome
  | .createTransfer req => .result <$> createTransfer L req
  | .getTransfer tenantID transferID => .transfer <$> getTransfer tenantID transferID
  | .submitToSPI tenantID transferID correlationID =>
    .result <$> submitToSPI L tenantID transferID correlationID
  | .submitPendingSPI limit => .batch <$> submitPendingSPI L limit
  | .recordReview req => .result <$> recordReview L req
  | .recordSettlement callback => .result <$> recordSettlement L callback
  | .drain policy limit => .stats <$> drain policy limit

/-- The switch as a system of interleaved calls. -/
@[reducible] def switch (E : Env) : System sig where
  Input := Input
  State := State E
  Call := Call
  Out := Outcome
  handle := handle E
  body := body E.toLib

/-- The state of a switch that has just started. -/
def State.initial (E : Env) (tenantLimit dictLimit : Option E.Lim) : State E where
  store := newMemoryStore
  tenantLimit := tenantLimit
  dictLimit := dictLimit

end PixRail.Switcher
