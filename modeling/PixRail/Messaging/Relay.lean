import PixRail.Switcher.Ports

/-!
# The outbox relay

`internal/messaging/relay.go`: the retry policy, the backoff and `Drain`.
-/

namespace PixRail.Messaging

open Go Rail Events Store Interleave Switcher

structure RetryPolicy where
  initialBackoff : Duration
  maxBackoff : Duration
  claimTTL : Duration
  deriving DecidableEq

/-- The defaults of `NewRelay`. -/
def RetryPolicy.normalize (policy : RetryPolicy) : RetryPolicy where
  initialBackoff := if policy.initialBackoff ≤ 0 then second else policy.initialBackoff
  maxBackoff := if policy.maxBackoff ≤ 0 then minute else policy.maxBackoff
  claimTTL := if policy.claimTTL ≤ 0 then 30 * second else policy.claimTTL

structure RelayStats where
  scanned : Nat := 0
  published : Nat := 0
  retried : Nat := 0
  deriving DecidableEq

/-- The loop of `backoff`, with the number of iterations left. -/
def backoffLoop (policy : RetryPolicy) : Nat → Duration → Duration
  | 0, backoff => backoff
  | n + 1, backoff =>
    let backoff := wrap64 (backoff * 2)
    if policy.maxBackoff ≤ backoff then policy.maxBackoff
    else backoffLoop policy n backoff

/-- `Relay.backoff`. -/
def backoff (policy : RetryPolicy) (attempt : Int) : Duration :=
  let attempt := if attempt ≤ 0 then 1 else attempt
  backoffLoop policy (attempt - 1).toNat policy.initialBackoff

/-- `ClaimPendingOutbox` up to the lock: the context, the check of the
arguments against the clock, then the reading the claim uses. -/
def claimPendingOutbox (limit : Int) (claimToken : GoString) (claimUntil : Time) :
    Code (Except Err (List OutboxRecord)) := do
  match ← perform .health with
  | some err => return .error err.err
  | none =>
    let checkedAt ← perform .now
    if claimToken = [] ∨ ¬ checkedAt < claimUntil then
      return .error (ErrKind.validation.wrap
        (go "valid outbox claim token and expiry are required"))
    else
      let now ← perform .now
      return .ok (← storeCall (.claimPendingOutbox now limit claimToken claimUntil))

/-- An error with a text in front: `fmt.Errorf("head: %w", err)`. -/
def headed (head : String) (err : Err) : Err :=
  { err with text := go head ++ go ": " ++ err.text }

/-- The loop of `Drain` over the claimed records. -/
def drainLoop (policy : RetryPolicy) (claimToken : GoString) (stats : RelayStats) :
    List OutboxRecord → Code (RelayStats × Option Err)
  | [] => return (stats, none)
  | record :: records => do
    match ← perform (.publish record.event) with
    | .error err =>
      let stats := { stats with retried := stats.retried + 1 }
      let now ← perform .now
      match ← storeCall (.markOutboxFailed record.sequence claimToken err.text
          (now + backoff policy (record.attempts + 1))) with
      | .error markErr => return (stats, some (headed "mark outbox failed" markErr))
      | .ok () => drainLoop policy claimToken stats records
    | .ok () =>
      let now ← perform .now
      match ← storeCall (.markOutboxPublished record.sequence claimToken now) with
      | .error err => return (stats, some (headed "mark outbox published" err))
      | .ok () =>
        drainLoop policy claimToken { stats with published := stats.published + 1 } records

/-- `Relay.Drain`, for the relay that `NewRelay` makes from the policy. -/
def drain (policy : RetryPolicy) (limit : Int) : Code (RelayStats × Option Err) := do
  let policy := policy.normalize
  let claimToken ← perform (.newID (go "outbox"))
  let now ← perform .now
  match ← claimPendingOutbox limit claimToken (now + policy.claimTTL) with
  | .error err => return ({}, some err)
  | .ok records => drainLoop policy claimToken { scanned := records.length } records

end PixRail.Messaging
