import PixRail.Go.Strings
import PixRail.Wire.Reader

/-!
# The values of the codecs

`PaymentEvent` and `ParticipantProfileCache`.  An `int64` is an `Int64`, and
so is an `int`, which has 64 bits.  A nil slice and an empty one are both the
empty list.  The length of a Go string or slice is an `int`; `Sized` says so
of the lengths in an event.
-/

namespace PixRail.Codec

open Go Wire

/-- The errors of the codecs. -/
inductive CodecErr where
  /-- `io.ErrUnexpectedEOF`. -/
  | unexpectedEOF
  /-- `ErrInvalidParticipantProfileCache`, wrapped with a detail. -/
  | invalidProfile (detail : GoString)
  /-- An error of `fmt.Errorf` or `errors.New`. -/
  | malformed (text : GoString)
  deriving DecidableEq

structure PaymentEvent where
  eventID : GoString := []
  eventType : GoString := []
  tenantID : GoString := []
  accountID : GoString := []
  transferID : GoString := []
  correlationID : GoString := []
  occurredAtUnixNano : Int64 := 0
  amountCents : Int64 := 0
  currency : GoString := []
  receiverKeyType : GoString := []
  decisionReason : GoString := []
  spiMessageID : GoString := []
  endToEndID : GoString := []
  fraudScore : Int64 := 0
  fraudRules : List GoString := []
  deriving DecidableEq

structure ParticipantProfileCache where
  receiverID : GoString
  bankISPB : GoString
  name : GoString
  riskSignal : Int64
  resolvedAtUnixNano : Int64
  expiresAtUnixNano : Int64
  deriving DecidableEq

/-- The strings of an event, without the rules. -/
def PaymentEvent.texts (e : PaymentEvent) : List GoString :=
  [e.eventID, e.eventType, e.tenantID, e.accountID, e.transferID, e.correlationID, e.currency,
    e.receiverKeyType, e.decisionReason, e.spiMessageID, e.endToEndID]

def ParticipantProfileCache.texts (p : ParticipantProfileCache) : List GoString :=
  [p.receiverID, p.bankISPB, p.name]

/-- The largest `int`. -/
def maxInt : Nat := 2 ^ 63 - 1

/-- The strings and the list of rules are no longer than `n`. -/
structure PaymentEvent.Within (n : Nat) (e : PaymentEvent) : Prop where
  texts : ∀ s ∈ e.texts, s.length ≤ n
  ruleTexts : ∀ s ∈ e.fraudRules, s.length ≤ n
  rules : e.fraudRules.length ≤ n

def ParticipantProfileCache.Within (n : Nat) (p : ParticipantProfileCache) : Prop :=
  ∀ s ∈ p.texts, s.length ≤ n

instance (n : Nat) (p : ParticipantProfileCache) : Decidable (p.Within n) :=
  inferInstanceAs (Decidable (∀ s ∈ p.texts, s.length ≤ n))

/-- The lengths of an event are values of `int`. -/
abbrev PaymentEvent.Sized (e : PaymentEvent) : Prop := e.Within maxInt

abbrev ParticipantProfileCache.Sized (p : ParticipantProfileCache) : Prop := p.Within maxInt

/-- `validateParticipantProfileCache`. -/
def validateParticipantProfileCache (profile : ParticipantProfileCache) : Except CodecErr Unit :=
  if profile.receiverID = [] then
    .error (.invalidProfile (go "receiver_id is required"))
  else if profile.bankISPB = [] then
    .error (.invalidProfile (go "bank_ispb is required"))
  else if profile.riskSignal < 0 then
    .error (.invalidProfile (go "risk_signal must be non-negative"))
  else if profile.resolvedAtUnixNano < 0 then
    .error (.invalidProfile (go "resolved_at_unix_nano must be non-negative"))
  else if profile.expiresAtUnixNano ≤ 0 then
    .error (.invalidProfile (go "expires_at_unix_nano is required"))
  else if profile.expiresAtUnixNano ≤ profile.resolvedAtUnixNano then
    .error (.invalidProfile
      (go "expires_at_unix_nano must be after resolved_at_unix_nano"))
  else .ok ()

/-- `SamplePixTransferBlocked`. -/
def samplePixTransferBlocked : PaymentEvent where
  eventID := go "evt_20260531_blocked_001"
  eventType := go "pix_transfer_blocked"
  tenantID := go "tenant_demo"
  accountID := go "acct_123"
  transferID := go "pxt_20260531_001"
  correlationID := go "corr_20260531_001"
  occurredAtUnixNano := 1780228800000000000
  amountCents := 12345
  currency := go "BRL"
  receiverKeyType := go "EMAIL"
  decisionReason := go "receiver risk over payment-rail policy"
  fraudScore := 96
  fraudRules := [go "receiver_risk_high", go "velocity_threshold"]

/-- `SampleParticipantProfileCache`. -/
def sampleParticipantProfileCache : ParticipantProfileCache where
  receiverID := go "dict_receiver_123"
  bankISPB := go "10000000"
  name := go "Recebedor PixRail"
  riskSignal := 12
  resolvedAtUnixNano := 1780228800000000000
  expiresAtUnixNano := 1780232400000000000

/-- `paymentEventFieldCount`. -/
def paymentEventFieldCount : Nat := 15

/-- `participantProfileFieldCount`. -/
def participantProfileFieldCount : Nat := 6

/-- `make([]string, 0, length)`. -/
def makeStrings (length : Int) : Reader CodecErr Unit :=
  if length < 0 then Reader.crash else pure ()

theorem makeStrings_length (n : Nat) : makeStrings n = pure () :=
  if_neg (by omega)

theorem toNat_length {n : Nat} (h : n ≤ maxInt) : (UInt64.ofNat n).toNat = n := by
  unfold maxInt at h
  rw [UInt64.toNat_ofNat']
  omega

/-- The end of an `Unmarshal`: the reader must have come to the end of the
input. -/
def finish {α : Type} (trailing : GoString) (p : Reader CodecErr α) (raw : List UInt8) :
    Except (Fault CodecErr) α :=
  match p raw with
  | .error f => .error f
  | .ok (a, rest) =>
    if rest.length ≠ 0 then .error (.error (.malformed (trailing ++ itoa rest.length))) else .ok a

theorem finish_reads {α : Type} {trailing : GoString} {p : Reader CodecErr α} {bs : List UInt8}
    {a : α} (h : Reads p bs a) : finish trailing p bs = .ok a := by
  unfold finish
  rw [h.run]
  rfl

theorem finish_error {α : Type} {trailing : GoString} {p : Reader CodecErr α} {raw : List UInt8}
    {e : Fault CodecErr} (h : p raw = .error e) : finish trailing p raw = .error e := by
  unfold finish
  rw [h]

/-- What an accepted input was read as. -/
theorem finish_eq_ok {α : Type} {trailing : GoString} {p : Reader CodecErr α} {raw : List UInt8}
    {a : α} (h : finish trailing p raw = .ok a) : p raw = .ok (a, []) := by
  unfold finish at h
  split at h
  · exact absurd h (by simp)
  · rename_i a' rest hp
    split at h
    · exact absurd h (by simp)
    · rename_i hlen
      obtain rfl := List.length_eq_zero_iff.mp (not_not.mp hlen)
      rw [Except.ok.injEq] at h
      rw [hp, h]

end PixRail.Codec
