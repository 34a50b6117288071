import PixRail.Go.Strings
import PixRail.Go.Values

/-!
# The domain model

`internal/rail/model.go`: requests, transfers, audit records, the answers of
the ports, the errors, the request and callback fingerprints, and the
transitions of a transfer.

The string types with a fixed set of values (`TransferStatus`, `DictKeyType`,
`SettlementStatus`, `ReviewDecision`) are inductive types with one more
constructor for every other string, because requests and ports may carry any
string.  That constructor excludes the known values, so `text` is injective
on each type.

An error is its text and the sentinels that `errors.Is` finds in it.
-/

namespace PixRail.Rail

open Go

/-! ## Errors -/

/-- The sentinel errors of `rail`, and the two of `context`. -/
inductive ErrKind where
  | validation
  | unauthorized
  | notFound
  | conflict
  | rateLimited
  | dependencyFailed
  | deadlineExceeded
  | canceled
  deriving DecidableEq

def ErrKind.text : ErrKind → GoString
  | validation => go "validation failed"
  | unauthorized => go "unauthorized"
  | notFound => go "not found"
  | conflict => go "conflict"
  | rateLimited => go "rate limited"
  | dependencyFailed => go "dependency failed"
  | deadlineExceeded => go "context deadline exceeded"
  | canceled => go "context canceled"

/-- An error: the sentinels it wraps, and its text. -/
structure Err where
  kinds : List ErrKind
  text : GoString
  deriving DecidableEq

/-- `errors.Is(e, k)`. -/
def Err.is (e : Err) (k : ErrKind) : Prop := k ∈ e.kinds

instance (e : Err) (k : ErrKind) : Decidable (e.is k) :=
  inferInstanceAs (Decidable (k ∈ e.kinds))

/-- The sentinel itself. -/
def ErrKind.err (k : ErrKind) : Err := ⟨[k], k.text⟩

/-- `fmt.Errorf("%w: detail", k)`. -/
def ErrKind.wrap (k : ErrKind) (detail : GoString) : Err :=
  ⟨[k], k.text ++ go ": " ++ detail⟩

@[simp] theorem ErrKind.err_is (k k' : ErrKind) : k.err.is k' ↔ k' = k := by
  simp [Err.is, ErrKind.err]

@[simp] theorem ErrKind.wrap_is (k k' : ErrKind) (detail : GoString) :
    (k.wrap detail).is k' ↔ k' = k := by
  simp [Err.is, ErrKind.wrap]

/-! ## String types -/

inductive TransferStatus where
  | accepted
  | approved
  | blocked
  | review
  | settled
  | rejected
  | other (raw : GoString)
      (h : raw ∉ [go "accepted", go "approved", go "blocked", go "review", go "settled",
        go "rejected"])
  deriving DecidableEq

def TransferStatus.text : TransferStatus → GoString
  | accepted => go "accepted"
  | approved => go "approved"
  | blocked => go "blocked"
  | review => go "review"
  | settled => go "settled"
  | rejected => go "rejected"
  | other raw _ => raw

/-- `TransferStatus.Terminal`. -/
def TransferStatus.Terminal (s : TransferStatus) : Prop :=
  s = blocked ∨ s = settled ∨ s = rejected

instance (s : TransferStatus) : Decidable s.Terminal :=
  inferInstanceAs (Decidable (_ ∨ _))

inductive DictKeyType where
  | cpf
  | cnpj
  | email
  | phone
  | evp
  | other (raw : GoString)
      (h : raw ∉ [go "CPF", go "CNPJ", go "EMAIL", go "PHONE", go "EVP"])
  deriving DecidableEq

def DictKeyType.text : DictKeyType → GoString
  | cpf => go "CPF"
  | cnpj => go "CNPJ"
  | email => go "EMAIL"
  | phone => go "PHONE"
  | evp => go "EVP"
  | other raw _ => raw

/-- One of the five named key types. -/
def DictKeyType.Known : DictKeyType → Prop
  | other _ _ => False
  | _ => True

instance : DecidablePred DictKeyType.Known
  | .other _ _ => .isFalse id
  | .cpf | .cnpj | .email | .phone | .evp => .isTrue trivial

inductive SettlementStatus where
  | accepted
  | rejected
  | other (raw : GoString) (h : raw ∉ [go "accepted", go "rejected"])
  deriving DecidableEq

def SettlementStatus.text : SettlementStatus → GoString
  | accepted => go "accepted"
  | rejected => go "rejected"
  | other raw _ => raw

/-- The status a settlement callback leads to, `none` for an unsupported
callback status. -/
def SettlementStatus.settles : SettlementStatus → Option TransferStatus
  | accepted => some .settled
  | rejected => some .rejected
  | other _ _ => none

inductive ReviewDecision where
  | approve
  | block
  | other (raw : GoString) (h : raw ∉ [go "approve", go "block"])
  deriving DecidableEq

def ReviewDecision.text : ReviewDecision → GoString
  | approve => go "approve"
  | block => go "block"
  | other raw _ => raw

/-! ## Records -/

structure CreateTransferRequest where
  tenantID : GoString
  accountID : GoString
  idempotencyKey : GoString
  correlationID : GoString := []
  amountCents : Int
  currency : GoString := []
  receiverKey : GoString
  receiverKeyType : DictKeyType
  description : GoString := []
  requestedAt : Time := 0
  deriving DecidableEq

structure Transfer where
  id : GoString
  tenantID : GoString
  accountID : GoString
  idempotencyKey : GoString
  requestHash : GoString
  correlationID : GoString
  endToEndID : GoString := []
  amountCents : Int
  currency : GoString
  receiverKey : GoString
  receiverKeyType : DictKeyType
  receiverName : GoString
  receiverBank : GoString
  receiverRisk : Int
  fraudScore : Int
  fraudRules : List GoString
  status : TransferStatus
  decisionReason : GoString
  spiMessageID : GoString := []
  spiClaimToken : GoString := []
  spiClaimedUntil : Option Time := none
  spiSubmissionAttempts : Int := 0
  spiLastError : GoString := []
  settlementCode : GoString := []
  createdAt : Time
  updatedAt : Time
  deriving DecidableEq

structure AuditRecord where
  tenantID : GoString
  accountID : GoString
  transferID : GoString
  action : GoString
  correlationID : GoString
  metadata : List (GoString × GoString)
  createdAt : Time
  deriving DecidableEq

structure DictEntry where
  key : GoString
  keyType : DictKeyType
  receiverID : GoString
  name : GoString
  bankISPB : GoString
  accountHash : GoString
  riskSignal : Int
  resolvedAt : Time
  deriving DecidableEq

structure FraudDecision where
  score : Int
  status : TransferStatus
  rules : List GoString
  reason : GoString
  deriving DecidableEq

structure SPIMessage where
  messageID : GoString
  endToEndID : GoString
  transferID : GoString
  submittedAt : Time
  deriving DecidableEq

structure SettlementCallback where
  tenantID : GoString
  transferID : GoString
  spiMessageID : GoString
  status : SettlementStatus
  code : GoString
  callbackHash : GoString := []
  correlationID : GoString := []
  receivedAt : Time := 0
  deriving DecidableEq

structure ReviewDecisionRequest where
  tenantID : GoString
  transferID : GoString
  decision : ReviewDecision
  reason : GoString := []
  correlationID : GoString := []
  reviewedAt : Time := 0
  deriving DecidableEq

/-! ## Request validation -/

/-- One `if` of `Validate`: the message, when the condition holds. -/
def problem (c : Prop) [Decidable c] (message : String) : List GoString :=
  if c then [go message] else []

/-- The problems `Validate` collects, in its order. -/
def CreateTransferRequest.problems (r : CreateTransferRequest) : List GoString :=
  problem (trimSpace r.tenantID = []) "tenant_id is required" ++
  problem (trimSpace r.accountID = []) "account_id is required" ++
  problem (trimSpace r.idempotencyKey = []) "idempotency key is required" ++
  problem (r.amountCents ≤ 0) "amount_cents must be greater than zero" ++
  problem (2000000 < r.amountCents) "amount_cents exceeds per-transfer limit" ++
  problem ((if r.currency = [] then go "BRL" else r.currency) ≠ go "BRL")
    "currency must be BRL" ++
  problem (trimSpace r.receiverKey = []) "receiver_key is required" ++
  problem (¬ r.receiverKeyType.Known) "receiver_key_type is invalid"

/-- `CreateTransferRequest.Validate`. -/
def CreateTransferRequest.validate (r : CreateTransferRequest) : Except Err Unit :=
  if r.problems = [] then .ok ()
  else .error (ErrKind.validation.wrap (join r.problems (go "; ")))

theorem problem_eq_nil {c : Prop} [Decidable c] {m : String} : problem c m = [] ↔ ¬ c := by
  unfold problem
  split <;> simp [*]

/-- What `Validate` asks of a request. -/
structure CreateTransferRequest.Valid (r : CreateTransferRequest) : Prop where
  tenantID : trimSpace r.tenantID ≠ []
  accountID : trimSpace r.accountID ≠ []
  idempotencyKey : trimSpace r.idempotencyKey ≠ []
  positive : 1 ≤ r.amountCents
  bounded : r.amountCents ≤ 2000000
  currency : r.currency = [] ∨ r.currency = go "BRL"
  receiverKey : trimSpace r.receiverKey ≠ []
  receiverKeyType : r.receiverKeyType.Known

theorem CreateTransferRequest.validate_eq_ok {r : CreateTransferRequest} :
    r.validate = .ok () ↔ r.Valid := by
  have hcur : (if r.currency = [] then go "BRL" else r.currency) = go "BRL" ↔
      r.currency = [] ∨ r.currency = go "BRL" := by
    by_cases h : r.currency = []
    · simp [h]
    · simp [h]
  have hiff : r.validate = .ok () ↔ r.problems = [] := by
    unfold CreateTransferRequest.validate
    by_cases h : r.problems = []
    · simp [h]
    · simp [h]
  rw [hiff]
  simp only [CreateTransferRequest.problems, List.append_eq_nil_iff, problem_eq_nil, not_not, hcur,
    ne_eq, Int.not_le, Int.not_lt]
  constructor
  · rintro ⟨⟨⟨⟨⟨⟨⟨h₁, h₂⟩, h₃⟩, h₄⟩, h₅⟩, h₆⟩, h₇⟩, h₈⟩
    exact ⟨h₁, h₂, h₃, h₄, h₅, h₆, h₇, h₈⟩
  · intro h
    exact ⟨⟨⟨⟨⟨⟨⟨h.tenantID, h.accountID⟩, h.idempotencyKey⟩, h.positive⟩, h.bounded⟩,
      h.currency⟩, h.receiverKey⟩, h.receiverKeyType⟩

/-! ## Fingerprints -/

/-- `sha256.Sum256` as the code uses it: a function from bytes to a
non-empty digest. -/
structure Digest where
  sum256 : GoString → GoString
  sum256_ne_nil : ∀ b, sum256 b ≠ []

/-- `hashParts`. -/
def hashParts (H : Digest) (parts : List GoString) : GoString :=
  hexEncode (H.sum256 (join parts [0]))

/-- The seven parts of a request fingerprint. -/
def CreateTransferRequest.fingerprintParts (r : CreateTransferRequest) : List GoString :=
  let currency := trimSpace r.currency
  let currency := if currency = [] then go "BRL" else currency
  [trimSpace r.tenantID, trimSpace r.accountID, itoa r.amountCents, currency,
    trimSpace r.receiverKey, r.receiverKeyType.text, trimSpace r.description]

/-- `CreateTransferRequest.Fingerprint`. -/
def CreateTransferRequest.fingerprint (H : Digest) (r : CreateTransferRequest) : GoString :=
  hashParts H r.fingerprintParts

/-- The five parts of a callback fingerprint. -/
def SettlementCallback.fingerprintParts (c : SettlementCallback) : List GoString :=
  [trimSpace c.tenantID, trimSpace c.transferID, trimSpace c.spiMessageID, c.status.text,
    trimSpace c.code]

/-- `SettlementCallback.Fingerprint`. -/
def SettlementCallback.fingerprint (H : Digest) (c : SettlementCallback) : GoString :=
  hashParts H c.fingerprintParts

/-! ## Transitions of a transfer -/

namespace Transfer

/-- `Transfer.ClaimSPISubmission`. -/
def claimSPISubmission (t : Transfer) (claimToken : GoString) (claimUntil now : Time) :
    Except Err Transfer :=
  if trimSpace claimToken = [] ∨ ¬ now < claimUntil then
    .error (ErrKind.validation.wrap (go "valid spi claim token and expiry are required"))
  else if t.status ≠ .accepted then
    .error (ErrKind.conflict.wrap (go "transfer is not pending SPI submission"))
  else if ∃ until_ ∈ t.spiClaimedUntil, now < until_ then
    .error (ErrKind.conflict.wrap (go "transfer already claimed for SPI submission"))
  else
    .ok { t with
      spiClaimToken := claimToken
      spiClaimedUntil := some claimUntil
      spiSubmissionAttempts := t.spiSubmissionAttempts + 1
      spiLastError := []
      updatedAt := now }

/-- `Transfer.RecordSPISubmission`. -/
def recordSPISubmission (t : Transfer) (claimToken : GoString) (message : SPIMessage) :
    Except Err Transfer :=
  if t.status ≠ .accepted then
    .error (ErrKind.conflict.wrap (go "transfer is not pending SPI submission"))
  else if t.spiClaimToken = [] ∨ t.spiClaimToken ≠ claimToken then
    .error (ErrKind.conflict.wrap (go "transfer is not claimed by this SPI worker"))
  else if trimSpace message.messageID = [] ∨ trimSpace message.endToEndID = [] then
    .error (ErrKind.validation.wrap (go "spi identifiers are required"))
  else
    .ok { t with
      status := .approved
      spiMessageID := message.messageID
      endToEndID := message.endToEndID
      spiClaimToken := []
      spiClaimedUntil := none
      spiLastError := []
      updatedAt := message.submittedAt }

/-- `Transfer.ReleaseSPISubmission`. -/
def releaseSPISubmission (t : Transfer) (claimToken lastError : GoString)
    (retryAt now : Time) : Except Err Transfer :=
  if t.status = .approved ∧ t.spiMessageID ≠ [] then .ok t
  else if t.spiClaimToken = [] ∨ t.spiClaimToken ≠ claimToken then
    .error (ErrKind.conflict.wrap (go "transfer is not claimed by this SPI worker"))
  else
    .ok { t with
      spiClaimToken := []
      spiClaimedUntil := some retryAt
      spiLastError := lastError
      updatedAt := now }

/-- `Transfer.RecordReviewDecision`. -/
def recordReviewDecision (t : Transfer) (status : TransferStatus) (reason : GoString)
    (reviewedAt : Time) : Except Err Transfer :=
  if t.status ≠ .review then
    .error (ErrKind.conflict.wrap (go "transfer is not waiting for review"))
  else if status ≠ .accepted ∧ status ≠ .blocked then
    .error (ErrKind.validation.wrap (go "review can only accept or block"))
  else
    .ok { t with
      status := status
      decisionReason := if reason ≠ [] then reason else t.decisionReason
      updatedAt := reviewedAt }

/-- `Transfer.RecordSettlement`. -/
def recordSettlement (t : Transfer) (callback : SettlementCallback) : Except Err Transfer :=
  if t.spiMessageID = [] ∨ t.spiMessageID ≠ callback.spiMessageID then
    .error (ErrKind.conflict.wrap (go "spi_message_id mismatch"))
  else if t.status.Terminal then
    .error (ErrKind.conflict.wrap (go "terminal transfer has no matching callback hash"))
  else if t.status ≠ .approved then
    .error (ErrKind.conflict.wrap (go "transfer is not approved for settlement callback"))
  else
    match callback.status.settles with
    | none => .error (ErrKind.validation.wrap (go "unsupported settlement status"))
    | some status =>
      .ok { t with
        status := status
        settlementCode := callback.code
        updatedAt := callback.receivedAt }

/-! ## What a transition does

One lemma for each transition: exactly when it succeeds, and the transfer it
then leaves.  Later proofs use these and never the definitions. -/

theorem claimSPISubmission_eq_ok {t t' : Transfer} {tok : GoString} {u now : Time} :
    t.claimSPISubmission tok u now = .ok t' ↔
      trimSpace tok ≠ [] ∧ now < u ∧ t.status = .accepted ∧
      (∀ v ∈ t.spiClaimedUntil, v ≤ now) ∧
      t' = { t with
        spiClaimToken := tok
        spiClaimedUntil := some u
        spiSubmissionAttempts := t.spiSubmissionAttempts + 1
        spiLastError := []
        updatedAt := now } := by
  unfold claimSPISubmission
  split_ifs with h₁ h₂ h₃
  · simp only [false_iff]
    rintro ⟨htok, hu, -⟩
    exact h₁.elim htok (fun h => h hu)
  · simp only [false_iff]
    rintro ⟨-, -, hs, -⟩
    exact h₂ hs
  · simp only [false_iff]
    rintro ⟨-, -, -, hv, -⟩
    obtain ⟨v, hmem, hlt⟩ := h₃
    exact absurd (hv v hmem) (Int.not_le.mpr hlt)
  · rw [not_or, not_not] at h₁
    rw [ne_eq, not_not] at h₂
    have hv : ∀ v ∈ t.spiClaimedUntil, v ≤ now :=
      fun v hmem => Int.not_lt.mp fun hlt => h₃ ⟨v, hmem, hlt⟩
    rw [Except.ok.injEq]
    exact ⟨fun h => ⟨h₁.1, h₁.2, h₂, hv, h.symm⟩, fun h => h.2.2.2.2.symm⟩

theorem recordSPISubmission_eq_ok {t t' : Transfer} {tok : GoString} {m : SPIMessage} :
    t.recordSPISubmission tok m = .ok t' ↔
      t.status = .accepted ∧ t.spiClaimToken ≠ [] ∧ t.spiClaimToken = tok ∧
      trimSpace m.messageID ≠ [] ∧ trimSpace m.endToEndID ≠ [] ∧
      t' = { t with
        status := .approved
        spiMessageID := m.messageID
        endToEndID := m.endToEndID
        spiClaimToken := []
        spiClaimedUntil := none
        spiLastError := []
        updatedAt := m.submittedAt } := by
  unfold recordSPISubmission
  split_ifs with h₁ h₂ h₃
  · simp only [false_iff]
    rintro ⟨hs, -⟩
    exact h₁ hs
  · simp only [false_iff]
    rintro ⟨-, hne, heq, -⟩
    exact h₂.elim hne (fun h => h heq)
  · simp only [false_iff]
    rintro ⟨-, -, -, hm, he, -⟩
    exact h₃.elim hm he
  · rw [ne_eq, not_not] at h₁
    rw [not_or, ne_eq, not_not] at h₂
    rw [not_or] at h₃
    rw [Except.ok.injEq]
    exact ⟨fun h => ⟨h₁, h₂.1, h₂.2, h₃.1, h₃.2, h.symm⟩, fun h => h.2.2.2.2.2.symm⟩

theorem releaseSPISubmission_eq_ok {t t' : Transfer} {tok e : GoString} {r now : Time}
    (happ : ¬ (t.status = .approved ∧ t.spiMessageID ≠ [])) :
    t.releaseSPISubmission tok e r now = .ok t' ↔
      t.spiClaimToken ≠ [] ∧ t.spiClaimToken = tok ∧
      t' = { t with
        spiClaimToken := []
        spiClaimedUntil := some r
        spiLastError := e
        updatedAt := now } := by
  unfold releaseSPISubmission
  rw [if_neg happ]
  split_ifs with h₂
  · simp only [false_iff]
    rintro ⟨hne, heq, -⟩
    exact h₂.elim hne (fun h => h heq)
  · rw [not_or, ne_eq, not_not] at h₂
    rw [Except.ok.injEq]
    exact ⟨fun h => ⟨h₂.1, h₂.2, h.symm⟩, fun h => h.2.2.symm⟩

theorem recordReviewDecision_eq_ok {t t' : Transfer} {s : TransferStatus} {r : GoString}
    {at_ : Time} :
    t.recordReviewDecision s r at_ = .ok t' ↔
      t.status = .review ∧ (s = .accepted ∨ s = .blocked) ∧
      t' = { t with
        status := s
        decisionReason := if r ≠ [] then r else t.decisionReason
        updatedAt := at_ } := by
  unfold recordReviewDecision
  by_cases h₁ : t.status = .review
  · by_cases h₂ : s = .accepted ∨ s = .blocked
    · have h₂' : ¬ (s ≠ .accepted ∧ s ≠ .blocked) := fun h => h₂.elim h.1 h.2
      rw [if_neg (not_not.mpr h₁), if_neg h₂', Except.ok.injEq]
      exact ⟨fun h => ⟨h₁, h₂, h.symm⟩, fun h => h.2.2.symm⟩
    · have h₂' := not_or.mp h₂
      rw [if_neg (not_not.mpr h₁), if_pos h₂']
      simp [h₂]
  · rw [if_pos h₁]
    simp [h₁]

theorem recordSettlement_eq_ok {t t' : Transfer} {c : SettlementCallback} :
    t.recordSettlement c = .ok t' ↔
      t.spiMessageID ≠ [] ∧ t.spiMessageID = c.spiMessageID ∧ t.status = .approved ∧
      ∃ s, c.status.settles = some s ∧
        t' = { t with
          status := s
          settlementCode := c.code
          updatedAt := c.receivedAt } := by
  unfold recordSettlement
  split_ifs with h₁ h₂ h₃
  · simp only [false_iff]
    rintro ⟨hne, heq, -⟩
    exact h₁.elim hne (fun h => h heq)
  · simp only [false_iff]
    rintro ⟨-, -, hs, -⟩
    rw [hs] at h₂
    exact absurd h₂ (by decide)
  · simp only [false_iff]
    rintro ⟨-, -, hs, -⟩
    exact h₃ hs
  · rw [not_or, ne_eq, not_not] at h₁
    rw [ne_eq, not_not] at h₃
    cases hset : c.status.settles with
    | none => simp
    | some s =>
      simp only [Except.ok.injEq, Option.some.injEq, exists_eq_left']
      exact ⟨fun h => ⟨h₁.1, h₁.2, h₃, h.symm⟩, fun h => h.2.2.2.symm⟩

end Transfer

end PixRail.Rail
