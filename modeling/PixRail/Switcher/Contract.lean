import PixRail.Store.Steps

/-!
# What the calls of the switch do

The contract of the calls, in the terms of `Interleave.Contract`.

* `Ens` is what a call may rely on for the answers it gets.
* `Allows` lists the operations of a call.  Each constructor names one
  operation, the call it belongs to, and the earlier operations of the same
  call that its arguments come from.
* `Returns` says where a result comes from.

`contract` collects the proofs.  Later modules use the contract and never
look into a program again.
-/

namespace PixRail.Switcher

open Go Rail Events Store Interleave Messaging

/-- The history of a call: its operations so far, with their answers. -/
abbrev History := List (Action sig Input)

/-! ## Event batches -/

/-- The events of a write to `t`: they name the transfer, and their types are
the given ones. -/
structure Batch (t : Transfer) (types : List EventType) (evs : List Event) : Prop where
  owned : ∀ e ∈ evs, e.tenantID = t.tenantID ∧ e.accountID = t.accountID ∧ e.transferID = t.id
  types : evs.map (·.eventType) = types.map EventType.name

/-- Every payload marshals. -/
def Lib.Marshals (L : Lib) : Prop := ∀ p, ∃ raw, L.marshal p = .ok raw

/-- The events of a new transfer: those of `full` whose payload marshals. -/
def Created (L : Lib) (full : List EventType) (t : Transfer) (evs : List Event) : Prop :=
  ∃ types, Batch t types evs ∧ types.Sublist full ∧ (L.Marshals → types = full)

/-- The event types of a new transfer. -/
def creationTypes (status : TransferStatus) : List EventType :=
  [.pixTransferRequested, .dictKeyResolved, .fraudScoreCalculated] ++
    if status = .accepted then [.pixTransferAccepted, .spiSubmissionRequested]
    else if status = .review then [.pixTransferReviewRequested]
    else if status = .blocked then [.pixTransferBlocked]
    else []

/-- The event types of a review that leads to `status`. -/
def reviewTypes (status : TransferStatus) : List EventType :=
  if status = .blocked then [.pixTransferReviewBlocked, .pixTransferBlocked]
  else [.pixTransferReviewApproved, .spiSubmissionRequested]

/-- The event types of a recorded submission. -/
def submissionTypes : List EventType := [.spiMessageCreated, .pixTransferApproved]

theorem newEvent_batch {L : Lib} {t : Transfer} {ty : EventType} {id cor : GoString}
    {at_ : Time} {p : Payload} {e : Event}
    (h : newEvent L.marshal id ty.name t.tenantID t.accountID t.id cor at_ p = .ok e) :
    Batch t [ty] [e] := by
  unfold newEvent at h
  split at h
  · exact absurd h (by simp)
  · rw [Except.ok.injEq] at h
    subst h
    exact ⟨by simp, rfl⟩

theorem newEvent_ok {L : Lib} (hm : L.Marshals) (id ty tn acct tid cor : GoString)
    (at_ : Time) (p : Payload) : ∃ e, newEvent L.marshal id ty tn acct tid cor at_ p = .ok e := by
  obtain ⟨raw, hraw⟩ := hm p
  simp [newEvent, hraw]

theorem Batch.append {t : Transfer} {ty₁ ty₂ : List EventType} {evs₁ evs₂ : List Event}
    (h₁ : Batch t ty₁ evs₁) (h₂ : Batch t ty₂ evs₂) : Batch t (ty₁ ++ ty₂) (evs₁ ++ evs₂) := by
  refine ⟨fun e he => ?_, ?_⟩
  · exact (List.mem_append.mp he).elim (h₁.owned e) (h₂.owned e)
  · rw [List.map_append, List.map_append, h₁.types, h₂.types]

theorem Created.nil (L : Lib) (t : Transfer) : Created L [] t [] :=
  ⟨[], ⟨by simp, rfl⟩, List.Sublist.refl _, fun _ => rfl⟩

/-! ## The tenant and the inputs of a call -/

/-- The tenant a call acts for.  A batch run and a drain act for all. -/
def Call.tenant : Call → Option GoString
  | .createTransfer req => some (trimSpace req.tenantID)
  | .getTransfer tenantID _ => some tenantID
  | .submitToSPI tenantID _ _ => some (trimSpace tenantID)
  | .submitPendingSPI _ => none
  | .recordReview req => some (trimSpace req.tenantID)
  | .recordSettlement callback => some callback.tenantID
  | .drain _ _ => none

/-- The call may act for that tenant. -/
def Call.ActsFor (c : Call) (tenantID : GoString) : Prop := ∀ tn ∈ c.tenant, tenantID = tn

theorem Call.actsFor_tenant {c : Call} {tn : GoString} (h : c.tenant = some tn) :
    c.ActsFor tn := by
  intro tn' htn'
  rw [h] at htn'
  exact Option.some.inj htn'

/-- The calls that submit to the SPI. -/
def Call.Submits : Call → Prop
  | .submitToSPI _ _ _ => True
  | .submitPendingSPI _ => True
  | _ => False

/-- The callback that `RecordSettlement` hands to the store. -/
def received (L : Lib) (callback : SettlementCallback) (receivedAt : Time)
    (correlationID : GoString) : SettlementCallback :=
  { callback with
    receivedAt := receivedAt
    correlationID := correlationID
    callbackHash := MemoryStore.callbackHash L.digest callback }

/-- Normalisation does not change the fingerprint. -/
theorem fingerprint_normalize (H : Digest) (req : CreateTransferRequest) (at_ : Time) :
    (normalize req at_).fingerprint H = req.fingerprint H := by
  have hcur : (if trimSpace (normalize req at_).currency = [] then go "BRL"
      else trimSpace (normalize req at_).currency) =
      if trimSpace req.currency = [] then go "BRL" else trimSpace req.currency := by
    by_cases hc : req.currency = []
    · rw [show (normalize req at_).currency = go "BRL" from if_pos hc, hc]
      decide +kernel
    · rw [show (normalize req at_).currency = req.currency from if_neg hc]
  simp only [CreateTransferRequest.fingerprint, CreateTransferRequest.fingerprintParts, hcur]
  simp [normalize]

/-! ## The contract -/

/-- What a call may rely on for an answer. -/
def Ens : (o : Op) → Input → o.Ret → Prop
  | .now, i, r => r = i.now
  | .newID tag, _, r => tag ++ go "_" <+: r
  | .store (.findByIdempotency _ _), _, r => ∀ e, r = .error e → ¬ e.is .conflict
  | .store (.getTransfer tn id), _, r => ∀ t, r = .ok t → t.id = id ∧ t.tenantID = tn
  | .store (.claimSPISubmission tn id tok _), _, r => ∀ t, r = .ok (t, false) →
      t.id = id ∧ t.tenantID = tn ∧ t.spiClaimToken = tok ∧ t.status = .accepted
  | .store (.claimPendingOutbox _ _ tok _), _, r => ∀ record ∈ r, record.claimToken = tok
  | _, _, _ => True

/-- The lookup of the idempotency key of a request. -/
def findFor (req : CreateTransferRequest) : StoreCall :=
  .findByIdempotency (trimSpace req.tenantID) (trimSpace req.idempotencyKey)

/-- No transfer was inserted in `h`. -/
def NoInsert (h : History) : Prop :=
  ∀ t evs auds r, ¬ Did h (.store (.insertTransfer t evs auds)) r

/-- The records that an action claimed. -/
def batchOf : Action sig Input → List OutboxRecord
  | ⟨.store (.claimPendingOutbox _ _ _ _), _, records⟩ => records
  | _ => []

/-- The action is a publish, successful or not. -/
def isPublish : Action sig Input → Bool
  | ⟨.publish _, _, _⟩ => true
  | _ => false

/-- The record of its batch that a relay publishes next. -/
def inHand (h : History) : Option OutboxRecord :=
  (h.flatMap batchOf)[h.countP isPublish]?

/-- The operations of a call after its history `h`. -/
inductive Allows (L : Lib) (c : Call) (h : History) : Op → Prop where
  | now : Allows L c h .now
  | newID (tag : GoString) : Allows L c h (.newID tag)
  | health : Allows L c h .health
  | tenantAllow {tn acct : GoString} (hfor : c.ActsFor tn) :
      Allows L c h (.tenantAllow (scopedKey tn acct))
  | dictAllow {tn key : GoString} (hfor : c.ActsFor tn) :
      Allows L c h (.dictAllow (scopedKey tn key))
  | resolve (tn key : GoString) (ty : DictKeyType) : Allows L c h (.resolve tn key ty)
  | score (req : CreateTransferRequest) (dict : DictEntry) : Allows L c h (.score req dict)
  | find {req : CreateTransferRequest} (hc : c = .createTransfer req) :
      Allows L c h (.store (findFor req))
  | insert {req : CreateTransferRequest} {at_ now : Time} {id : GoString} {dict : DictEntry}
      {decision : FraudDecision} {t : Transfer} {evs : List Event}
      (hc : c = .createTransfer req) (hvalid : (normalize req at_).validate = .ok ())
      (hstatus : decision.status = .accepted ∨ decision.status = .review ∨
        decision.status = .blocked)
      (hfirst : NoInsert h) (hid : Did h (.newID (go "pxt")) id)
      (hfind : Did h (.store (findFor req)) (.ok none))
      (ht : t = newTransfer id now (normalize req at_) (req.fingerprint L.digest) dict decision)
      (hevs : Created L (creationTypes decision.status) t evs) :
      Allows L c h (.store (.insertTransfer t evs [creationAudit t]))
  | getTransfer {tn : GoString} (id : GoString) (hfor : c.ActsFor tn) :
      Allows L c h (.store (.getTransfer tn id))
  | claim {h₀ : History} {i i' : Input} {tn id tok : GoString} {now : Time}
      (hc : c.Submits) (hfor : c.ActsFor tn)
      (hh : h = h₀ ++ [⟨.newID (go "spiclaim"), i, tok⟩, ⟨.now, i', now⟩]) :
      Allows L c h (.store (.claimSPISubmission tn id tok (now + spiClaimTTL)))
  | submit {tn id tok : GoString} {u : Time} {current : Transfer}
      (hclaim : Did h (.store (.claimSPISubmission tn id tok u)) (.ok (current, false))) :
      Allows L c h (.submit current)
  | record {tn id tok cor : GoString} {u : Time} {current : Transfer} {message : SPIMessage}
      {evs : List Event} (hfor : c.ActsFor tn)
      (hclaim : Did h (.store (.claimSPISubmission tn id tok u)) (.ok (current, false)))
      (hsubmit : Did h (.submit current) (.ok message))
      (hevs : Batch current submissionTypes evs) :
      Allows L c h (.store (.recordSPISubmission tn id tok message evs
        (submissionAudit current cor message)))
  | release {tn id tok : GoString} {u now : Time} {current : Transfer} (e : GoString)
      (hfor : c.ActsFor tn)
      (hclaim : Did h (.store (.claimSPISubmission tn id tok u)) (.ok (current, false)))
      (hnow : Did h .now now) :
      Allows L c h (.store (.releaseSPISubmission tn id tok e (now + second)))
  | review {req : ReviewDecisionRequest} {tn id cor reason : GoString} {at_ : Time}
      {current : Transfer} {status : TransferStatus} {evs : List Event}
      (hc : c = .recordReview req) (htn : tn = trimSpace req.tenantID)
      (hget : Did h (.store (.getTransfer tn id)) (.ok current))
      (hreview : current.status = .review) (hstatus : status = .accepted ∨ status = .blocked)
      (hevs : Batch current (reviewTypes status) evs) :
      Allows L c h (.store (.recordReviewDecision tn id status reason evs
        (reviewAudit current cor req.decision status at_)))
  | settle {cb : SettlementCallback} {tn id : GoString} {at_ : Time} {cor : GoString}
      {current : Transfer} {ty : EventType} {evs : List Event}
      (hc : c = .recordSettlement cb) (htn : tn = cb.tenantID) (hid : id = cb.transferID)
      (hne : cb.spiMessageID ≠ [])
      (hget : Did h (.store (.getTransfer tn id)) (.ok current))
      (hspi : current.spiMessageID = cb.spiMessageID)
      (hty : settlementEvent cb.status = some ty) (hevs : Batch current [ty] evs) :
      Allows L c h (.store (.updateSettlement tn id (received L cb at_ cor) evs
        (settlementAudit current (received L cb at_ cor))))
  | pending {limit : Int} (now : Time) (limit' : Int) (hc : c = .submitPendingSPI limit) :
      Allows L c h (.store (.pendingSPISubmissions now limit'))
  | outboxClaim {policy : RetryPolicy} {limit : Int} {now at_ : Time} {tok : GoString}
      (hc : c = .drain policy limit)
      (hfirst : ∀ n l t u r, ¬ Did h (.store (.claimPendingOutbox n l t u)) r)
      (htok : Did h (.newID (go "outbox")) tok) (hnow : Did h .now now)
      (hat : Did h .now at_) :
      Allows L c h (.store (.claimPendingOutbox now limit tok (at_ + policy.normalize.claimTTL)))
  | publish {record : OutboxRecord} (hhand : inHand h = some record) :
      Allows L c h (.publish record.event)
  | markPublished {h₀ : History} {i i' : Input} {now u at_ : Time} {limit : Int}
      {tok : GoString} {records : List OutboxRecord} {record : OutboxRecord}
      (hclaim : Did h (.store (.claimPendingOutbox now limit tok u)) records)
      (hhand : inHand h₀ = some record)
      (hh : h = h₀ ++ [⟨.publish record.event, i, .ok ()⟩, ⟨.now, i', at_⟩]) :
      Allows L c h (.store (.markOutboxPublished record.sequence tok at_))
  | markFailed {policy : RetryPolicy} {h₀ : History} {i i' : Input} {now u at_ : Time}
      {limit limit' : Int} {tok : GoString} {records : List OutboxRecord}
      {record : OutboxRecord} {e : Err} (hc : c = .drain policy limit')
      (hclaim : Did h (.store (.claimPendingOutbox now limit tok u)) records)
      (hhand : inHand h₀ = some record)
      (hh : h = h₀ ++ [⟨.publish record.event, i, .error e⟩, ⟨.now, i', at_⟩]) :
      Allows L c h (.store (.markOutboxFailed record.sequence tok e.text
        (at_ + backoff policy.normalize (record.attempts + 1))))

/-- Where a result of `CreateTransfer` comes from. -/
inductive CreateReturns (L : Lib) (req : CreateTransferRequest) (h : History) :
    Except Err Result → Prop where
  | replayed {t : Transfer} (hfind : Did h (.store (findFor req)) (.ok (some t))) :
      CreateReturns L req h (replayOf (req.fingerprint L.digest) t)
  | created {t : Transfer} {evs : List Event}
      (hinsert : Did h (.store (.insertTransfer t evs [creationAudit t])) (.ok ())) :
      CreateReturns L req h (.ok { transfer := t, events := evs })
  /-- The insert found a conflict, and the lookup after it found nothing. -/
  | lost {h₀ : History} {i i' : Input} {t : Transfer} {evs : List Event} {e : Err}
      (hh : h = h₀ ++ [⟨.store (.insertTransfer t evs [creationAudit t]), i, .error e⟩,
        ⟨.store (findFor req), i', .ok none⟩]) : CreateReturns L req h (.error e)
  | dict {tn key : GoString} {ty : DictKeyType} {e : Err}
      (hdict : Did h (.resolve tn key ty) (.error e)) : CreateReturns L req h (.error e)
  | fraud {req' : CreateTransferRequest} {dict : DictEntry} {e : Err}
      (hfraud : Did h (.score req' dict) (.error e)) : CreateReturns L req h (.error e)
  | failed {e : Err} (hne : ¬ e.is .conflict) : CreateReturns L req h (.error e)

/-- Where a result of `RecordSettlement` comes from: in each case
the last operation of the call. -/
inductive SettleReturns (L : Lib) (cb : SettlementCallback) (h : History) :
    Except Err Result → Prop where
  | replayed {at_ : Time} {cor : GoString} {evs : List Event} {aud : AuditRecord} {t : Transfer}
      (hupdate : Last h (.store (.updateSettlement cb.tenantID cb.transferID
        (received L cb at_ cor) evs aud)) (.ok (t, true))) :
      SettleReturns L cb h (.ok { transfer := t, idempotentReplay := true })
  | recorded {at_ : Time} {cor : GoString} {evs : List Event} {aud : AuditRecord} {t : Transfer}
      (hupdate : Last h (.store (.updateSettlement cb.tenantID cb.transferID
        (received L cb at_ cor) evs aud)) (.ok (t, false))) :
      SettleReturns L cb h (.ok { transfer := t, events := evs })
  | refused {at_ : Time} {cor : GoString} {evs : List Event} {aud : AuditRecord} {e : Err}
      (hupdate : Last h (.store (.updateSettlement cb.tenantID cb.transferID
        (received L cb at_ cor) evs aud)) (.error e)) : SettleReturns L cb h (.error e)
  | mismatch {current : Transfer}
      (hget : Last h (.store (.getTransfer cb.tenantID cb.transferID)) (.ok current))
      (hne : current.spiMessageID = [] ∨ current.spiMessageID ≠ cb.spiMessageID) :
      SettleReturns L cb h (.error (ErrKind.conflict.wrap (go "spi_message_id mismatch")))
  | unread {e : Err}
      (hget : Last h (.store (.getTransfer cb.tenantID cb.transferID)) (.error e)) :
      SettleReturns L cb h (.error e)
  | unsupported {current : Transfer}
      (hget : Last h (.store (.getTransfer cb.tenantID cb.transferID)) (.ok current))
      (hspi : current.spiMessageID = cb.spiMessageID)
      (hty : settlementEvent cb.status = none) :
      SettleReturns L cb h
        (.error (ErrKind.validation.wrap (go "unsupported settlement status")))
  | invalid (hempty : cb.tenantID = [] ∨ cb.transferID = [] ∨ cb.spiMessageID = []) :
      SettleReturns L cb h (.error (ErrKind.validation.wrap
        (go "tenant_id, transfer_id, and spi_message_id are required")))
  | unmarshalled {e : Err} (hm : ¬ L.Marshals) : SettleReturns L cb h (.error e)

/-- Where the outcome of a call comes from. -/
def Returns (L : Lib) : Call → History → Outcome → Prop
  | .createTransfer req, h, out => ∃ r, out = .result r ∧ CreateReturns L req h r
  | .getTransfer tn id, h, out =>
    ∃ r, out = .transfer r ∧ Did h (.store (.getTransfer tn id)) r
  | .recordSettlement cb, h, out => ∃ r, out = .result r ∧ SettleReturns L cb h r
  | _, _, _ => True

end PixRail.Switcher
