import PixRail.Switcher.Grounds
import PixRail.Switcher.Sample

/-!
# The audit log tells the state

Each write to a transfer appends an audit record, except for the claims and
the releases of the submission workers, which are not audited.  `replay`
reads the records of one transfer in their order and checks each against the
state it has reached: a decision comes first, a review only for a transfer
that waits for one, a submission only for an accepted transfer, a settlement
only for an approved one, and all name the same tenant and account.

In every reachable state the records of a transfer pass these checks and
replay to the status, the score, the SPI identifiers and the settlement code
that the transfer has (`audit_replays`).
-/

namespace PixRail.Lifecycle

open Go Rail Events Store Interleave Switcher

/-! ## Replay -/

/-- What the audit log says of a transfer.  Status and score are texts, as in
the log. -/
structure Summary where
  tenantID : GoString
  accountID : GoString
  status : GoString
  score : GoString
  spiMessageID : GoString := []
  endToEndID : GoString := []
  settlementCode : GoString := []
  createdAt : Time
  deriving DecidableEq

def summary (t : Transfer) : Summary where
  tenantID := t.tenantID
  accountID := t.accountID
  status := t.status.text
  score := itoa t.fraudScore
  spiMessageID := t.spiMessageID
  endToEndID := t.endToEndID
  settlementCode := t.settlementCode
  createdAt := t.createdAt

/-- The value of a metadata key, empty if there is none. -/
def metadataAt (a : AuditRecord) (key : String) : GoString := (a.metadata.lookup (go key)).getD []

/-- The status that a callback with that text leads to. -/
def outcomeText (status : GoString) : GoString :=
  if status = go "accepted" then go "settled" else go "rejected"

/-- The record is one of the transfer `s`, and comes when `s` has that
status. -/
def Follows (s : Summary) (a : AuditRecord) (status : String) : Prop :=
  a.tenantID = s.tenantID ∧ a.accountID = s.accountID ∧ s.status = go status

instance (s : Summary) (a : AuditRecord) (status : String) : Decidable (Follows s a status) :=
  inferInstanceAs (Decidable (_ ∧ _ ∧ _))

/-- One record, after the records that lead to `s`.  `none` if it does not
belong there. -/
def replayStep (s : Option Summary) (a : AuditRecord) : Option (Option Summary) :=
  match s with
  | none =>
    if a.action = go "pix_transfer_decided" then
      some (some { tenantID := a.tenantID, accountID := a.accountID,
                   status := metadataAt a "status", score := metadataAt a "score",
                   createdAt := a.createdAt })
    else none
  | some s =>
    if a.action = go "manual_review_recorded" ∧ Follows s a "review" then
      some (some { s with status := metadataAt a "status" })
    else if a.action = go "spi_submission_recorded" ∧ Follows s a "accepted" then
      some (some { s with
        status := go "approved", spiMessageID := metadataAt a "spi_message_id",
        endToEndID := metadataAt a "end_to_end_id" })
    else if a.action = go "spi_settlement_callback_recorded" ∧ Follows s a "approved" then
      some (some { s with
        status := outcomeText (metadataAt a "status"), settlementCode := metadataAt a "code" })
    else none

/-- The records of one transfer, from the start. -/
def replay (l : List AuditRecord) : Option (Option Summary) := l.foldlM replayStep none

/-- The audit records of a transfer, in their order. -/
def auditOf (s : MemoryStore) (id : GoString) : List AuditRecord :=
  s.audit.filter fun a => a.transferID = id

theorem replay_snoc (l : List AuditRecord) (a : AuditRecord) :
    replay (l ++ [a]) = (replay l).bind fun s => replayStep s a := by
  simp [replay, List.foldlM_append]

/-! ## The four records -/

section records

variable {t t' current : Transfer}

theorem replayStep_decided (hspi : t.spiMessageID = []) (hend : t.endToEndID = [])
    (hcode : t.settlementCode = []) :
    replayStep none (creationAudit t) = some (some (summary t)) := by
  have hscore : metadataAt (creationAudit t) "score" = itoa t.fraudScore := by
    have hne : (go "score" == go "status") = false := by decide
    simp [metadataAt, creationAudit, List.lookup_cons, hne]
  have haction : (creationAudit t).action = go "pix_transfer_decided" := rfl
  rw [replayStep, if_pos haction, hscore]
  simp only [summary, hspi, hend, hcode]
  rfl

/-- A record that was made from an earlier version of the transfer. -/
theorem follows_of_sameOrder {a : AuditRecord} {status : String} (hsame : SameOrder current t)
    (htenant : a.tenantID = current.tenantID) (haccount : a.accountID = current.accountID)
    (hst : t.status.text = go status) : Follows (summary t) a status :=
  ⟨htenant.trans hsame.tenantID.symm, haccount.trans hsame.accountID.symm, hst⟩

theorem replayStep_reviewed {cor reason : GoString} {decision : ReviewDecision}
    {status : TransferStatus} {at_ : Time} (hsame : SameOrder current t)
    (h : t.recordReviewDecision status reason at_ = .ok t') :
    replayStep (some (summary t)) (reviewAudit current cor decision status at_) =
      some (some (summary t')) := by
  obtain ⟨hst, -, rfl⟩ := Transfer.recordReviewDecision_eq_ok.mp h
  have hfollows : Follows (summary t) (reviewAudit current cor decision status at_) "review" :=
    follows_of_sameOrder hsame rfl rfl (by rw [hst]; rfl)
  have hstatus : metadataAt (reviewAudit current cor decision status at_) "status" =
      status.text := by
    have hne : (go "status" == go "decision") = false := by decide
    simp [metadataAt, reviewAudit, List.lookup_cons, hne]
  rw [replayStep, if_pos ⟨rfl, hfollows⟩, hstatus]
  rfl

theorem replayStep_submitted {cor tok : GoString} {message : SPIMessage}
    (hsame : SameOrder current t) (h : t.recordSPISubmission tok message = .ok t') :
    replayStep (some (summary t)) (submissionAudit current cor message) =
      some (some (summary t')) := by
  obtain ⟨hst, -, -, -, -, rfl⟩ := Transfer.recordSPISubmission_eq_ok.mp h
  have hfollows : Follows (summary t) (submissionAudit current cor message) "accepted" :=
    follows_of_sameOrder hsame rfl rfl (by rw [hst]; rfl)
  have hend : metadataAt (submissionAudit current cor message) "end_to_end_id" =
      message.endToEndID := by
    have hne : (go "end_to_end_id" == go "spi_message_id") = false := by decide
    simp [metadataAt, submissionAudit, List.lookup_cons, hne]
  have haction : (submissionAudit current cor message).action ≠ go "manual_review_recorded" := by
    show go "spi_submission_recorded" ≠ go "manual_review_recorded"
    decide
  rw [replayStep, if_neg fun hc => haction hc.1, if_pos ⟨rfl, hfollows⟩, hend]
  rfl

theorem replayStep_settled {callback : SettlementCallback} (hsame : SameOrder current t)
    (h : t.recordSettlement callback = .ok t') :
    replayStep (some (summary t)) (settlementAudit current callback) =
      some (some (summary t')) := by
  obtain ⟨-, -, hst, st, hsettles, rfl⟩ := Transfer.recordSettlement_eq_ok.mp h
  have hfollows : Follows (summary t) (settlementAudit current callback) "approved" :=
    follows_of_sameOrder hsame rfl rfl (by rw [hst]; rfl)
  have hcode : metadataAt (settlementAudit current callback) "code" = callback.code := by
    have hne : (go "code" == go "status") = false := by decide
    simp [metadataAt, settlementAudit, List.lookup_cons, hne]
  have hout : outcomeText (metadataAt (settlementAudit current callback) "status") = st.text := by
    show outcomeText callback.status.text = st.text
    cases hcb : callback.status with
    | accepted =>
      rw [hcb] at hsettles
      cases hsettles
      rfl
    | rejected =>
      rw [hcb] at hsettles
      cases hsettles
      decide
    | other raw hraw =>
      rw [hcb] at hsettles
      cases hsettles
  have haction : (settlementAudit current callback).action ≠ go "manual_review_recorded" ∧
      (settlementAudit current callback).action ≠ go "spi_submission_recorded" := by
    show go "spi_settlement_callback_recorded" ≠ go "manual_review_recorded" ∧
      go "spi_settlement_callback_recorded" ≠ go "spi_submission_recorded"
    decide
  rw [replayStep, if_neg fun hc => haction.1 hc.1, if_neg fun hc => haction.2 hc.1,
    if_pos ⟨rfl, hfollows⟩, hcode, hout]
  rfl

end records

/-! ## The log -/

/-- The records of every transfer replay to it, and there are no others. -/
def Replayed (s : MemoryStore) : Prop :=
  ∀ id, replay (auditOf s id) = some ((s.transfers.lookup id).map summary)

section log

variable {s s' : MemoryStore} {t : Transfer}

/-- A write with its record. -/
theorem Replayed.write (hi : Replayed s) (t' : Transfer) (a : AuditRecord)
    (htransfers : s'.transfers = s.transfers.insert t'.id t') (haudit : s'.audit = s.audit ++ [a])
    (hid : a.transferID = t'.id)
    (hstep : replayStep ((s.transfers.lookup t'.id).map summary) a = some (some (summary t'))) :
    Replayed s' := by
  intro id
  have hof : auditOf s' id = auditOf s id ++ if id = t'.id then [a] else [] := by
    rw [auditOf, haudit, List.filter_append, ← hid]
    congr 1
    by_cases he : id = a.transferID
    · simp [he]
    · simp [he, Ne.symm he]
  rw [hof, htransfers]
  by_cases he : id = t'.id
  · subst he
    rw [if_pos rfl, replay_snoc, hi, Finmap.lookup_insert]
    exact hstep
  · rw [if_neg he, List.append_nil, hi, Finmap.lookup_insert_of_ne _ he]

/-- A write with a record that was made from an earlier version of the
transfer. -/
theorem Replayed.seen (hi : Replayed s) (hk : s.Keyed) {t' current : Transfer} {tn id : GoString}
    {a : AuditRecord} (hfind : s.owned tn id = some t) (hsame : SameOrder current t)
    (hid : t'.id = t.id) (ha : a.transferID = current.id)
    (htransfers : s'.transfers = s.transfers.insert t'.id t') (haudit : s'.audit = s.audit ++ [a])
    (hstep : replayStep (some (summary t)) a = some (some (summary t'))) : Replayed s' := by
  refine hi.write t' a htransfers haudit (ha.trans (hsame.id.symm.trans hid.symm)) ?_
  rw [hid, owned_stored hk hfind]
  exact hstep

/-- A write that is not audited. -/
theorem Replayed.keep (hi : Replayed s) (t' : Transfer)
    (htransfers : s'.transfers = s.transfers.insert t'.id t') (haudit : s'.audit = s.audit)
    (hl : s.transfers.lookup t'.id = some t) (hsummary : summary t' = summary t) :
    Replayed s' := by
  intro id
  rw [auditOf, haudit, ← auditOf, hi, htransfers]
  by_cases he : id = t'.id
  · subst he
    rw [Finmap.lookup_insert, hl, Option.map_some, Option.map_some, hsummary]
  · rw [Finmap.lookup_insert_of_ne _ he]

end log

section runs

variable {E : Env} {tl dl : Option E.Lim} {tr : Trace (switch E)} {w : World (switch E)}
  {cid : Nat}

/-- The transfer that a call has seen is an earlier version of the stored
one. -/
theorem seen_sameOrder (h : Runs E tl dl tr w) {call : StoreCall} {r : call.Ret}
    {current t : Transfer} {tn id : GoString} (hd : Did (hist cid tr) (.store call) r)
    (hg : givenBy call r = some current) (hid : current.id = id)
    (hfind : w.state.store.owned tn id = some t) : SameOrder current t := by
  obtain ⟨t₁, hl, hsame⟩ := given_order h hd hg
  obtain ⟨hl', -⟩ := MemoryStore.owned_eq_some.mp hfind
  rw [hid] at hl
  rwa [Option.some.inj (hl'.symm.trans hl)]

theorem runs_replayed (h : Runs E tl dl tr w) : Replayed w.state.store := by
  refine store_invariant (I := fun _ s => Replayed s) ?_ (fun _ hi _ _ _ => hi) ?_ h
  · intro id
    rfl
  · intro tr w cid c call i r s' hrun hi _ hallow hs
    have hkeyed := runs_keyed hrun
    cases hs with
    | @inserted t evs auds hnew _ =>
      cases hallow with
      | insert _ _ _ _ _ _ ht _ =>
        refine hi.write t (creationAudit t) (by simp) (by simp) rfl ?_
        rw [hnew]
        exact replayStep_decided (by rw [ht]; rfl) (by rw [ht]; rfl) (by rw [ht]; rfl)
    | claimed _ hfind hclaim =>
      have hl := owned_stored hkeyed hfind
      obtain ⟨-, -, -, -, rfl⟩ := Transfer.claimSPISubmission_eq_ok.mp hclaim
      exact hi.keep _ rfl rfl hl rfl
    | released _ hfind happ hrelease =>
      have hl := owned_stored hkeyed hfind
      obtain ⟨-, -, rfl⟩ := (Transfer.releaseSPISubmission_eq_ok happ).mp hrelease
      exact hi.keep _ rfl rfl hl rfl
    | recorded _ hfind hrecord =>
      cases hallow with
      | record _ hclaim _ _ =>
        obtain ⟨_, -, hens⟩ := ens_of_did hrun hclaim
        have hsame := seen_sameOrder hrun hclaim rfl (hens _ rfl).1 hfind
        refine hi.seen hkeyed hfind hsame ?_ rfl (by simp) (MemoryStore.write_audit _ _ _ _)
          (replayStep_submitted hsame hrecord)
        obtain ⟨-, -, -, -, -, rfl⟩ := Transfer.recordSPISubmission_eq_ok.mp hrecord
        rfl
    | reviewed hfind hreview =>
      cases hallow with
      | review _ _ hget _ _ _ =>
        obtain ⟨_, -, hens⟩ := ens_of_did hrun hget
        have hsame := seen_sameOrder hrun hget rfl (hens _ rfl).1 hfind
        refine hi.seen hkeyed hfind hsame ?_ rfl (by simp) (MemoryStore.write_audit _ _ _ _)
          (replayStep_reviewed hsame hreview)
        obtain ⟨-, -, rfl⟩ := Transfer.recordReviewDecision_eq_ok.mp hreview
        rfl
    | settled hfind _ hsettle =>
      cases hallow with
      | settle _ _ _ _ hget _ _ _ =>
        obtain ⟨_, -, hens⟩ := ens_of_did hrun hget
        have hsame := seen_sameOrder hrun hget rfl (hens _ rfl).1 hfind
        refine hi.seen hkeyed hfind hsame ?_ rfl (by simp) (by simp)
          (replayStep_settled hsame hsettle)
        obtain ⟨-, -, -, _, -, rfl⟩ := Transfer.recordSettlement_eq_ok.mp hsettle
        rfl
    | outboxClaimed => exact hi
    | outboxPublished _ _ | outboxFailed _ _ => exact hi

/-- In every reachable state the audit records of an id are a legal history,
and their replay is the transfer of that id, or nothing if there is none. -/
theorem audit_replays (h : Runs E tl dl tr w) (id : GoString) :
    replay (auditOf w.state.store id) = some ((w.state.store.transfers.lookup id).map summary) :=
  runs_replayed h id

/-- The audit log of the sample payment has three records, which replay to a
settled transfer. -/
theorem audit_replays_payment :
    (auditOf payment.2.state.store sampleID).length = 3 ∧
      ∃ t, payment.2.state.store.transfers.lookup sampleID = some t ∧ t.status = .settled ∧
        replay (auditOf payment.2.state.store sampleID) = some (some (summary t)) := by
  have hst : (payment.2.state.store.transfers.lookup sampleID).map (·.status) =
      some .settled := by
    decide +kernel
  obtain ⟨t, ht, hst⟩ := Option.map_eq_some_iff.mp hst
  refine ⟨by decide +kernel, t, ht, hst, ?_⟩
  rw [audit_replays payment_runs, ht]
  rfl

end runs

end PixRail.Lifecycle
