import PixRail.Idempotency.Ledger
import PixRail.Switcher.Grounds
import PixRail.Switcher.Sample

/-!
# Who let a transfer through

A transfer is sent to the SPI only if somebody let it through: the fraud
scorer, or a reviewer to whom the scorer had handed it.  `Explained` ties the
status of a stored transfer to the status it was inserted with and to the
review that was recorded for it.  Every write keeps it (`runs_explained`),
whatever the ports answer and however the calls are interleaved.
-/

namespace PixRail.Lifecycle

open Go Rail Events Store Interleave Switcher Idempotency

variable {E : Env} {tl dl : Option E.Lim} {tr : Trace (switch E)} {w : World (switch E)}
  {cid : Nat}

/-! ## The status of a stored transfer -/

/-- The statuses of a transfer that was let through. -/
def Through (status : TransferStatus) : Prop :=
  status = .accepted ∨ status = .approved ∨ status = .settled ∨ status = .rejected

instance (status : TransferStatus) : Decidable (Through status) :=
  inferInstanceAs (Decidable (_ ∨ _))

/-- A review of the transfer with that outcome was recorded. -/
def Reviewed (tr : Trace (switch E)) (t : Transfer) (status : TransferStatus) : Prop :=
  ∃ cid reason evs aud i t',
    actEv cid (.store (.recordReviewDecision t.tenantID t.id status reason evs aud)) i (.ok t') ∈ tr

/-- Why a transfer that was inserted as `t₀` has the status it has. -/
inductive Explained (tr : Trace (switch E)) (t₀ t : Transfer) : Prop where
  | blocked (h₀ : t₀.status = .blocked) (h : t.status = .blocked)
  | held (h₀ : t₀.status = .review) (h : t.status = .review)
  | passed (h₀ : t₀.status = .accepted) (h : Through t.status)
  | approved (h₀ : t₀.status = .review) (hr : Reviewed tr t .accepted) (h : Through t.status)
  | refused (h₀ : t₀.status = .review) (hr : Reviewed tr t .blocked) (h : t.status = .blocked)

theorem Reviewed.mono {tr' : Trace (switch E)} {t t' : Transfer} {status : TransferStatus}
    (h : Reviewed tr t status) (hsub : tr ⊆ tr') (hsame : SameOrder t t') :
    Reviewed tr' t' status := by
  obtain ⟨cid, reason, evs, aud, i, t₁, hmem⟩ := h
  rw [← hsame.tenantID, ← hsame.id] at hmem
  exact ⟨cid, reason, evs, aud, i, t₁, hsub hmem⟩

theorem Explained.mono {tr' : Trace (switch E)} {t₀ t : Transfer} (h : Explained tr t₀ t)
    (hsub : tr ⊆ tr') : Explained tr' t₀ t := by
  cases h with
  | blocked h₀ h => exact .blocked h₀ h
  | held h₀ h => exact .held h₀ h
  | passed h₀ h => exact .passed h₀ h
  | approved h₀ hr h => exact .approved h₀ (hr.mono hsub (.refl t)) h
  | refused h₀ hr h => exact .refused h₀ (hr.mono hsub (.refl t)) h

/-- A transfer that is let through stays so, and one that is not keeps its
status. -/
theorem Explained.keep {t₀ t t' : Transfer} (h : Explained tr t₀ t) (hsame : SameOrder t t')
    (hst : t'.status = t.status ∨ Through t.status ∧ Through t'.status) :
    Explained tr t₀ t' := by
  have hnot : ¬ Through .review ∧ ¬ Through .blocked := by decide
  have hstill : ∀ {st}, t.status = st → ¬ Through st → t'.status = st := by
    rintro st rfl hno
    exact hst.elim id fun hth => absurd hth.1 hno
  have hthrough : Through t.status → Through t'.status := by
    intro hth
    rcases hst with he | hth'
    · rwa [he]
    · exact hth'.2
  cases h with
  | blocked h₀ h => exact .blocked h₀ (hstill h hnot.2)
  | held h₀ h => exact .held h₀ (hstill h hnot.1)
  | passed h₀ h => exact .passed h₀ (hthrough h)
  | approved h₀ hr h => exact .approved h₀ (hr.mono (List.Subset.refl _) hsame) (hthrough h)
  | refused h₀ hr h => exact .refused h₀ (hr.mono (List.Subset.refl _) hsame) (hstill h hnot.2)

/-- A move of the transfer keeps the explanation. -/
theorem Explained.moves {i : Input} {call : StoreCall} {r : call.Ret} {s s' : MemoryStore}
    {t₀ t t' : Transfer} (h : Explained tr t₀ t) (hs : StoreStep E.digest s i call r s')
    (hm : Moves i call t t') :
    Explained (tr ++ [actEv cid (.store call) i r]) t₀ t' := by
  have hsub : tr ⊆ tr ++ [actEv cid (.store call) i r] := List.subset_append_left _ _
  have hsame := hm.sameOrder
  cases hm with
  | claim hcl =>
    obtain ⟨-, -, -, -, rfl⟩ := Transfer.claimSPISubmission_eq_ok.mp hcl
    exact (h.mono hsub).keep hsame (.inl rfl)
  | release happ hrel =>
    obtain ⟨-, -, rfl⟩ := (Transfer.releaseSPISubmission_eq_ok happ).mp hrel
    exact (h.mono hsub).keep hsame (.inl rfl)
  | record hrec =>
    obtain ⟨hst, -, -, -, -, rfl⟩ := Transfer.recordSPISubmission_eq_ok.mp hrec
    exact (h.mono hsub).keep hsame (.inr ⟨.inl hst, .inr (.inl rfl)⟩)
  | settle hset =>
    obtain ⟨-, -, hst, st, hst', rfl⟩ := Transfer.recordSettlement_eq_ok.mp hset
    refine (h.mono hsub).keep hsame (.inr ⟨.inr (.inl hst), ?_⟩)
    cases hcb : SettlementCallback.status _ with
    | accepted =>
      rw [hcb] at hst'
      cases hst'
      exact .inr (.inr (.inl rfl))
    | rejected =>
      rw [hcb] at hst'
      cases hst'
      exact .inr (.inr (.inr rfl))
    | other raw hraw =>
      rw [hcb] at hst'
      cases hst'
  | @review st reason evs aud _ _ hrev =>
    obtain ⟨hst, hst', ht'⟩ := Transfer.recordReviewDecision_eq_ok.mp hrev
    have hnot : ¬ Through .review := by decide
    have h₀ : t₀.status = .review := by
      cases h with
      | held h₀ h => exact h₀
      | blocked h₀ h | refused h₀ hr h => simp [hst] at h
      | passed h₀ h | approved h₀ hr h => exact absurd (hst ▸ h) hnot
    have hreviewed : Reviewed (tr ++ [actEv cid (.store (.recordReviewDecision t.tenantID t.id st
        reason evs aud)) i r]) t' st := by
      cases hs with
      | reviewed hfind hrev' =>
        rw [Reviewed, hsame.tenantID, hsame.id]
        exact ⟨cid, reason, evs, aud, i, _, List.mem_append_right _ List.mem_cons_self⟩
    have hnow : t'.status = st := by rw [ht']
    rcases hst' with rfl | rfl
    · exact .approved h₀ hreviewed (.inl hnow)
    · exact .refused h₀ hreviewed hnow

/-- The status of every stored transfer is explained by the insert it comes
from. -/
theorem runs_explained (h : Runs E tl dl tr w) {id : GoString} {t : Transfer}
    (hl : w.state.store.transfers.lookup id = some t) :
    ∃ cid t₀ evs auds i, actEv cid (.store (.insertTransfer t₀ evs auds)) i (.ok ()) ∈ tr ∧
      SameOrder t₀ t ∧ Explained tr t₀ t := by
  refine store_invariant (I := fun tr s => ∀ id t, s.transfers.lookup id = some t →
    ∃ cid t₀ evs auds i, actEv cid (.store (.insertTransfer t₀ evs auds)) i (.ok ()) ∈ tr ∧
      SameOrder t₀ t ∧ Explained tr t₀ t) ?_ ?_ ?_ h id t hl
  · intro id t hl
    simp [newMemoryStore] at hl
  · intro tr w e w' _ hi _ _ _ id t hl
    obtain ⟨cid, t₀, evs, auds, i, ha, hsame, hex⟩ := hi id t hl
    exact ⟨cid, t₀, evs, auds, i, List.mem_append_left _ ha, hsame,
      hex.mono (List.subset_append_left _ _)⟩
  · intro tr w cid c call i r s' hrun hi _ hallow hs id t hl
    rcases hs.lookup_inv (runs_keyed hrun) hl with hl | ⟨-, evs, auds, rfl⟩ | ⟨t₁, hl, hmv⟩
    · obtain ⟨cid, t₀, evs, auds, i, ha, hsame, hex⟩ := hi id t hl
      exact ⟨cid, t₀, evs, auds, i, List.mem_append_left _ ha, hsame,
        hex.mono (List.subset_append_left _ _)⟩
    · -- a new transfer has the status of its decision
      refine ⟨cid, t, evs, auds, i, ?_, .refl t, ?_⟩
      · cases hs with
        | inserted hnew hidem => exact List.mem_append_right _ List.mem_cons_self
      · cases hallow with
        | insert hc hvalid hstatus hfirst hid hfind ht hevs =>
          have hst : t.status = FraudDecision.status _ := congrArg Transfer.status ht
          rcases hstatus with hd | hd | hd
          · exact .passed (hst.trans hd) (.inl (hst.trans hd))
          · exact .held (hst.trans hd) (hst.trans hd)
          · exact .blocked (hst.trans hd) (hst.trans hd)
    · obtain ⟨cid', t₀, evs, auds, i', ha, hsame, hex⟩ := hi id t₁ hl
      exact ⟨cid', t₀, evs, auds, i', List.mem_append_left _ ha, hsame.trans hmv.sameOrder,
        hex.moves hs hmv⟩

/-! ## The calls behind the status -/

/-- The scorer gave that status to the request that the transfer carries
out. -/
def Scored (tr : Trace (switch E)) (t : Transfer) (status : TransferStatus) : Prop :=
  ∃ cid req at_ now dict decision, spawnEv cid (.createTransfer req) ∈ tr ∧
    Did (hist cid tr) (lookupOf req) (.ok dict) ∧
    Did (hist cid tr) (.score (normalize req at_) dict) (.ok decision) ∧
    SameOrder (newTransfer t.id now (normalize req at_) (req.fingerprint E.digest) dict decision)
      t ∧
    decision.status = status

/-- A reviewer was asked about the transfer and gave that decision. -/
def ReviewedAs (tr : Trace (switch E)) (t : Transfer) (decision : ReviewDecision) : Prop :=
  ∃ cid review, spawnEv cid (.recordReview review) ∈ tr ∧
    trimSpace review.tenantID = t.tenantID ∧ trimSpace review.transferID = t.id ∧
    review.decision = decision

/-- The scorer let the transfer through, or it asked for a review and a
reviewer did. -/
def LetThrough (tr : Trace (switch E)) (t : Transfer) : Prop :=
  Scored tr t .accepted ∨ Scored tr t .review ∧ ReviewedAs tr t .approve

/-- The request and the answers behind an insert. -/
theorem insert_scored (h : Runs E tl dl tr w) {t₀ t : Transfer} {evs : List Event}
    {auds : List AuditRecord} {i : Input} {r : Except Err Unit}
    (ha : actEv cid (.store (.insertTransfer t₀ evs auds)) i r ∈ tr) (hsame : SameOrder t₀ t) :
    Scored tr t t₀.status := by
  obtain ⟨c, t₁, t₂, i', rfl, hc, hrests⟩ := rests_of_did h ⟨i, mem_hist.mpr ha⟩
  cases hrests with
  | routine ho => exact absurd ho id
  | @insert req at_ now id dict decision _ _ _ hc' hdict hscore hnow ht =>
    subst hc'
    refine ⟨cid, req, at_, now, dict, decision, List.mem_append_left _ hc, ?_, ?_, ?_, ?_⟩
    · rw [hist_append]
      exact hdict.mono (List.prefix_append _ _)
    · rw [hist_append]
      exact hscore.mono (List.prefix_append _ _)
    · have hid : id = t.id := by rw [hsame.id, ht]; rfl
      rw [← hid, ← ht]
      exact hsame
    · rw [ht]
      rfl

/-- The call of the reviewer behind a recorded review. -/
theorem reviewed_by (h : Runs E tl dl tr w) {t : Transfer} {status : TransferStatus}
    (hr : Reviewed tr t status) :
    ∃ decision, ReviewedAs tr t decision ∧ reviewStatus decision = some status := by
  obtain ⟨cid, reason, evs, aud, i, t', hmem⟩ := hr
  obtain ⟨c, t₁, t₂, i', rfl, hc, hrests⟩ := rests_of_did h ⟨i, mem_hist.mpr hmem⟩
  cases hrests with
  | routine ho => exact absurd ho id
  | @review req _ _ _ _ _ _ hc' htn hid hstatus =>
    subst hc'
    exact ⟨req.decision, ⟨cid, req, List.mem_append_left _ hc, htn.symm, hid.symm, rfl⟩, hstatus⟩

/-- An approval is behind a review that accepts, a block behind one that
blocks. -/
theorem reviewed_approve (h : Runs E tl dl tr w) {t : Transfer} (hr : Reviewed tr t .accepted) :
    ReviewedAs tr t .approve := by
  obtain ⟨decision, has, hstatus⟩ := reviewed_by h hr
  cases decision with
  | approve => exact has
  | block | other => exact absurd hstatus (by simp [reviewStatus])

theorem reviewed_block (h : Runs E tl dl tr w) {t : Transfer} (hr : Reviewed tr t .blocked) :
    ReviewedAs tr t .block := by
  obtain ⟨decision, has, hstatus⟩ := reviewed_by h hr
  cases decision with
  | block => exact has
  | approve | other => exact absurd hstatus (by simp [reviewStatus])

theorem ReviewedAs.mono {tr' : Trace (switch E)} {t : Transfer} {decision : ReviewDecision}
    (h : ReviewedAs tr t decision) : ReviewedAs (tr ++ tr') t decision := by
  obtain ⟨cid, review, hc, hrest⟩ := h
  exact ⟨cid, review, List.mem_append_left _ hc, hrest⟩

theorem LetThrough.mono {tr' : Trace (switch E)} {t : Transfer} (h : LetThrough tr t) :
    LetThrough (tr ++ tr') t := by
  have hscored : ∀ {status}, Scored tr t status → Scored (tr ++ tr') t status := by
    rintro status ⟨cid, req, at_, now, dict, decision, hc, hdict, hscore, hrest⟩
    rw [Scored]
    refine ⟨cid, req, at_, now, dict, decision, List.mem_append_left _ hc, ?_, ?_, hrest⟩
    · rw [hist_append]
      exact hdict.mono (List.prefix_append _ _)
    · rw [hist_append]
      exact hscore.mono (List.prefix_append _ _)
  exact h.imp hscored fun ⟨h, hr⟩ => ⟨hscored h, hr.mono⟩

/-- A stored transfer that is let through was let through by somebody. -/
theorem runs_let_through (h : Runs E tl dl tr w) {id : GoString} {t : Transfer}
    (hl : w.state.store.transfers.lookup id = some t) (hth : Through t.status) :
    LetThrough tr t := by
  obtain ⟨cid, t₀, evs, auds, i, ha, hsame, hex⟩ := runs_explained h hl
  have hscored := insert_scored h ha hsame
  have hnot : ¬ Through .review ∧ ¬ Through .blocked := by decide
  cases hex with
  | blocked h₀ h' | refused h₀ hr h' => exact absurd (h' ▸ hth) hnot.2
  | held h₀ h' => exact absurd (h' ▸ hth) hnot.1
  | passed h₀ h' => exact .inl (h₀ ▸ hscored)
  | approved h₀ hr h' => exact .inr ⟨h₀ ▸ hscored, reviewed_approve h hr⟩

/-- The stored transfer that a submission was made for. -/
theorem submitted_stored {t₁ t₂ : Trace (switch E)} {t : Transfer} {i : Input}
    {r : Except Err SPIMessage} (h : Runs E tl dl (t₁ ++ actEv cid (.submit t) i r :: t₂) w) :
    ∃ t₀ t₃ w₁, t₁ = t₀ ++ t₃ ∧ Runs E tl dl t₀ w₁ ∧
      w₁.state.store.transfers.lookup t.id = some t ∧ t.status = .accepted := by
  obtain ⟨c, hc, hrests⟩ := (grounds E tl dl).allows_at h
  cases hrests with
  | routine ho => exact absurd ho id
  | submit hclaim =>
    obtain ⟨h₀, i', hh⟩ := hclaim
    obtain ⟨t₃, t₄, rfl, -, -⟩ := hist_split hh
    obtain ⟨w₁, -, h₁, -⟩ := h.at_entry
    obtain ⟨w₂, w₃, h₂, hstep, h₃, -⟩ := runs_at h₁
    refine ⟨t₃ ++ [_], t₄, w₃, by simp, h₃, ?_⟩
    rcases storeHandle_cases (step_store hstep) with ⟨-, hidle⟩ | hs
    · exact absurd rfl (hidle t)
    · generalize w₃.state.store = s₃ at hs
      cases hs with
      | claimed hctx hfind hclaim =>
        obtain ⟨-, -, hst, -, ht⟩ := Transfer.claimSPISubmission_eq_ok.mp hclaim
        exact ⟨by simp, by rw [ht]; exact hst⟩

/-- Everything that is sent to the SPI was let through before it was sent. -/
theorem submissions_let_through {t₁ t₂ : Trace (switch E)} {t : Transfer} {i : Input}
    {r : Except Err SPIMessage} (h : Runs E tl dl (t₁ ++ actEv cid (.submit t) i r :: t₂) w) :
    LetThrough t₁ t := by
  obtain ⟨t₀, t₃, w₁, rfl, h₁, hl, hst⟩ := submitted_stored h
  exact (runs_let_through h₁ hl (.inl hst)).mono

/-! ## A transfer that a reviewer lets through -/

/-- The scorer asks for a review, the reviewer approves and the transfer is
submitted. -/
def reviewedLabels (req : CreateTransferRequest) (dict : DictEntry) (fraud : FraudDecision) :
    List (Label (switch sampleEnv)) :=
  decideLabels 0 newYear req dict fraud ++
    buildLabels 0 newYear 1 4 ++ [.step 0 (tick newYear)] ++
    [.spawn 1 (.recordReview
      { tenantID := go "tenant-a", transferID := sampleID, decision := .approve,
        reason := go "known customer" }),
      .step 1 (tick newYear), .step 1 (tick newYear), .step 1 (draw newYear 6),
      .step 1 (draw newYear 7), .step 1 (tick newYear)] ++
    claimLabels 2 newYear 8 (go "tenant-a") sampleID ++
    [.step 2 { now := newYear, answer := .spi (.ok sampleMessage) }]

set_option maxRecDepth 20000 in
theorem reviewed_isSome :
    ((World.init (State.initial sampleEnv none none)).exec (reviewedLabels sampleRequest sampleDict
      { sampleFraud with status := .review })).isSome := by
  decide +kernel

/-- The trace and the world of the reviewed transfer. -/
def reviewed : Trace (switch sampleEnv) × World (switch sampleEnv) :=
  World.ran _ _ reviewed_isSome

/-- The transfer that an entry of a trace submits. -/
def submitted : Ev (switch E) → Option Transfer
  | .act _ ⟨.submit t, _, _⟩ => some t
  | _ => none

theorem submitted_eq_some {e : Ev (switch E)} {t : Transfer} (h : submitted e = some t) :
    ∃ cid i r, e = actEv cid (.submit t) i r := by
  cases e with
  | spawn cid c => cases h
  | act cid a =>
    obtain ⟨o, i, r⟩ := a
    cases o with
    | submit t' =>
      obtain rfl : t' = t := Option.some.inj h
      exact ⟨cid, i, r, rfl⟩
    | _ => cases h

/-- The transfer of `reviewed` was let through when it was sent. -/
theorem submissions_let_through_reviewed :
    ∃ t₁ t₂ cid t i r, reviewed.1 = t₁ ++ actEv cid (.submit t) i r :: t₂ ∧ t.id = sampleID ∧
      LetThrough t₁ t := by
  have hsent : (reviewed.1.findSome? submitted).map (·.id) = some sampleID := by decide +kernel
  obtain ⟨t, ht, hid⟩ := Option.map_eq_some_iff.mp hsent
  obtain ⟨e, he, hsub⟩ := List.exists_of_findSome?_eq_some ht
  obtain ⟨cid, i, r, rfl⟩ := submitted_eq_some hsub
  obtain ⟨t₁, t₂, htr⟩ := List.append_of_mem he
  have hrun : Runs sampleEnv none none reviewed.1 reviewed.2 := World.run_ran _ _ _
  rw [htr] at hrun
  exact ⟨t₁, t₂, cid, t, i, r, htr, hid, submissions_let_through hrun⟩

end PixRail.Lifecycle
