import PixRail.Idempotency.Ledger
import PixRail.Switcher.Sample

/-!
# The fields of a transfer agree with its status

`Sound` is the joint invariant of the status, the claim, the SPI identifiers
and the settlement code of a transfer.  Every transition keeps it
(`Sound.moves`), although `ReleaseSPISubmission` does not look at the status
and `RecordSPISubmission` does not look at the lease: the claim token that
both ask for is only ever set in `accepted`.
-/

namespace PixRail.Lifecycle

open Go Rail Events Store Interleave Switcher Idempotency

/-! ## One transfer -/

/-- What holds of every stored transfer. -/
structure Sound (t : Transfer) : Prop where
  known : t.status = .accepted ∨ t.status = .review ∨ t.status = .blocked ∨
    t.status = .approved ∨ t.status = .settled ∨ t.status = .rejected
  unsent : t.status = .accepted ∨ t.status = .review ∨ t.status = .blocked →
    t.spiMessageID = [] ∧ t.endToEndID = [] ∧ t.settlementCode = []
  sent : t.status = .approved ∨ t.status = .settled ∨ t.status = .rejected →
    trimSpace t.spiMessageID ≠ [] ∧ trimSpace t.endToEndID ≠ [] ∧ t.spiClaimToken = [] ∧
      t.spiClaimedUntil = none
  unsettled : t.status = .approved → t.settlementCode = []
  claimed : t.spiClaimToken ≠ [] → t.status = .accepted ∧ t.spiClaimedUntil ≠ none ∧
    1 ≤ t.spiSubmissionAttempts
  attempts : 0 ≤ t.spiSubmissionAttempts
  unclaimed : t.status = .review ∨ t.status = .blocked → t.spiSubmissionAttempts = 0
  amount : 1 ≤ t.amountCents ∧ t.amountCents ≤ 2000000
  currency : t.currency = go "BRL"

/-- What `Validate` checks of a normalised request. -/
theorem validate_normalize {req : CreateTransferRequest} {at_ : Time}
    (h : (normalize req at_).validate = .ok ()) :
    1 ≤ req.amountCents ∧ req.amountCents ≤ 2000000 ∧
      (normalize req at_).currency = go "BRL" := by
  have hvalid := CreateTransferRequest.validate_eq_ok.mp h
  refine ⟨hvalid.positive, hvalid.bounded, hvalid.currency.resolve_left fun hnil => ?_⟩
  unfold Switcher.normalize at hnil
  dsimp only at hnil
  split at hnil
  · exact absurd hnil (by decide)
  · rename_i hne
    exact hne hnil

theorem newTransfer_sound {req : CreateTransferRequest} {at_ now : Time} {id hash : GoString}
    {dict : DictEntry} {decision : FraudDecision}
    (hvalid : (normalize req at_).validate = .ok ())
    (hstatus : decision.status = .accepted ∨ decision.status = .review ∨
      decision.status = .blocked) :
    Sound (newTransfer id now (normalize req at_) hash dict decision) := by
  obtain ⟨hpos, hmax, hcur⟩ := validate_normalize hvalid
  have hst : (newTransfer id now (normalize req at_) hash dict decision).status =
      decision.status := rfl
  constructor
  · rw [hst]
    rcases hstatus with h | h | h <;> simp [h]
  · exact fun _ => ⟨rfl, rfl, rfl⟩
  · rw [hst]
    rcases hstatus with h | h | h <;> simp [h]
  · exact fun _ => rfl
  · exact fun h => absurd rfl h
  · exact Int.le_refl 0
  · exact fun _ => rfl
  · exact ⟨hpos, hmax⟩
  · exact hcur

theorem settles_cases {status : SettlementStatus} {st : TransferStatus}
    (h : status.settles = some st) : st = .settled ∨ st = .rejected := by
  unfold SettlementStatus.settles at h
  split at h
  · exact .inl (Option.some.inj h).symm
  · exact .inr (Option.some.inj h).symm
  · exact absurd h (by simp)

/-- Every transition keeps a transfer sound. -/
theorem Sound.moves {i : Input} {c : StoreCall} {t t' : Transfer} (hs : Sound t)
    (hm : Moves i c t t') : Sound t' := by
  have hattempts := hs.attempts
  cases hm with
  | claim h =>
    obtain ⟨-, -, hst, -, rfl⟩ := Transfer.claimSPISubmission_eq_ok.mp h
    exact {
      known := hs.known
      unsent := hs.unsent
      sent := fun hsent => by simp [hst] at hsent
      unsettled := hs.unsettled
      claimed := fun _ => ⟨hst, by simp, by simpa using hattempts⟩
      attempts := by
        show 0 ≤ t.spiSubmissionAttempts + 1
        omega
      unclaimed := fun hun => by simp [hst] at hun
      amount := hs.amount
      currency := hs.currency }
  | record h =>
    obtain ⟨hst, -, -, hmsg, he2e, rfl⟩ := Transfer.recordSPISubmission_eq_ok.mp h
    exact {
      known := by simp
      unsent := fun hun => by simp at hun
      sent := fun _ => ⟨hmsg, he2e, rfl, rfl⟩
      unsettled := fun _ => (hs.unsent (.inl hst)).2.2
      claimed := fun htok => absurd rfl htok
      attempts := hattempts
      unclaimed := fun hun => by simp at hun
      amount := hs.amount
      currency := hs.currency }
  | release happ h =>
    obtain ⟨htok, -, rfl⟩ := (Transfer.releaseSPISubmission_eq_ok happ).mp h
    -- a token is held, so the transfer is in `accepted`
    have hst := (hs.claimed htok).1
    exact {
      known := hs.known
      unsent := hs.unsent
      sent := fun hsent => by simp [hst] at hsent
      unsettled := hs.unsettled
      claimed := fun htok => absurd rfl htok
      attempts := hattempts
      unclaimed := hs.unclaimed
      amount := hs.amount
      currency := hs.currency }
  | @review st _ _ _ _ _ h =>
    obtain ⟨hrev, hst, rfl⟩ := Transfer.recordReviewDecision_eq_ok.mp h
    have hun := hs.unsent (.inr (.inl hrev))
    have htok : t.spiClaimToken = [] := by
      by_contra hne
      have hacc := (hs.claimed hne).1
      rw [hrev] at hacc
      exact absurd hacc (by decide)
    exact {
      known := by rcases hst with rfl | rfl <;> simp
      unsent := fun _ => hun
      sent := fun hsent => by rcases hst with rfl | rfl <;> simp at hsent
      unsettled := fun _ => hun.2.2
      claimed := fun hne => absurd htok hne
      attempts := hattempts
      unclaimed := fun _ => hs.unclaimed (.inl hrev)
      amount := hs.amount
      currency := hs.currency }
  | settle h =>
    obtain ⟨-, -, happ, st, hst, rfl⟩ := Transfer.recordSettlement_eq_ok.mp h
    have hsent := hs.sent (.inl happ)
    have hst' := settles_cases hst
    exact {
      known := by rcases hst' with rfl | rfl <;> simp
      unsent := fun hun => by rcases hst' with rfl | rfl <;> simp at hun
      sent := fun _ => hsent
      unsettled := fun happ => by rcases hst' with rfl | rfl <;> simp at happ
      claimed := fun hne => absurd hsent.2.2.1 hne
      attempts := hattempts
      unclaimed := fun hun => by rcases hst' with rfl | rfl <;> simp at hun
      amount := hs.amount
      currency := hs.currency }

/-- A terminal transfer makes no transition. -/
theorem Sound.not_moves {i : Input} {c : StoreCall} {t t' : Transfer} (hs : Sound t)
    (hterm : t.status.Terminal) : ¬ Moves i c t t' := by
  have hacc : t.status ≠ .accepted := by
    intro h
    rw [h] at hterm
    exact absurd hterm (by decide)
  intro hm
  cases hm with
  | claim h => exact hacc (Transfer.claimSPISubmission_eq_ok.mp h).2.2.1
  | record h => exact hacc (Transfer.recordSPISubmission_eq_ok.mp h).1
  | release happ h =>
    obtain ⟨htok, -⟩ := (Transfer.releaseSPISubmission_eq_ok happ).mp h
    exact hacc (hs.claimed htok).1
  | review h =>
    rw [(Transfer.recordReviewDecision_eq_ok.mp h).1] at hterm
    exact absurd hterm (by decide)
  | settle h =>
    rw [(Transfer.recordSettlement_eq_ok.mp h).2.2.1] at hterm
    exact absurd hterm (by decide)

/-- What no step of the switch changes. -/
structure Frozen (t t' : Transfer) : Prop where
  order : SameOrder t t'
  spiMessageID : t.spiMessageID ≠ [] → t'.spiMessageID = t.spiMessageID
  endToEndID : t.endToEndID ≠ [] → t'.endToEndID = t.endToEndID
  settlementCode : t.settlementCode ≠ [] → t'.settlementCode = t.settlementCode
  terminal : t.status.Terminal → t' = t

theorem Frozen.refl (t : Transfer) : Frozen t t :=
  ⟨.refl t, fun _ => rfl, fun _ => rfl, fun _ => rfl, fun _ => rfl⟩

theorem Frozen.trans {t₁ t₂ t₃ : Transfer} (h₁ : Frozen t₁ t₂) (h₂ : Frozen t₂ t₃) :
    Frozen t₁ t₃ where
  order := h₁.order.trans h₂.order
  spiMessageID hne := by
    have he := h₁.spiMessageID hne
    rw [h₂.spiMessageID (by rwa [he]), he]
  endToEndID hne := by
    have he := h₁.endToEndID hne
    rw [h₂.endToEndID (by rwa [he]), he]
  settlementCode hne := by
    have he := h₁.settlementCode hne
    rw [h₂.settlementCode (by rwa [he]), he]
  terminal hterm := by
    have he := h₁.terminal hterm
    rw [h₂.terminal (by rwa [he]), he]

theorem Sound.frozen {i : Input} {c : StoreCall} {t t' : Transfer} (hs : Sound t)
    (hm : Moves i c t t') : Frozen t t' := by
  have horder := hm.sameOrder
  have hterm : t.status.Terminal → t' = t := fun h => absurd hm (hs.not_moves h)
  cases hm with
  | claim h =>
    obtain ⟨-, -, -, -, rfl⟩ := Transfer.claimSPISubmission_eq_ok.mp h
    exact ⟨horder, fun _ => rfl, fun _ => rfl, fun _ => rfl, hterm⟩
  | record h =>
    obtain ⟨hst, -, -, -, -, rfl⟩ := Transfer.recordSPISubmission_eq_ok.mp h
    obtain ⟨hspi, he2e, -⟩ := hs.unsent (.inl hst)
    exact ⟨horder, fun hne => absurd hspi hne, fun hne => absurd he2e hne, fun _ => rfl, hterm⟩
  | release happ h =>
    obtain ⟨-, -, rfl⟩ := (Transfer.releaseSPISubmission_eq_ok happ).mp h
    exact ⟨horder, fun _ => rfl, fun _ => rfl, fun _ => rfl, hterm⟩
  | review h =>
    obtain ⟨-, -, rfl⟩ := Transfer.recordReviewDecision_eq_ok.mp h
    exact ⟨horder, fun _ => rfl, fun _ => rfl, fun _ => rfl, hterm⟩
  | settle h =>
    obtain ⟨-, -, happ, st, -, rfl⟩ := Transfer.recordSettlement_eq_ok.mp h
    exact ⟨horder, fun _ => rfl, fun _ => rfl, fun hne => absurd (hs.unsettled happ) hne, hterm⟩

/-! ## The store -/

section runs

variable {E : Env} {tl dl : Option E.Lim} {tr : Trace (switch E)} {w : World (switch E)}

theorem runs_sound (h : Runs E tl dl tr w) {id : GoString} {t : Transfer}
    (hl : w.state.store.transfers.lookup id = some t) : Sound t := by
  refine store_invariant (I := fun _ s => ∀ id t, s.transfers.lookup id = some t → Sound t)
    ?_ (fun _ hi _ _ _ => hi) ?_ h id t hl
  · intro id t hl
    simp [newMemoryStore] at hl
  · intro tr w cid c call i r s' hrun hi _ hallow hs id t hl
    rcases hs.lookup_inv (runs_keyed hrun) hl with hl | ⟨-, evs, auds, rfl⟩ | ⟨t₁, hl, hm⟩
    · exact hi id t hl
    · cases hallow with
      | insert hc hvalid hstatus hfirst hid hfind ht hevs =>
        subst ht
        exact newTransfer_sound hvalid hstatus
    · exact (hi id t₁ hl).moves hm

/-- A step keeps every stored transfer, and freezes what it must. -/
theorem step_frozen (h : Runs E tl dl tr w) {e : Ev (switch E)} {w' : World (switch E)}
    (hstep : Step w e w') {id : GoString} {t : Transfer}
    (hl : w.state.store.transfers.lookup id = some t) :
    ∃ t', w'.state.store.transfers.lookup id = some t' ∧ Frozen t t' := by
  cases hstep with
  | spawn c hfree => exact ⟨t, hl, .refl t⟩
  | act hthread hhandle =>
    rw [World.put_state]
    rcases handle_store hhandle with ⟨-, he⟩ | ⟨call, r', -, hcall⟩
    · exact ⟨t, by rwa [he], .refl t⟩
    · rcases storeHandle_cases hcall with ⟨he, -⟩ | hs
      · exact ⟨t, by rwa [he], .refl t⟩
      · obtain ⟨t', hl', hmv⟩ := hs.lookup_mono (runs_keyed h) hl
        refine ⟨t', hl', ?_⟩
        rcases hmv with rfl | hmv
        · exact .refl t'
        · exact (runs_sound h hl).frozen hmv

/-- A run keeps every stored transfer, and freezes what it must. -/
theorem run_frozen (h : Runs E tl dl tr w) {tr' : Trace (switch E)} {w' : World (switch E)}
    (h' : Run w tr' w') {id : GoString} {t : Transfer}
    (hl : w.state.store.transfers.lookup id = some t) :
    ∃ t', w'.state.store.transfers.lookup id = some t' ∧ Frozen t t' := by
  induction h' with
  | nil => exact ⟨t, hl, .refl t⟩
  | snoc hrun hstep ih =>
    obtain ⟨t₁, hl₁, hf₁⟩ := ih
    obtain ⟨t₂, hl₂, hf₂⟩ := step_frozen (h.append hrun) hstep hl₁
    exact ⟨t₂, hl₂, hf₁.trans hf₂⟩

/-! ## Callbacks -/

/-- Only a recorded submission sets the SPI identifiers. -/
theorem Moves.spi_cases {i : Input} {c : StoreCall} {t t' : Transfer} (hm : Moves i c t t') :
    (∃ tok m evs aud, c = .recordSPISubmission t.tenantID t.id tok m evs aud ∧
      t'.spiMessageID = m.messageID ∧ t'.endToEndID = m.endToEndID) ∨
    (t'.spiMessageID = t.spiMessageID ∧ t'.endToEndID = t.endToEndID) := by
  cases hm with
  | record hrec =>
    obtain ⟨-, -, -, -, -, rfl⟩ := Transfer.recordSPISubmission_eq_ok.mp hrec
    exact .inl ⟨_, _, _, _, rfl, rfl, rfl⟩
  | claim hcl =>
    obtain ⟨-, -, -, -, rfl⟩ := Transfer.claimSPISubmission_eq_ok.mp hcl
    exact .inr ⟨rfl, rfl⟩
  | release happ hrel =>
    obtain ⟨-, -, rfl⟩ := (Transfer.releaseSPISubmission_eq_ok happ).mp hrel
    exact .inr ⟨rfl, rfl⟩
  | review hrev =>
    obtain ⟨-, -, rfl⟩ := Transfer.recordReviewDecision_eq_ok.mp hrev
    exact .inr ⟨rfl, rfl⟩
  | settle hset =>
    obtain ⟨-, -, -, st, -, rfl⟩ := Transfer.recordSettlement_eq_ok.mp hset
    exact .inr ⟨rfl, rfl⟩

/-- Call `cid` recorded the SPI identifiers of `t` under the token `tok`. -/
def RecordedBy (tr : Trace (switch E)) (t : Transfer) (cid : Nat) (tok : GoString)
    (m : SPIMessage) : Prop :=
  (∃ tn evs aud i t', actEv cid (.store (.recordSPISubmission tn t.id tok m evs aud)) i
    (.ok (t', false)) ∈ tr) ∧ m.messageID = t.spiMessageID ∧ m.endToEndID = t.endToEndID

/-- The SPI identifiers of a transfer were recorded. -/
theorem runs_recorded (h : Runs E tl dl tr w) {id : GoString} {t : Transfer}
    (hl : w.state.store.transfers.lookup id = some t)
    (hne : t.spiMessageID ≠ [] ∨ t.endToEndID ≠ []) : ∃ cid tok m, RecordedBy tr t cid tok m := by
  refine store_invariant (I := fun tr s => ∀ id t, s.transfers.lookup id = some t →
    t.spiMessageID ≠ [] ∨ t.endToEndID ≠ [] → ∃ cid tok m, RecordedBy tr t cid tok m)
    ?_ ?_ ?_ h id t hl hne
  · intro id t hl
    simp [newMemoryStore] at hl
  · intro tr w e w' _ hi _ _ _ id t hl hne
    obtain ⟨cid, tok, m, ⟨tn, evs, aud, i, t', ha⟩, hids⟩ := hi id t hl hne
    exact ⟨cid, tok, m, ⟨tn, evs, aud, i, t', List.mem_append_left _ ha⟩, hids⟩
  · intro tr w cid c call i r s' hrun hi _ hallow hs id t hl hne
    have hold : ∀ t₁, w.state.store.transfers.lookup id = some t₁ → t.id = t₁.id →
        t.spiMessageID = t₁.spiMessageID → t.endToEndID = t₁.endToEndID →
        ∃ cid' tok m, RecordedBy (tr ++ [.act cid ⟨.store call, i, r⟩]) t cid' tok m := by
      intro t₁ hl₁ hid hmsg he2e
      rw [hmsg, he2e] at hne
      obtain ⟨cid, tok, m, ⟨tn, evs, aud, i, t', ha⟩, hm₁, hm₂⟩ := hi id t₁ hl₁ hne
      rw [← hid] at ha
      exact ⟨cid, tok, m, ⟨tn, evs, aud, i, t', List.mem_append_left _ ha⟩, by rw [hm₁, hmsg],
        by rw [hm₂, he2e]⟩
    rcases hs.lookup_inv (runs_keyed hrun) hl with hl | ⟨-, evs, auds, rfl⟩ | ⟨t₁, hl₁, hm⟩
    · exact hold t hl rfl rfl rfl
    · cases hallow with
      | insert hc hvalid hstatus hfirst hid hfind ht hevs =>
        subst ht
        exact absurd hne (by simp [newTransfer])
    · rcases Moves.spi_cases hm with ⟨tok, m, evs, aud, rfl, hmsg, he2e⟩ | ⟨hmsg, he2e⟩
      · refine ⟨cid, tok, m, ⟨t₁.tenantID, evs, aud, i, ?_⟩, hmsg.symm, he2e.symm⟩
        rw [hm.sameOrder.id]
        cases hs with
        | recorded => exact ⟨_, List.mem_append_right _ List.mem_cons_self⟩
      · exact hold t₁ hl₁ hm.sameOrder.id hmsg he2e

/-- A call records what the SPI answered it, for the transfer it claimed. -/
theorem recorded_submit {t₁ t₂ : Trace (switch E)} {cid : Nat} {tn id tok : GoString}
    {m : SPIMessage} {evs : List Event} {aud : AuditRecord} {i : Input}
    {r : Except Err (Transfer × Bool)}
    (h : Runs E tl dl
      (t₁ ++ actEv cid (.store (.recordSPISubmission tn id tok m evs aud)) i r :: t₂) w) :
    ∃ j current u, actEv cid (.submit current) j (.ok m) ∈ t₁ ∧ current.id = id ∧
      current.spiClaimToken = tok ∧
      Did (hist cid t₁) (.store (.claimSPISubmission tn id tok u)) (.ok (current, false)) := by
  obtain ⟨w₁, -, hrun, -⟩ := runs_at h
  obtain ⟨c, -, hallow⟩ := (contract E tl dl).allows_at h
  cases hallow with
  | record hfor hclaim hsubmit hevs =>
    obtain ⟨_, -, hens⟩ := ens_of_did hrun hclaim
    obtain ⟨hid, -, htok, -⟩ := hens _ rfl
    obtain ⟨j, hj⟩ := hsubmit
    exact ⟨j, _, _, mem_hist.mp hj, hid, htok, hclaim⟩

/-- The SPI message id of a transfer comes from an answer of the SPI for it. -/
theorem runs_submitted (h : Runs E tl dl tr w) {id : GoString} {t : Transfer}
    (hl : w.state.store.transfers.lookup id = some t) (hne : t.spiMessageID ≠ []) :
    ∃ cid i t₀ m, actEv cid (.submit t₀) i (.ok m) ∈ tr ∧ t₀.id = id ∧
      m.messageID = t.spiMessageID := by
  obtain ⟨cid, tok, m, ⟨tn, evs, aud, i, t', ha⟩, hmsg, -⟩ := runs_recorded h hl (.inl hne)
  obtain ⟨t₁, t₂, rfl⟩ := List.append_of_mem ha
  obtain ⟨j, current, u, hs, hid, -, -⟩ := recorded_submit h
  exact ⟨cid, j, current, m, List.mem_append_left _ hs, by rw [hid, runs_keyed h _ _ hl], hmsg⟩

/-- A transfer that is settled or rejected. -/
def Done (t : Transfer) : Prop := t.status = .settled ∨ t.status = .rejected

instance (t : Transfer) : Decidable (Done t) :=
  inferInstanceAs (Decidable (t.status = .settled ∨ t.status = .rejected))

theorem Done.terminal {t : Transfer} (h : Done t) : t.status.Terminal :=
  .inr h

/-- The callbacks map has an entry for each transfer that is done, and every
entry is one of those. -/
structure CallbacksMatch (s : MemoryStore) : Prop where
  filed : ∀ id t, s.transfers.lookup id = some t → Done t →
    ∃ v, s.callbacks.lookup (scopedKey t.tenantID t.spiMessageID) = some v
  entry : ∀ key v, s.callbacks.lookup key = some v →
    ∃ t, s.transfers.lookup t.id = some t ∧ Done t ∧ key = scopedKey t.tenantID t.spiMessageID

theorem settles_done {cb : SettlementCallback} {t t' : Transfer}
    (h : t.recordSettlement cb = .ok t') :
    Done t' ∧ t'.tenantID = t.tenantID ∧ t'.spiMessageID = cb.spiMessageID ∧ t'.id = t.id := by
  obtain ⟨-, hspi, -, st, hst, rfl⟩ := Transfer.recordSettlement_eq_ok.mp h
  refine ⟨?_, rfl, hspi, rfl⟩
  unfold SettlementStatus.settles at hst
  split at hst
  · exact .inl (Option.some.inj hst).symm
  · exact .inr (Option.some.inj hst).symm
  · exact absurd hst (by simp)

/-- No other transition ends in a done transfer. -/
theorem Moves.not_done {i : Input} {c : StoreCall} {t t' : Transfer} (hm : Moves i c t t')
    (hc : ∀ tn id cb evs aud, c ≠ .updateSettlement tn id cb evs aud) (hs : Sound t) :
    ¬ Done t' := by
  intro hd
  have hnd : ¬ Done t := fun hd => hs.not_moves hd.terminal hm
  cases hm with
  | claim h =>
    obtain ⟨-, -, -, -, rfl⟩ := Transfer.claimSPISubmission_eq_ok.mp h
    exact hnd hd
  | record h =>
    obtain ⟨-, -, -, -, -, rfl⟩ := Transfer.recordSPISubmission_eq_ok.mp h
    simp [Done] at hd
  | release happ h =>
    obtain ⟨-, -, rfl⟩ := (Transfer.releaseSPISubmission_eq_ok happ).mp h
    exact hnd hd
  | review h =>
    obtain ⟨-, hst, rfl⟩ := Transfer.recordReviewDecision_eq_ok.mp h
    rcases hst with rfl | rfl <;> simp [Done] at hd
  | settle h => exact hc _ _ _ _ _ rfl

theorem runs_callbacks (h : Runs E tl dl tr w) : CallbacksMatch w.state.store := by
  refine store_invariant (I := fun _ s => CallbacksMatch s) ?_ (fun _ hi _ _ _ => hi) ?_ h
  · constructor
    · intro id t hl
      simp [newMemoryStore] at hl
    · intro key v hl
      simp [newMemoryStore] at hl
  · intro tr w cid c call i r s' hrun hi _ hallow hs
    have hk := runs_keyed hrun
    -- a done transfer is where it was
    have hstay : ∀ t, w.state.store.transfers.lookup t.id = some t → Done t →
        s'.transfers.lookup t.id = some t := by
      intro t hl hd
      obtain ⟨t', hl', hmv⟩ := hs.lookup_mono hk hl
      rcases hmv with rfl | hmv
      · exact hl'
      · exact absurd hmv ((runs_sound hrun hl).not_moves hd.terminal)
    rcases hs.callbacks_cases hk with ⟨he, hc⟩ | ⟨t, t', cb, evs, aud, rfl, hl, hset, htr, -, he⟩
    · refine ⟨fun id t hl hd => ?_, fun key v hv => ?_⟩
      · rw [he]
        rcases hs.lookup_inv hk hl with hl | ⟨-, evs, auds, rfl⟩ | ⟨t₁, hl₁, hm⟩
        · exact hi.filed id t hl hd
        · cases hallow with
          | insert _ _ hstatus _ _ _ ht _ =>
            subst ht
            rcases hd with hd | hd <;> rcases hstatus with hst | hst | hst <;>
              exact absurd (hst.symm.trans hd) (by decide)
        · exact absurd hd (Moves.not_done hm hc (runs_sound hrun hl₁))
      · rw [he] at hv
        obtain ⟨t, hl, hd, hkey⟩ := hi.entry key v hv
        exact ⟨t, hstay t hl hd, hd, hkey⟩
    · obtain ⟨hd', htn', hspi', hid'⟩ := settles_done hset
      refine ⟨fun id t₁ hl₁ hd => ?_, fun key v hv => ?_⟩
      · rw [htr] at hl₁
        rw [he]
        rcases lookup_insert_eq_some.mp hl₁ with ⟨-, rfl⟩ | ⟨-, hl₁⟩
        · exact ⟨_, by rw [htn', hspi', Finmap.lookup_insert]⟩
        · obtain ⟨v, hv⟩ := hi.filed id t₁ hl₁ hd
          by_cases hkey : scopedKey t₁.tenantID t₁.spiMessageID =
              scopedKey t.tenantID cb.spiMessageID
          · exact ⟨_, by rw [hkey, Finmap.lookup_insert]⟩
          · exact ⟨v, by rwa [Finmap.lookup_insert_of_ne _ hkey]⟩
      · rw [he] at hv
        rcases lookup_insert_eq_some.mp hv with ⟨rfl, -⟩ | ⟨-, hv⟩
        · refine ⟨t', ?_, hd', by rw [htn', hspi']⟩
          rw [hid', htr, Finmap.lookup_insert]
        · obtain ⟨t₁, hl₁, hd₁, hkey⟩ := hi.entry key v hv
          exact ⟨t₁, hstay t₁ hl₁ hd₁, hd₁, hkey⟩

/-- A transfer is done exactly when its callback is filed. -/
theorem done_iff_callback (hspi : SPIDistinct tr) (hcolon : ColonFree tr)
    (h : Runs E tl dl tr w) {id : GoString} {t : Transfer}
    (hl : w.state.store.transfers.lookup id = some t) :
    Done t ↔ ∃ v, w.state.store.callbacks.lookup (scopedKey t.tenantID t.spiMessageID) =
      some v := by
  obtain rfl := runs_keyed h _ _ hl
  have hm := runs_callbacks h
  refine ⟨hm.filed _ t hl, fun ⟨v, hv⟩ => ?_⟩
  obtain ⟨t₁, hl₁, hd₁, hkey⟩ := hm.entry _ v hv
  have hfree : ∀ t', w.state.store.transfers.lookup t'.id = some t' → 58 ∉ t'.tenantID := by
    intro t' hl'
    obtain ⟨cid, req, hc, htn, -, -⟩ := stored_request h hl'
    rw [htn]
    exact hcolon _ _ hc _ rfl
  obtain ⟨-, hmsg⟩ := scopedKey_inj (hfree t hl) (hfree t₁ hl₁) hkey
  have hne₁ : t₁.spiMessageID ≠ [] := by
    intro hnil
    have := ((runs_sound h hl₁).sent (.inr hd₁)).1
    rw [hnil] at this
    exact this rfl
  obtain ⟨_, _, t₂, m₂, ha₂, hid₂, hm₂⟩ := runs_submitted h hl (by rwa [hmsg])
  obtain ⟨_, _, t₃, m₃, ha₃, hid₃, hm₃⟩ := runs_submitted h hl₁ hne₁
  have hid : t₂.id = t₃.id :=
    hspi _ (mem_submissions ha₂) _ (mem_submissions ha₃) (by rw [hm₂, hm₃, hmsg])
  rw [hid₂, hid₃] at hid
  rw [hid, hl₁, Option.some.injEq] at hl
  rwa [← hl]

/-- In every reachable state every stored transfer is sound, it is settled or
rejected exactly when the callbacks map says so, and no step changes what is
frozen. -/
theorem transfers_sound (h : Runs E tl dl tr w) {id : GoString} {t : Transfer}
    (hl : w.state.store.transfers.lookup id = some t) :
    Sound t ∧
      (SPIDistinct tr → ColonFree tr →
        ((t.status = .settled ∨ t.status = .rejected) ↔
          ∃ v, w.state.store.callbacks.lookup (scopedKey t.tenantID t.spiMessageID) =
            some v)) ∧
      ∀ e w', Step w e w' →
        ∃ t', w'.state.store.transfers.lookup id = some t' ∧ Frozen t t' :=
  ⟨runs_sound h hl, fun hspi hcolon => done_iff_callback hspi hcolon h hl,
    fun _ _ hstep => step_frozen h hstep hl⟩

/-- The settled transfer of the sample payment, and its callback. -/
theorem transfers_sound_payment :
    ∃ t, payment.2.state.store.transfers.lookup sampleID = some t ∧ t.status = .settled ∧
      Sound t ∧ ∃ v, payment.2.state.store.callbacks.lookup
        (scopedKey t.tenantID t.spiMessageID) = some v := by
  have hst : (payment.2.state.store.transfers.lookup sampleID).map (·.status) =
      some .settled := by
    decide +kernel
  obtain ⟨t, ht, hst⟩ := Option.map_eq_some_iff.mp hst
  obtain ⟨hsound, hdone, -⟩ := transfers_sound payment_runs ht
  exact ⟨t, ht, hst, hsound, (hdone (by decide +kernel) (by decide +kernel)).mp (.inl hst)⟩

end runs

end PixRail.Lifecycle
