import PixRail.Settlement.Record

/-!
# One settlement for a transfer

Any number of `RecordSettlement` calls may name a transfer, and they may
interleave in any way.  A call that acts after the first record is told a
replay or a conflict and changes nothing; of the calls that meet an approved
transfer one is recorded.
-/

namespace PixRail.Settlement

open Go Rail Events Store Interleave Switcher Lifecycle

section runs

variable {E : Env} {tl dl : Option E.Lim} {tr t₁ t₂ : Trace (switch E)} {w : World (switch E)}
  {id : GoString}

/-! ## Calls after the first success -/

/-- The call starts or acts in that part of the trace. -/
def ActiveIn (cid : Nat) (t₂ : Trace (switch E)) : Prop :=
  (∃ c, spawnEv cid c ∈ t₂) ∨ hist cid t₂ ≠ []

theorem settledBy_of_mem (h : Runs E tl dl tr w) {cid : Nat} {cb : SettlementCallback}
    {t : Transfer} (hmem : (cid, cb, t) ∈ settled id tr) :
    SettledBy E.digest w.state.store id cb t := by
  rcases runs_settled h id with ⟨hnil, -⟩ | ⟨cid', cb', t', hset, hby⟩
  · rw [hnil] at hmem
    exact absurd hmem List.not_mem_nil
  · rw [hset, List.mem_singleton, Prod.mk.injEq, Prod.mk.injEq] at hmem
    obtain ⟨-, rfl, rfl⟩ := hmem
    exact hby

section later

variable {e : Ev (switch E)} {cid₀ cid : Nat}
  {cb₀ cb : SettlementCallback} {t : Transfer}

/-- The last operation of a call after the first success finds the settled
transfer. -/
theorem last_finds (h : Runs E tl dl (t₁ ++ e :: t₂) w)
    (he : settleOf id e = some (cid₀, cb₀, t)) (hlater : ActiveIn cid t₂) {o : Op} {r : o.Ret}
    (hlast : Last (hist cid (t₁ ++ e :: t₂)) o r) :
    ∃ t₃ t₄ i w₁ w₂, t₂ = t₃ ++ actEv cid o i r :: t₄ ∧ Runs E tl dl (t₁ ++ e :: t₃) w₁ ∧
      Step w₁ (actEv cid o i r) w₂ ∧ SettledBy E.digest w₁.state.store id cb₀ t := by
  rw [List.append_cons] at h hlast
  obtain ⟨t₃, t₄, i, rfl⟩ := h.last_after hlater hlast
  rw [← List.append_assoc] at h
  obtain ⟨w₁, w₂, h₁, hstep, -⟩ := h.at_entry
  rw [← List.append_cons] at h₁
  have hmem : (cid₀, cb₀, t) ∈ settled id (t₁ ++ e :: t₃) :=
    List.mem_filterMap.mpr ⟨e, List.mem_append_right _ List.mem_cons_self, he⟩
  exact ⟨t₃, t₄, i, w₁, w₂, rfl, h₁, hstep, settledBy_of_mem h₁ hmem⟩

/-- The two hashes of the comparison in the store. -/
theorem filed_eq_iff (hinj : Function.Injective E.digest.sum256) (hempty : HashEmpty tr)
    (h : Runs E tl dl tr w) (hmem : e ∈ tr) (he : settleOf id e = some (cid₀, cb₀, t))
    (hc : spawnEv cid (.recordSettlement cb) ∈ tr) (hn : Names cb t)
    (hspi : cb.spiMessageID = t.spiMessageID) (hsup : Supported cb.status) (at_ : Time)
    (cor : GoString) :
    MemoryStore.callbackHash E.digest cb₀ =
        MemoryStore.callbackHash E.digest (received E.toLib cb at_ cor) ↔
      cb.status = cb₀.status ∧ trimSpace cb.code = trimSpace cb₀.code := by
  have hby := settledBy_of_mem h (List.mem_filterMap.mpr ⟨e, hmem, he⟩)
  obtain ⟨tn, evs, aud, i, rfl⟩ := settleOf_eq_some he
  obtain ⟨t₁, t₂, rfl⟩ := List.append_of_mem hmem
  obtain ⟨cb₁, at₁, cor₁, current, hc₁, rfl, -, -, hsup₁, -, -, -⟩ := update_call h
  have hspi₁ : t.spiMessageID = cb₁.spiMessageID := hby.spi
  rw [callbackHash_received E.toLib (hempty.spawn hc),
    callbackHash_received E.toLib (hempty.spawn (List.mem_append_left _ hc₁)), eq_comm]
  refine fingerprint_eq_iff hinj ?_ ?_ (hspi.trans hspi₁) hsup hsup₁
  · exact hn.tenantID.trans hby.names.tenantID.symm
  · exact hn.transferID.trans hby.names.transferID.symm

theorem SettledBy.owned {s : MemoryStore} (hby : SettledBy E.digest s id cb₀ t) :
    s.owned t.tenantID id = some t :=
  MemoryStore.owned_eq_some.mpr ⟨hby.lookup, rfl⟩

/-- What the store answers a call after the first success. -/
theorem later_update (hinj : Function.Injective E.digest.sum256)
    (hempty : HashEmpty (t₁ ++ e :: t₂)) (h : Runs E tl dl (t₁ ++ e :: t₂) w)
    (he : settleOf id e = some (cid₀, cb₀, t))
    (hc : spawnEv cid (.recordSettlement cb) ∈ t₁ ++ e :: t₂) (hlater : ActiveIn cid t₂)
    (hn : Names cb t) (hspi : cb.spiMessageID = t.spiMessageID) (hsup : Supported cb.status)
    {at_ : Time} {cor : GoString} {evs : List Event} {aud : AuditRecord}
    {r : Except Err (Transfer × Bool)}
    (hlast : Last (hist cid (t₁ ++ e :: t₂)) (.store (.updateSettlement cb.tenantID cb.transferID
      (received E.toLib cb at_ cor) evs aud)) r) :
    r = if cb.status = cb₀.status ∧ trimSpace cb.code = trimSpace cb₀.code then .ok (t, true)
      else .error (ErrKind.conflict.wrap
        (go "conflicting settlement callback for terminal transfer")) := by
  obtain ⟨t₃, t₄, i, w₁, w₂, rfl, h₁, hstep, hby⟩ := last_finds h he hlater hlast
  have hid : t.id = id := runs_keyed h₁ _ _ hby.lookup
  have hfiled : w₁.state.store.callbacks.lookup
      (scopedKey t.tenantID (received E.toLib cb at_ cor).spiMessageID) =
        some (MemoryStore.callbackHash E.digest cb₀) := by
    show w₁.state.store.callbacks.lookup (scopedKey t.tenantID cb.spiMessageID) = _
    rw [hspi, hby.filed]
  have hans := step_store hstep
  rw [hn.tenantID, hn.transferID, hid] at hans
  have hr := update_filed hby.owned hfiled hans
  simp only [filed_eq_iff hinj hempty h (List.mem_append_right _ List.mem_cons_self) he hc hn
    hspi hsup] at hr
  exact hr

/-- A read after the first success finds the transfer. -/
theorem later_read (h : Runs E tl dl (t₁ ++ e :: t₂) w)
    (he : settleOf id e = some (cid₀, cb₀, t)) (hlater : ActiveIn cid t₂) (hn : Names cb t)
    {r : Except Err Transfer}
    (hlast : Last (hist cid (t₁ ++ e :: t₂))
      (.store (.getTransfer cb.tenantID cb.transferID)) r) : r = .ok t := by
  obtain ⟨t₃, t₄, i, w₁, w₂, rfl, h₁, hstep, hby⟩ := last_finds h he hlater hlast
  have hid : t.id = id := runs_keyed h₁ _ _ hby.lookup
  have hans : w₁.state.store.getTransfer cb.tenantID cb.transferID = r :=
    congrArg Prod.fst (Option.some.inj (step_store hstep))
  rw [← hans, hn.tenantID, hn.transferID, hid, MemoryStore.getTransfer, hby.owned]

/-- A call for the message of a settled transfer is a replay for the same
status and code, and a conflict for any other. -/
theorem later_verdict (hinj : Function.Injective E.digest.sum256) (hm : E.Marshals)
    (hempty : HashEmpty (t₁ ++ e :: t₂)) (h : Runs E tl dl (t₁ ++ e :: t₂) w)
    (he : settleOf id e = some (cid₀, cb₀, t)) {r : Except Err Result}
    (hret : Returned w cid (.recordSettlement cb) (.result r)) (hlater : ActiveIn cid t₂)
    (hn : Names cb t) (hspi : cb.spiMessageID = t.spiMessageID) (hsup : Supported cb.status) :
    if cb.status = cb₀.status ∧ trimSpace cb.code = trimSpace cb₀.code then
      r = .ok { transfer := t, idempotentReplay := true }
    else ∃ err, r = .error err ∧ err.is .conflict := by
  have hc := (h.thread hret).1
  have hby := settledBy_of_mem h (List.mem_filterMap.mpr
    ⟨e, List.mem_append_right _ List.mem_cons_self, he⟩)
  have hne : t.spiMessageID ≠ [] := fun hnil =>
    ((runs_sound h hby.lookup).sent (.inr hby.done)).1 (by rw [hnil]; rfl)
  obtain ⟨r', hr, hret⟩ := (contract E tl dl).returns_of_thread h hret
  obtain rfl := Outcome.result.inj hr
  cases hret with
  | replayed hlast =>
    have hans := later_update hinj hempty h he hc hlater hn hspi hsup hlast
    split at hans <;> rename_i hcond
    · obtain ⟨rfl, -⟩ := Prod.mk.inj (Except.ok.inj hans)
      rw [if_pos hcond]
    · exact absurd hans (by simp)
  | recorded hlast =>
    have hans := later_update hinj hempty h he hc hlater hn hspi hsup hlast
    split at hans
    · exact absurd hans (by simp)
    · exact absurd hans (by simp)
  | refused hlast =>
    have hans := later_update hinj hempty h he hc hlater hn hspi hsup hlast
    split at hans <;> rename_i hcond
    · exact absurd hans (by simp)
    · rw [if_neg hcond]
      exact ⟨_, rfl, by rw [Except.error.inj hans]; simp⟩
  | mismatch hlast hbad =>
    obtain rfl := Except.ok.inj (later_read h he hlater hn hlast)
    exact absurd hbad (by simp [hspi, hne])
  | unread hlast => exact absurd (later_read h he hlater hn hlast) (by simp)
  | unsupported hlast hspi' hty => exact absurd hty hsup.event_ne_none
  | invalid hnil =>
    obtain ⟨hidne, htnne⟩ := runs_named h hby.lookup
    rw [hn.tenantID, hn.transferID] at hnil
    exact absurd hnil (by simp [htnne, hidne, hspi, hne])
  | unmarshalled hno => exact absurd hm hno

end later

/-- A callback for a message that is not the one of the stored transfer is a
conflict. -/
theorem other_message (hm : E.Marshals) {w₁ : World (switch E)} (h₁ : Runs E tl dl t₁ w₁)
    (h₂ : Run w₁ t₂ w) {t₀ t : Transfer} (hl₁ : w₁.state.store.transfers.lookup id = some t₀)
    (hl : w.state.store.transfers.lookup id = some t) {cid : Nat} {cb : SettlementCallback}
    {r : Except Err Result} (hret : Returned w cid (.recordSettlement cb) (.result r))
    (hlater : ActiveIn cid t₂) (hn : Names cb t) (hne : cb.spiMessageID ≠ [])
    (hother : cb.spiMessageID ≠ t.spiMessageID) : ∃ err, r = .error err ∧ err.is .conflict := by
  have h := h₁.append h₂
  have hid : cb.transferID = id := hn.transferID.trans (runs_keyed h _ _ hl)
  -- the transfer is stored from `w₁` on
  have hstored : ∀ {t₃ w₃}, Run w₁ t₃ w₃ → ∃ t', w₃.state.store.transfers.lookup id = some t' ∧
      t'.tenantID = t₀.tenantID := by
    intro t₃ w₃ h₃
    refine runs_stable (P := fun s => ∃ t', s.transfers.lookup id = some t' ∧
      t'.tenantID = t₀.tenantID) ?_ h₁ h₃ ⟨t₀, hl₁, rfl⟩
    intro tr w i c s' r hr ⟨t', hl', htn'⟩ hs
    obtain ⟨t'', hl'', hsame⟩ := hs.lookup_sameOrder (runs_keyed hr) hl'
    exact ⟨t'', hl'', by rw [hsame.tenantID, htn']⟩
  have hsent : ¬ Sent w.state.store id cb.tenantID cb.spiMessageID := by
    rintro ⟨t', hl', -, hspi', -⟩
    rw [hl, Option.some.injEq] at hl'
    exact hother (by rw [hl', hspi'])
  have hupdate : ∀ {at_ cor evs aud r}, ¬ Last (hist cid (t₁ ++ t₂)) (.store
      (.updateSettlement cb.tenantID cb.transferID (received E.toLib cb at_ cor) evs aud)) r := by
    intro at_ cor evs aud r hlast
    have hs := update_sent h hlast.did
    rw [hid] at hs
    exact hsent hs
  obtain ⟨r', hr, hret⟩ := (contract E tl dl).returns_of_thread h hret
  obtain rfl := Outcome.result.inj hr
  cases hret with
  | replayed hlast => exact absurd hlast hupdate
  | recorded hlast => exact absurd hlast hupdate
  | refused hlast => exact absurd hlast hupdate
  | mismatch hlast hbad => exact ⟨_, rfl, by simp⟩
  | unread hlast =>
    exfalso
    obtain ⟨t₃, t₄, i, rfl⟩ := h.last_after hlater hlast
    obtain ⟨w₃, w₄, h₃, hstep, -⟩ := h₂.at_entry
    obtain ⟨t', hl', htn'⟩ := hstored h₃
    obtain ⟨t'', hl'', htn''⟩ := hstored h₂
    rw [hl, Option.some.injEq] at hl''
    have hans : w₃.state.store.getTransfer cb.tenantID cb.transferID = _ :=
      congrArg Prod.fst (Option.some.inj (step_store hstep))
    have hfind : w₃.state.store.owned cb.tenantID id = some t' :=
      MemoryStore.owned_eq_some.mpr ⟨hl', by rw [htn', ← htn'', ← hl'', hn.tenantID]⟩
    rw [hid, MemoryStore.getTransfer, hfind] at hans
    exact absurd hans (by simp)
  | unsupported hlast hspi hty =>
    rw [hid] at hlast
    have hs := read_sent h hlast.did (by rwa [hspi])
    rw [hspi] at hs
    exact absurd hs hsent
  | invalid hnil =>
    obtain ⟨hidne, htnne⟩ := runs_named h hl
    rw [hn.tenantID, hn.transferID] at hnil
    exact absurd hnil (by simp [htnne, hidne, hne])
  | unmarshalled hno => exact absurd hm hno

/-- An operation of a settlement call leaves the store as it is or settles the
transfer that the callback names. -/
theorem settlement_writes (h : Runs E tl dl tr w) {cid : Nat} {cb : SettlementCallback}
    (hc : spawnEv cid (.recordSettlement cb) ∈ tr) {a : Action sig Input} {w' : World (switch E)}
    (hstep : Step w (.act cid a) w') :
    w'.state.store = w.state.store ∨
      ∃ t t' at_ cor, cb.spiMessageID ≠ [] ∧
        w.state.store.owned cb.tenantID cb.transferID = some t ∧
        t.recordSettlement (received E.toLib cb at_ cor) = .ok t' ∧
        w'.state.store.transfers = w.state.store.transfers.insert t'.id t' := by
  obtain ⟨c, hc', hallow⟩ := (contract E tl dl).allows_of_step h hstep
  obtain rfl := h.spawn_unique hc hc'
  -- a settlement call neither claims for the SPI nor for the outbox
  have hclaim : ∀ {tn id tok u r},
      ¬ Did (hist cid tr) (.store (.claimSPISubmission tn id tok u)) r := by
    intro tn id tok u r hd
    obtain ⟨h₀, hallow⟩ := allows_of_did h hc hd
    cases hallow with
    | claim hc _ _ => exact hc
  have houtbox : ∀ {now limit tok u r},
      ¬ Did (hist cid tr) (.store (.claimPendingOutbox now limit tok u)) r := by
    intro now limit tok u r hd
    obtain ⟨h₀, hallow⟩ := allows_of_did h hc hd
    cases hallow with
    | outboxClaim hc _ _ _ _ => exact absurd hc (by simp)
  cases hstep with
  | @act _ _ o k i r s' hthread hhandle =>
    rw [World.put_state]
    rcases handle_store hhandle with ⟨-, he⟩ | ⟨call, r', ha, hcall⟩
    · exact .inl he
    · rw [ha] at hallow
      rcases storeHandle_cases hcall with ⟨he, -⟩ | hwr
      · exact .inl he
      · right
        generalize s'.store = st at hwr
        cases hwr with
        | settled hfind hnew hsettle =>
          cases hallow with
          | settle hc'' htn hid hne hget hspi hty hevs =>
            injection hc'' with hcb
            subst hcb htn hid
            exact ⟨_, _, _, _, hne, hfind, hsettle, by simp⟩
        | inserted => cases hallow with | insert hc'' => exact absurd hc'' (by simp)
        | claimed => cases hallow with | claim hc'' => exact False.elim hc''
        | recorded => cases hallow with | record _ hcl => exact absurd hcl hclaim
        | released => cases hallow with | release _ _ hcl => exact absurd hcl hclaim
        | reviewed => cases hallow with | review hc'' => exact absurd hc'' (by simp)
        | outboxClaimed => cases hallow with | outboxClaim hc'' => exact absurd hc'' (by simp)
        | outboxPublished => cases hallow with | markPublished hcl => exact absurd hcl houtbox
        | outboxFailed => cases hallow with | markFailed _ hcl => exact absurd hcl houtbox

/-- No operation of a settlement call changes the store once the transfer is
settled. -/
theorem settled_unchanged (h : Runs E tl dl tr w) (hset : settled id tr ≠ []) {cid : Nat}
    {cb : SettlementCallback} (hc : spawnEv cid (.recordSettlement cb) ∈ tr)
    (hid : cb.transferID = id) {a : Action sig Input} {w' : World (switch E)}
    (hstep : Step w (.act cid a) w') : w'.state.store = w.state.store := by
  rcases settlement_writes h hc hstep with he | ⟨t, t', at_, cor, -, hfind, hsettle, -⟩
  · exact he
  · have hl := (MemoryStore.owned_eq_some.mp hfind).1
    rw [hid] at hl
    rcases runs_settled h id with ⟨hnil, -⟩ | ⟨cid', cb', t', -, hby⟩
    · exact absurd hnil hset
    · rw [hby.lookup, Option.some.injEq] at hl
      subst hl
      have hd := hby.done
      rw [Done, (Transfer.recordSettlement_eq_ok.mp hsettle).2.2.1] at hd
      exact absurd hd (by decide)

/-! ## A race for an approved transfer -/

section race

variable {w₁ : World (switch E)} {cid : Nat} {cb : SettlementCallback} {t : Transfer}

/-- While nothing is recorded, the last operation of a call finds the
transfer approved. -/
theorem race_finds (hnil : settled id (t₁ ++ t₂) = []) (h₁ : Runs E tl dl t₁ w₁)
    (h₂ : Run w₁ t₂ w) (hl : w₁.state.store.transfers.lookup id = some t)
    (hst : t.status = .approved) (hlater : ActiveIn cid t₂) {o : Op} {r : o.Ret}
    (hlast : Last (hist cid (t₁ ++ t₂)) o r) :
    ∃ t₃ t₄ i w₃ w₄ t', t₂ = t₃ ++ actEv cid o i r :: t₄ ∧ Runs E tl dl (t₁ ++ t₃) w₃ ∧
      Step w₃ (actEv cid o i r) w₄ ∧ w₃.state.store.owned t.tenantID id = some t' ∧
      t'.spiMessageID = t.spiMessageID ∧ t'.status = .approved := by
  obtain ⟨t₃, t₄, i, rfl⟩ := (h₁.append h₂).last_after hlater hlast
  obtain ⟨w₃, w₄, h₃, hstep, -⟩ := h₂.at_entry
  have hrun := h₁.append h₃
  obtain ⟨t', hl', htn', hspi', hst'⟩ := run_sent h₁ h₃ ⟨t, hl, rfl, rfl, .inl hst⟩
  have hnd : ¬ Done t' := by
    rcases runs_settled hrun id with ⟨-, hnd⟩ | ⟨cid', cb', t'', hset, -⟩
    · exact hnd t' hl'
    · rw [settled, ← List.append_assoc, List.filterMap_append, List.append_eq_nil_iff] at hnil
      exact absurd (hset.symm.trans hnil.1) (by simp)
  exact ⟨t₃, t₄, i, w₃, w₄, t', rfl, hrun, hstep,
    MemoryStore.owned_eq_some.mpr ⟨hl', htn'⟩, hspi', hst'.resolve_right hnd⟩

/-- An update that finds the transfer approved records its callback. -/
theorem race_update (hnil : settled id (t₁ ++ t₂) = []) (hspi : SPIDistinct (t₁ ++ t₂))
    (hcolon : ColonFree (t₁ ++ t₂)) (h₁ : Runs E tl dl t₁ w₁) (h₂ : Run w₁ t₂ w)
    (hl : w₁.state.store.transfers.lookup id = some t) (hst : t.status = .approved)
    (hlater : ActiveIn cid t₂) (hcb : cb.spiMessageID = t.spiMessageID)
    (hsup : Supported cb.status) {evs : List Event} {aud : AuditRecord}
    {r : Except Err (Transfer × Bool)} :
    ¬ Last (hist cid (t₁ ++ t₂)) (.store (.updateSettlement t.tenantID id cb evs aud)) r := by
  intro hlast
  obtain ⟨t₃, t₄, i, w₃, w₄, t', rfl, hrun, hstep, hfind, hspi', hst'⟩ :=
    race_finds hnil h₁ h₂ hl hst hlater hlast
  obtain ⟨hl', htn'⟩ := MemoryStore.owned_eq_some.mp hfind
  have hsub : t₁ ++ t₃ ⊆ t₁ ++ (t₃ ++ actEv cid
      (.store (.updateSettlement t.tenantID id cb evs aud)) i r :: t₄) := by
    rw [← List.append_assoc]
    exact List.subset_append_left _ _
  have hfiled : w₃.state.store.callbacks.lookup (scopedKey t.tenantID cb.spiMessageID) = none := by
    by_contra hsome
    obtain ⟨v, hv⟩ := Option.ne_none_iff_exists'.mp hsome
    have hdone := done_iff_callback (hspi.mono hsub) (hcolon.mono hsub) hrun hl'
    rw [htn', hspi', ← hcb] at hdone
    have hd := hdone.mpr ⟨v, hv⟩
    rw [Done, hst'] at hd
    exact absurd hd (by decide)
  have hne : t'.spiMessageID ≠ [] := fun hnil =>
    ((runs_sound hrun hl').sent (.inl hst')).1 (by rw [hnil]; rfl)
  obtain ⟨t'', rfl⟩ : ∃ t'', r = .ok (t'', false) := by
    have hr := congrArg Prod.fst (Option.some.inj (step_store hstep))
    rw [← show _ = r from hr]
    exact (update_unfiled hfind hfiled hst' (hspi'.trans hcb.symm) hne).resolve_right
      fun hbad => hbad.1 hsup
  have hmem : (cid, cb, t'') ∈ settled id (t₁ ++ (t₃ ++ actEv cid
      (.store (.updateSettlement t.tenantID id cb evs aud)) i (.ok (t'', false)) :: t₄)) :=
    List.mem_filterMap.mpr ⟨_, List.mem_append_right _ (List.mem_append_right _
      List.mem_cons_self), if_pos rfl⟩
  rw [hnil] at hmem
  exact absurd hmem List.not_mem_nil

/-- When a call for an approved transfer returns, with the message id of the
transfer and a supported status, a callback is recorded. -/
theorem race_settled (hm : E.Marshals) (hspi : SPIDistinct (t₁ ++ t₂))
    (hcolon : ColonFree (t₁ ++ t₂)) (h₁ : Runs E tl dl t₁ w₁) (h₂ : Run w₁ t₂ w)
    (hl : w₁.state.store.transfers.lookup id = some t) (hst : t.status = .approved)
    {r : Except Err Result} (hret : Returned w cid (.recordSettlement cb) (.result r))
    (hlater : ActiveIn cid t₂) (hn : Names cb t) (hcb : cb.spiMessageID = t.spiMessageID)
    (hsup : Supported cb.status) : settled id (t₁ ++ t₂) ≠ [] := by
  intro hnil
  have h := h₁.append h₂
  have hid : cb.transferID = id := hn.transferID.trans (runs_keyed h₁ _ _ hl)
  have hne : t.spiMessageID ≠ [] := fun hnil =>
    ((runs_sound h₁ hl).sent (.inl hst)).1 (by rw [hnil]; rfl)
  have hupdate : ∀ {at_ cor evs aud r}, ¬ Last (hist cid (t₁ ++ t₂)) (.store
      (.updateSettlement cb.tenantID cb.transferID (received E.toLib cb at_ cor) evs aud)) r := by
    intro at_ cor evs aud r
    have hcb' : (received E.toLib cb at_ cor).spiMessageID = t.spiMessageID := hcb
    have hsup' : Supported (received E.toLib cb at_ cor).status := hsup
    rw [hn.tenantID, hid]
    exact race_update hnil hspi hcolon h₁ h₂ hl hst hlater hcb' hsup'
  have hread : ∀ {r}, Last (hist cid (t₁ ++ t₂))
      (.store (.getTransfer cb.tenantID cb.transferID)) r →
      ∃ t', r = .ok t' ∧ t'.spiMessageID = t.spiMessageID := by
    intro r hlast
    rw [hn.tenantID, hid] at hlast
    obtain ⟨_, _, i, w₃, w₄, t', -, -, hstep, hfind, hspi', -⟩ :=
      race_finds hnil h₁ h₂ hl hst hlater hlast
    have hans : w₃.state.store.getTransfer t.tenantID id = r :=
      congrArg Prod.fst (Option.some.inj (step_store hstep))
    rw [MemoryStore.getTransfer, hfind] at hans
    exact ⟨t', hans.symm, hspi'⟩
  obtain ⟨r', hr, hret⟩ := (contract E tl dl).returns_of_thread h hret
  obtain rfl := Outcome.result.inj hr
  cases hret with
  | replayed hlast => exact hupdate hlast
  | recorded hlast => exact hupdate hlast
  | refused hlast => exact hupdate hlast
  | mismatch hlast hbad =>
    obtain ⟨t', ht', hspi'⟩ := hread hlast
    obtain rfl := Except.ok.inj ht'
    exact absurd hbad (by simp [hspi', hcb, hne])
  | unread hlast =>
    obtain ⟨t', ht', -⟩ := hread hlast
    exact absurd ht' (by simp)
  | unsupported hlast hspi' hty => exact hsup.event_ne_none hty
  | invalid hbad =>
    obtain ⟨hidne, htnne⟩ := runs_named h₁ hl
    rw [hn.tenantID, hn.transferID] at hbad
    exact absurd hbad (by simp [htnne, hidne, hcb, hne])
  | unmarshalled hno => exact hno hm

end race

/-! ## The settlement event -/

/-- The event types of a settlement. -/
def settlementTypes : List EventType := [.pixTransferSettled, .pixTransferRejected]

/-- The settlement events of a transfer in the outbox. -/
def settlementEvents (s : MemoryStore) (id : GoString) : List Event :=
  (s.events.map (·.event)).filter fun e =>
    e.transferID = id ∧ e.eventType ∈ settlementTypes.map EventType.name

theorem path_settlements {st : Option TransferStatus} {p : List EventType} (h : Path st p) :
    p.countP (· ∈ settlementTypes) =
      if st = some .settled ∨ st = some .rejected then 1 else 0 := by
  induction h with
  | start => rfl
  | step hp he ih =>
    rw [List.countP_append, ih]
    cases he <;> rfl

theorem settlementEvents_length {s : MemoryStore} (hl : Logged s) {t : Transfer}
    (ht : s.transfers.lookup id = some t) :
    (settlementEvents s id).length = if Done t then 1 else 0 := by
  obtain ⟨p, hp, htypes⟩ := hl.path id t ht
  have hcount : (settlementEvents s id).length =
      (typesOf s id).countP (· ∈ settlementTypes.map EventType.name) := by
    rw [typesOf, List.countP_map, List.countP_filter, List.countP_eq_length_filter]
    simp only [settlementEvents, Function.comp_def, Bool.decide_and, Bool.and_comm]
  rw [hcount, htypes, List.countP_map]
  simp only [Function.comp_def, List.mem_map_of_injective EventType.name_injective]
  have hiff : (some t.status = some .settled ∨ some t.status = some .rejected) ↔ Done t := by
    simp [Done]
  rw [path_settlements hp]
  by_cases hd : Done t
  · rw [if_pos hd, if_pos (hiff.mpr hd)]
  · rw [if_neg hd, if_neg fun h => hd (hiff.mp h)]

/-! ## The settlement of a transfer -/

/-- The callbacks for transfer `id` in a run. -/
structure SettledOnce (E : Env) (tl dl : Option E.Lim) (tr : Trace (switch E))
    (w : World (switch E)) (id : GoString) : Prop where
  /-- The recorded callback fixes the status and the code. -/
  fixed : ∀ {cid cb t}, (cid, cb, t) ∈ settled id tr →
    w.state.store.transfers.lookup id = some t ∧ cb.status.settles = some t.status ∧
      t.settlementCode = cb.code
  /-- A call that starts or acts after the record, for the same message: a
  replay for the same status and code, a conflict for any other. -/
  verdict : ∀ {t₁ t₂ e cid₀ cb₀ t}, tr = t₁ ++ e :: t₂ → settleOf id e = some (cid₀, cb₀, t) →
    ∀ {cid cb r}, Returned w cid (.recordSettlement cb) (.result r) → ActiveIn cid t₂ →
      Names cb t → cb.spiMessageID = t.spiMessageID → Supported cb.status →
      if cb.status = cb₀.status ∧ trimSpace cb.code = trimSpace cb₀.code then
        r = .ok { transfer := t, idempotentReplay := true }
      else ∃ err, r = .error err ∧ err.is .conflict
  /-- A call for another message is refused, from the insert of the transfer
  on. -/
  other : ∀ {t₁ t₂ w₁ t₀ t}, tr = t₁ ++ t₂ → Runs E tl dl t₁ w₁ → Run w₁ t₂ w →
    w₁.state.store.transfers.lookup id = some t₀ → w.state.store.transfers.lookup id = some t →
    ∀ {cid cb r}, Returned w cid (.recordSettlement cb) (.result r) → ActiveIn cid t₂ →
      Names cb t → cb.spiMessageID ≠ [] → cb.spiMessageID ≠ t.spiMessageID →
      ∃ err, r = .error err ∧ err.is .conflict
  /-- No operation of a settlement call changes the store after the record. -/
  unchanged : settled id tr ≠ [] → ∀ {cid cb a w'}, spawnEv cid (.recordSettlement cb) ∈ tr →
    cb.transferID = id → Step w (.act cid a) w' → w'.state.store = w.state.store
  /-- Of the calls that meet an approved transfer exactly one is recorded,
  once one of them has returned. -/
  race : ∀ {t₁ t₂ w₁ t}, tr = t₁ ++ t₂ → Runs E tl dl t₁ w₁ → Run w₁ t₂ w →
    w₁.state.store.transfers.lookup id = some t → t.status = .approved →
    ∀ {cid cb r}, Returned w cid (.recordSettlement cb) (.result r) → ActiveIn cid t₂ →
      Names cb t → cb.spiMessageID = t.spiMessageID → Supported cb.status →
      (settled id tr).length = 1
  /-- There are as many settlement events as recorded callbacks, which is one
  at most. -/
  events : ∀ {t}, w.state.store.transfers.lookup id = some t →
    (settlementEvents w.state.store id).length = (settled id tr).length ∧
      (settled id tr).length ≤ 1

/-- In every run, in whatever order the callbacks for a transfer arrive and
however their calls interleave, one of them settles it. -/
theorem settlement_once (hinj : Function.Injective E.digest.sum256) (hm : E.Marshals)
    (hempty : HashEmpty tr) (hspi : SPIDistinct tr) (hcolon : ColonFree tr)
    (h : Runs E tl dl tr w) (id : GoString) : SettledOnce E tl dl tr w id := by
  have hlength : (settled id tr).length ≤ 1 := by
    rcases runs_settled h id with ⟨hnil, -⟩ | ⟨cid, cb, t, hset, -⟩
    · rw [hnil]
      exact Nat.zero_le 1
    · rw [hset]
      exact Nat.le_refl 1
  constructor
  · -- fixed
    intro cid cb t hmem
    have hby := settledBy_of_mem h hmem
    exact ⟨hby.lookup, hby.status, hby.code⟩
  · -- verdict
    intro t₁ t₂ e cid₀ cb₀ t htr he cid cb r hret hlater hn hcb hsup
    subst htr
    exact later_verdict hinj hm hempty h he hret hlater hn hcb hsup
  · -- other
    intro t₁ t₂ w₁ t₀ t _ h₁ h₂ hl₁ hl cid cb r hret hlater hn hne hother
    exact other_message hm h₁ h₂ hl₁ hl hret hlater hn hne hother
  · -- unchanged
    intro hset cid cb a w' hc hid hstep
    exact settled_unchanged h hset hc hid hstep
  · -- race
    intro t₁ t₂ w₁ t htr h₁ h₂ hl hst cid cb r hret hlater hn hcb hsup
    subst htr
    have hne := race_settled hm hspi hcolon h₁ h₂ hl hst hret hlater hn hcb hsup
    have := List.length_pos_iff.mpr hne
    omega
  · -- events
    intro t hl
    refine ⟨?_, hlength⟩
    rw [settlementEvents_length (runs_logged hm h) hl]
    rcases runs_settled h id with ⟨hnil, hnd⟩ | ⟨cid, cb, t', hset, hby⟩
    · rw [hnil, if_neg (hnd t hl)]
      rfl
    · obtain rfl : t' = t := Option.some.inj (hby.lookup.symm.trans hl)
      rw [hset, if_pos hby.done]
      rfl

end runs

/-! ## Racing callbacks -/

/-- A callback that contradicts the sample callback. -/
def rejectedCallback : SettlementCallback :=
  { sampleCallback with status := .rejected, code := go "51" }

/-- The digests of the sample payment and of the contradicting callback. -/
def raceTable : List (GoString × GoString) :=
  (join rejectedCallback.fingerprintParts [0],
    [0x47, 0x81, 0x80, 0x5d, 0xe6, 0xfd, 0x88, 0x55, 0xb5, 0xf6, 0x58, 0xd1, 0x38, 0xae, 0xd9,
      0xb8, 0xc4, 0x30, 0x51, 0x13, 0xb1, 0xb6, 0x86, 0x3c, 0xe2, 0x65, 0x6d, 0xfb, 0x9e, 0x21,
      0xb7, 0x30]) :: sampleTable

theorem raceTable_length : ∀ p ∈ raceTable, p.2.length = 32 := by
  decide +kernel

def raceEnv : Env := tableEnv raceTable raceTable_length

/-- Both callbacks read the approved transfer before either updates it; a
third one comes later, with blanks around its code. -/
def callbackLabels : List (Label (switch raceEnv)) :=
  decideLabels 0 newYear sampleRequest sampleDict sampleFraud ++ buildLabels 0 newYear 1 5 ++
    [.step 0 (tick newYear)] ++ claimLabels 1 newYear 7 (go "tenant-a") sampleID ++
    recordLabels 1 newYear 8 sampleMessage ++ (settleLabels 2 newYear 10 sampleCallback).dropLast ++
    (settleLabels 3 newYear 12 rejectedCallback).dropLast ++
    [.step 2 (tick newYear), .step 3 (tick newYear)] ++
    settleLabels 4 newYear 14 { sampleCallback with code := go " 00 " }

set_option maxRecDepth 20000 in
theorem callbacks_isSome :
    ((World.init (State.initial raceEnv none none)).exec callbackLabels).isSome := by
  decide +kernel

/-- The trace and the world of the racing callbacks. -/
def callbackRace : Trace (switch raceEnv) × World (switch raceEnv) :=
  World.ran _ callbackLabels callbacks_isSome

/-- The first update is recorded, the contradicting one is not, and the late
one is a replay. -/
theorem settlement_once_race :
    (callbackRace.2.result 2).bind replayFlag = some false ∧
      (callbackRace.2.result 3).bind replayFlag = none ∧
      (callbackRace.2.result 4).bind replayFlag = some true ∧
      SettledOnce raceEnv none none callbackRace.1 callbackRace.2 sampleID := by
  obtain ⟨hrecorded, hrefused, hreplayed⟩ :
      (callbackRace.2.result 2).bind replayFlag = some false ∧
        (callbackRace.2.result 3).bind replayFlag = none ∧
        (callbackRace.2.result 4).bind replayFlag = some true := by
    decide +kernel
  obtain ⟨hempty, hspi, hcolon⟩ :
      HashEmpty callbackRace.1 ∧ SPIDistinct callbackRace.1 ∧ ColonFree callbackRace.1 := by
    decide +kernel
  refine ⟨hrecorded, hrefused, hreplayed, ?_⟩
  exact settlement_once (tableSum_injective raceTable_length (by decide +kernel))
    (tableEnv_marshals _ _) hempty hspi hcolon (World.run_ran _ _ _) sampleID

end PixRail.Settlement
