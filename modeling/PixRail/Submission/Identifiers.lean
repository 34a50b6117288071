import PixRail.Settlement.Record
import PixRail.Switcher.Sample

/-!
# The identifiers of the SPI

The in-memory store takes the message id and the end-to-end id of a
submission as the SPI gives them.  When the SPI never gives one of them to
two transfers, the identifiers of the stored transfers are distinct, and no
settlement gets in the way of the first callback of another transfer
(`identifiers_unique_of_fresh`).  The store itself does not check this, and
one repeated identifier breaks both (`identifiers_shared`).
-/

namespace PixRail.Submission

open Go Rail Events Store Interleave Switcher Lifecycle

/-! ## Answers of the SPI -/

/-- The transfer and the message of a successful submission. -/
def answerOf {E : Env} : Ev (switch E) → Option (Transfer × SPIMessage)
  | .act _ ⟨.submit t, _, .ok m⟩ => some (t, m)
  | _ => none

/-- The successful submissions of a trace. -/
def answers {E : Env} (tr : Trace (switch E)) : List (Transfer × SPIMessage) :=
  tr.filterMap answerOf

/-- Two answers, if they are for different transfers, share no identifier,
and no key of the callbacks map. -/
def Apart (p q : Transfer × SPIMessage) : Prop :=
  p.1.id ≠ q.1.id →
    (p.2.messageID ≠ [] → q.2.messageID ≠ [] →
      p.2.messageID ≠ q.2.messageID ∧
        scopedKey p.1.tenantID p.2.messageID ≠ scopedKey q.1.tenantID q.2.messageID) ∧
    (p.2.endToEndID ≠ [] → q.2.endToEndID ≠ [] → p.2.endToEndID ≠ q.2.endToEndID)

instance (p q : Transfer × SPIMessage) : Decidable (Apart p q) :=
  inferInstanceAs (Decidable (_ → (_ → _ → _ ∧ _) ∧ (_ → _ → _)))

theorem Apart.symm {p q : Transfer × SPIMessage} (h : Apart p q) : Apart q p := by
  intro hid
  obtain ⟨hmsg, he2e⟩ := h hid.symm
  refine ⟨fun hq hp => ?_, fun hq hp => (he2e hp hq).symm⟩
  obtain ⟨hne, hkey⟩ := hmsg hp hq
  exact ⟨hne.symm, hkey.symm⟩

/-- The SPI does not answer with an identifier that it has used for another
transfer. -/
def FreshAnswer {E : Env} (tr : Trace (switch E)) (_ : World (switch E)) (e : Ev (switch E)) :
    Prop :=
  ∀ p ∈ answerOf e, ∀ q ∈ answers tr, Apart p q

instance {E : Env} (tr : Trace (switch E)) (w : World (switch E)) (e : Ev (switch E)) :
    Decidable (FreshAnswer tr w e) :=
  inferInstanceAs (Decidable (∀ p ∈ answerOf e, ∀ q ∈ answers tr, Apart p q))

/-- A run in which every answer of the SPI is fresh. -/
abbrev FreshRuns (E : Env) (tl dl : Option E.Lim) (tr : Trace (switch E))
    (w : World (switch E)) : Prop :=
  RunIf FreshAnswer (.init (State.initial E tl dl)) tr w

/-! ## Stored transfers -/

/-- Distinct transfers have distinct identifiers, and the first callback of a
transfer is not taken for one of another transfer. -/
structure IdentifiersUnique (H : Digest) (s : MemoryStore) : Prop where
  messageIDs : ∀ id id' t t', s.transfers.lookup id = some t → s.transfers.lookup id' = some t' →
    id ≠ id' → t.spiMessageID ≠ [] → t.spiMessageID ≠ t'.spiMessageID
  endToEndIDs : ∀ id id' t t', s.transfers.lookup id = some t → s.transfers.lookup id' = some t' →
    id ≠ id' → t.endToEndID ≠ [] → t.endToEndID ≠ t'.endToEndID
  firstCallback : ∀ id t, s.transfers.lookup id = some t → t.spiMessageID ≠ [] → ¬ Done t →
    ∀ callback outbox audit, callback.spiMessageID = t.spiMessageID →
      (∀ t', (s.updateSettlement H t.tenantID id callback outbox audit).1 ≠ .ok (t', true)) ∧
        ∀ err, (s.updateSettlement H t.tenantID id callback outbox audit).1 = .error err →
          ¬ err.is .conflict

section runs

variable {E : Env} {tl dl : Option E.Lim} {tr : Trace (switch E)} {w : World (switch E)}

theorem answers_apart (h : FreshRuns E tl dl tr w) :
    ∀ p ∈ answers tr, ∀ q ∈ answers tr, Apart p q := by
  induction h with
  | nil => exact fun p hp => absurd hp List.not_mem_nil
  | @snoc tr w w' e h hstep hp ih =>
    have hsnoc : answers (tr ++ [e]) = answers tr ++ (answerOf e).toList := by
      unfold answers
      rw [List.filterMap_append]
      cases he : answerOf e <;> simp [he]
    intro p hpm q hqm
    rw [hsnoc, List.mem_append, Option.mem_toList] at hpm hqm
    rcases hpm with hpm | hpm
    · rcases hqm with hqm | hqm
      · exact ih p hpm q hqm
      · exact (hp q hqm p hpm).symm
    · rcases hqm with hqm | hqm
      · exact hp p hpm q hqm
      · obtain rfl := Option.some.inj (hpm.symm.trans hqm)
        exact fun hid => absurd rfl hid

/-- The identifiers of a transfer come from one answer of the SPI for it. -/
theorem runs_answered (h : Runs E tl dl tr w) {id : GoString} {t : Transfer}
    (hl : w.state.store.transfers.lookup id = some t)
    (hne : t.spiMessageID ≠ [] ∨ t.endToEndID ≠ []) :
    ∃ p ∈ answers tr, p.1.id = id ∧ p.1.tenantID = t.tenantID ∧
      p.2.messageID = t.spiMessageID ∧ p.2.endToEndID = t.endToEndID := by
  obtain ⟨cid, tok, m, ⟨tn, evs, aud, i, t', ha⟩, hmsg, he2e⟩ := runs_recorded h hl hne
  have hid : t.id = id := runs_keyed h _ _ hl
  obtain ⟨t₁, t₂, rfl⟩ := List.append_of_mem ha
  obtain ⟨j, current, u, hs, hcid, -, hclaim⟩ := recorded_submit h
  obtain ⟨w₁, w₂, h₁, hstep, hrun, hrest⟩ := runs_at h
  -- the claim and the record name the tenant of the transfer
  obtain ⟨_, -, hens⟩ := ens_of_did h₁ hclaim
  obtain ⟨-, htn, -⟩ := hens _ rfl
  have hstored : ∃ t, w.state.store.transfers.lookup id = some t ∧ t.tenantID = tn := by
    refine runs_stable (P := fun s => ∃ t, s.transfers.lookup id = some t ∧ t.tenantID = tn)
      ?_ hrun hrest ?_
    · intro tr w i c s' r hr hp hs
      obtain ⟨t, hl, htn⟩ := hp
      obtain ⟨t', hl', hsame⟩ := hs.lookup_sameOrder (runs_keyed hr) hl
      exact ⟨t', hl', hsame.tenantID.trans htn⟩
    · rcases storeHandle_cases (step_store hstep) with ⟨-, hidle⟩ | hs
      · exact absurd rfl (hidle t')
      · have hk := runs_keyed h₁
        generalize w₂.state.store = s₂ at hs ⊢
        have hs' := hs
        cases hs with
        | recorded hctx hfind hrecord =>
          obtain ⟨hl₁, htn₁⟩ := MemoryStore.owned_eq_some.mp hfind
          obtain ⟨t₃, hl₃, hsame⟩ := hs'.lookup_sameOrder hk hl₁
          exact ⟨t₃, hid ▸ hl₃, hsame.tenantID.trans htn₁⟩
  obtain ⟨t₃, hl₃, htn₃⟩ := hstored
  obtain rfl := Option.some.inj (hl₃.symm.trans hl)
  refine ⟨(current, m), ?_, hcid.trans hid, htn.trans htn₃.symm, hmsg, he2e⟩
  exact List.mem_filterMap.mpr ⟨_, List.mem_append_left _ hs, rfl⟩

/-- The callbacks map has no entry under the key of a transfer that is not
done. -/
theorem callback_unfiled (h : FreshRuns E tl dl tr w) {id : GoString} {t : Transfer}
    (hl : w.state.store.transfers.lookup id = some t) (hne : t.spiMessageID ≠ [])
    (hnd : ¬ Done t) :
    w.state.store.callbacks.lookup (scopedKey t.tenantID t.spiMessageID) = none := by
  rw [Option.eq_none_iff_forall_ne_some]
  intro v hv
  obtain ⟨t₁, hl₁, hd₁, hkey⟩ := (runs_callbacks h.run).entry _ v hv
  have hne₁ : t₁.spiMessageID ≠ [] := by
    intro hnil
    have htrim := ((runs_sound h.run hl₁).sent (.inr hd₁)).1
    rw [hnil] at htrim
    exact htrim rfl
  obtain ⟨p, hp, hpid, hptn, hpmsg, -⟩ := runs_answered h.run hl (.inl hne)
  obtain ⟨q, hq, hqid, hqtn, hqmsg, -⟩ := runs_answered h.run hl₁ (.inl hne₁)
  by_cases hid : p.1.id = q.1.id
  · rw [hpid, hqid] at hid
    rw [hid] at hl
    obtain rfl := Option.some.inj (hl₁.symm.trans hl)
    exact hnd hd₁
  · have hapart := (answers_apart h p hp q hq hid).1
    rw [hpmsg, hqmsg, hptn, hqtn] at hapart
    exact (hapart hne hne₁).2 hkey

/-- In every run in which the SPI does not use an identifier twice, the
identifiers of the stored transfers are unique. -/
theorem identifiers_unique_of_fresh (h : FreshRuns E tl dl tr w) :
    IdentifiersUnique E.digest w.state.store where
  messageIDs := by
    intro id id' t t' hl hl' hid hne heq
    obtain ⟨p, hp, hpid, -, hpmsg, -⟩ := runs_answered h.run hl (.inl hne)
    have hne' : t'.spiMessageID ≠ [] := heq ▸ hne
    obtain ⟨q, hq, hqid, -, hqmsg, -⟩ := runs_answered h.run hl' (.inl hne')
    have hapart := (answers_apart h p hp q hq (by rwa [hpid, hqid])).1
    rw [hpmsg, hqmsg] at hapart
    exact (hapart hne hne').1 heq
  endToEndIDs := by
    intro id id' t t' hl hl' hid hne heq
    obtain ⟨p, hp, hpid, -, -, hpe2e⟩ := runs_answered h.run hl (.inr hne)
    have hne' : t'.endToEndID ≠ [] := heq ▸ hne
    obtain ⟨q, hq, hqid, -, -, hqe2e⟩ := runs_answered h.run hl' (.inr hne')
    have hapart := (answers_apart h p hp q hq (by rwa [hpid, hqid])).2
    rw [hpe2e, hqe2e] at hapart
    exact hapart hne hne' heq
  firstCallback := by
    intro id t hl hne hnd cb evs aud hcb
    have hst : t.status = .approved := by
      have hsound := runs_sound h.run hl
      by_contra hst
      have hunsent : t.status = .accepted ∨ t.status = .review ∨ t.status = .blocked := by
        rcases hsound.known with hs | hs | hs | hs | hs | hs
        · exact .inl hs
        · exact .inr (.inl hs)
        · exact .inr (.inr hs)
        · exact absurd hs hst
        · exact absurd (.inl hs) hnd
        · exact absurd (.inr hs) hnd
      exact hne (hsound.unsent hunsent).1
    have hfind : w.state.store.owned t.tenantID id = some t :=
      MemoryStore.owned_eq_some.mpr ⟨hl, rfl⟩
    have hfiled := callback_unfiled h hl hne hnd
    rw [← hcb] at hfiled
    rcases Settlement.update_unfiled (H := E.digest) hfind hfiled hst hcb.symm hne
      with ⟨t', hres⟩ | ⟨-, hres⟩
    · rw [hres]
      simp
    · rw [hres]
      simp

end runs

/-! ## Two payments -/

/-- A second request with the contents of the sample request. -/
def secondRequest : CreateTransferRequest := { sampleRequest with idempotencyKey := go "idem-2" }

/-- The transfer of the second request. -/
def secondID : GoString := drawn "pxt" 20

/-- The answer of the SPI for the second transfer. -/
def secondMessage (messageID endToEndID : GoString) : SPIMessage where
  messageID := messageID
  endToEndID := endToEndID
  transferID := secondID
  submittedAt := newYear

/-- A callback for the second transfer, with a hash of its own. -/
def secondCallback (messageID : GoString) : SettlementCallback where
  tenantID := go "tenant-a"
  transferID := secondID
  spiMessageID := messageID
  status := .accepted
  code := go "00"
  callbackHash := go "second-callback"

/-- Two payments are created and submitted.  The first one is settled, then
the callback of the second one comes. -/
def twoLabels (messageID endToEndID : GoString) : List (Label (switch sampleEnv)) :=
  createLabels ++ decideLabels 1 newYear secondRequest sampleDict sampleFraud ++
    buildLabels 1 newYear 20 5 ++ [.step 1 (tick newYear)] ++
    claimLabels 2 newYear 30 (go "tenant-a") sampleID ++ recordLabels 2 newYear 31 sampleMessage ++
    claimLabels 3 newYear 40 (go "tenant-a") secondID ++
    recordLabels 3 newYear 41 (secondMessage messageID endToEndID) ++
    settleLabels 4 newYear 50 sampleCallback ++
    settleLabels 5 newYear 60 (secondCallback messageID)

set_option maxRecDepth 20000 in
theorem freshTwo_isSome : ((World.init (State.initial sampleEnv none none)).execIf FreshAnswer []
    (twoLabels (go "spi_2") (go "E2"))).isSome := by
  decide +kernel

/-- The run in which the SPI gives the second transfer identifiers of its
own. -/
def freshTwo : Trace (switch sampleEnv) × World (switch sampleEnv) :=
  World.ranIf FreshAnswer _ _ freshTwo_isSome

/-- Both transfers are settled under their own identifiers. -/
theorem identifiers_unique_of_fresh_two :
    (freshTwo.2.result 5).bind replayFlag = some false ∧
      IdentifiersUnique sampleEnv.digest freshTwo.2.state.store :=
  ⟨by decide +kernel, identifiers_unique_of_fresh (World.runIf_ranIf _ _ _)⟩

set_option maxRecDepth 20000 in
theorem sharedTwo_isSome : ((World.init (State.initial sampleEnv none none)).exec
    (twoLabels (go "spi_1") (go "E1"))).isSome := by
  decide +kernel

/-- The run in which the SPI repeats the identifiers of the first transfer. -/
def sharedTwo : Trace (switch sampleEnv) × World (switch sampleEnv) :=
  World.ran _ _ sharedTwo_isSome

/-- Both transfers carry the identifiers of the first one, and the only
callback of the second one is answered as a conflict. -/
theorem identifiers_shared :
    Runs sampleEnv none none sharedTwo.1 sharedTwo.2 ∧
      (sharedTwo.2.state.store.transfers.lookup sampleID).map
          (fun t => (t.status, t.spiMessageID, t.endToEndID)) =
        some (.settled, go "spi_1", go "E1") ∧
      (sharedTwo.2.state.store.transfers.lookup secondID).map
          (fun t => (t.status, t.spiMessageID, t.endToEndID)) =
        some (.approved, go "spi_1", go "E1") ∧
      (sharedTwo.2.result 5).bind failure = some (ErrKind.conflict.wrap
        (go "conflicting settlement callback for terminal transfer")) ∧
      ¬ IdentifiersUnique sampleEnv.digest sharedTwo.2.state.store := by
  obtain ⟨hfirst, hsecond, hconflict⟩ :
      (sharedTwo.2.state.store.transfers.lookup sampleID).map
          (fun t => (t.status, t.spiMessageID, t.endToEndID)) =
        some (.settled, go "spi_1", go "E1") ∧
      (sharedTwo.2.state.store.transfers.lookup secondID).map
          (fun t => (t.status, t.spiMessageID, t.endToEndID)) =
        some (.approved, go "spi_1", go "E1") ∧
      (sharedTwo.2.result 5).bind failure = some (ErrKind.conflict.wrap
        (go "conflicting settlement callback for terminal transfer")) := by
    decide +kernel
  refine ⟨World.run_ran _ _ _, hfirst, hsecond, hconflict, fun hunique => ?_⟩
  obtain ⟨t, hl, ht⟩ := Option.map_eq_some_iff.mp hfirst
  obtain ⟨t', hl', ht'⟩ := Option.map_eq_some_iff.mp hsecond
  have hmsg : t.spiMessageID = go "spi_1" := congrArg (·.2.1) ht
  have hmsg' : t'.spiMessageID = go "spi_1" := congrArg (·.2.1) ht'
  refine hunique.messageIDs _ _ t t' hl hl' (by decide +kernel) ?_ (hmsg.trans hmsg'.symm)
  rw [hmsg]
  decide

end PixRail.Submission
