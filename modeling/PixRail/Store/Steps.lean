import PixRail.Switcher.System

/-!
# What a store call does

`storeHandle_cases` says once what a call of the in-memory store can do to
it: either it leaves the store as it is, or it is one of the nine writes of
`StoreStep`, each with the guard under which it happened and the store it
leaves.  Every invariant of the store is proved from these cases.
-/

namespace PixRail.Store

open Go Rail Events Interleave Switcher

/-! ## The outbox append -/

/-- The records that an append after sequence number `n` adds. -/
def freshRecords (n : Int) : List Event → List OutboxRecord
  | [] => []
  | event :: outbox =>
    { sequence := n + 1, event := event, availableAt := event.occurredAt } ::
      freshRecords (n + 1) outbox

@[simp] theorem freshRecords_map_event (n : Int) (outbox : List Event) :
    (freshRecords n outbox).map (·.event) = outbox := by
  induction outbox generalizing n with
  | nil => rfl
  | cons event outbox ih => simp [freshRecords, ih]

namespace MemoryStore

theorem appendEventsLocked_eq (s : MemoryStore) (outbox : List Event) :
    s.appendEventsLocked outbox =
      { s with
        events := s.events ++ freshRecords s.nextSeq outbox
        nextSeq := s.nextSeq + outbox.length } := by
  induction outbox generalizing s with
  | nil => simp [appendEventsLocked, freshRecords]
  | cons event outbox ih =>
    rw [appendEventsLocked, ih]
    simp only [freshRecords, List.append_assoc, List.singleton_append, List.length_cons]
    congr 1
    push_cast
    omega

/-- A transition write: the new transfer, its events and its audit records. -/
def write (s : MemoryStore) (transfer : Transfer) (outbox : List Event)
    (audit : List AuditRecord) : MemoryStore :=
  ((s.putTransfer transfer).appendEventsLocked outbox).appendAudit audit

section write

variable (s : MemoryStore) (t : Transfer) (evs : List Event) (auds : List AuditRecord)

@[simp] theorem putTransfer_transfers :
    (s.putTransfer t).transfers = s.transfers.insert t.id t := rfl
@[simp] theorem putTransfer_idempotency : (s.putTransfer t).idempotency = s.idempotency := rfl
@[simp] theorem putTransfer_callbacks : (s.putTransfer t).callbacks = s.callbacks := rfl
@[simp] theorem putTransfer_events : (s.putTransfer t).events = s.events := rfl
@[simp] theorem putTransfer_audit : (s.putTransfer t).audit = s.audit := rfl
@[simp] theorem putTransfer_nextSeq : (s.putTransfer t).nextSeq = s.nextSeq := rfl

@[simp] theorem write_transfers :
    (s.write t evs auds).transfers = s.transfers.insert t.id t := by
  simp [write, appendEventsLocked_eq, appendAudit]
@[simp] theorem write_idempotency : (s.write t evs auds).idempotency = s.idempotency := by
  simp [write, appendEventsLocked_eq, appendAudit]
@[simp] theorem write_callbacks : (s.write t evs auds).callbacks = s.callbacks := by
  simp [write, appendEventsLocked_eq, appendAudit]
@[simp] theorem write_events :
    (s.write t evs auds).events = s.events ++ freshRecords s.nextSeq evs := by
  simp [write, appendEventsLocked_eq, appendAudit]
@[simp] theorem write_audit : (s.write t evs auds).audit = s.audit ++ auds := by
  simp [write, appendEventsLocked_eq, appendAudit]
@[simp] theorem write_nextSeq :
    (s.write t evs auds).nextSeq = s.nextSeq + evs.length := by
  simp [write, appendEventsLocked_eq, appendAudit]

theorem insert_idempotency_write (idem : GoMap GoString GoString) :
    ({ s.putTransfer t with idempotency := idem }.appendEventsLocked evs).appendAudit auds =
      { s.write t evs auds with idempotency := idem } := by
  simp [write, appendEventsLocked_eq, appendAudit]

theorem insert_callbacks_write (callbacks : GoMap GoString GoString) :
    ({ s.putTransfer t with callbacks := callbacks }.appendEventsLocked evs).appendAudit auds =
      { s.write t evs auds with callbacks := callbacks } := by
  simp [write, appendEventsLocked_eq, appendAudit]

end write

/-! ## The lookup by tenant -/

theorem owned_eq_some {s : MemoryStore} {tn id : GoString} {t : Transfer} :
    s.owned tn id = some t ↔ s.transfers.lookup id = some t ∧ t.tenantID = tn := by
  unfold owned
  cases h : s.transfers.lookup id with
  | none => simp
  | some t' =>
    by_cases hten : t'.tenantID = tn
    · simp only [hten, ne_eq, not_true_eq_false, if_false, Option.some.injEq]
      constructor
      · intro he
        subst he
        exact ⟨rfl, hten⟩
      · intro he
        exact he.1
    · simp only [hten, ne_eq, not_false_eq_true, if_true, reduceCtorEq, Option.some.injEq,
        false_iff, not_and]
      intro he
      rwa [← he]

end MemoryStore

open MemoryStore

/-! ## The writes -/

/-- The nine ways a store call changes the store. -/
inductive StoreStep (H : Digest) (s : MemoryStore) (i : Input) :
    (c : StoreCall) → c.Ret → MemoryStore → Prop where
  | inserted {t : Transfer} {evs : List Event} {auds : List AuditRecord}
      (hnew : s.transfers.lookup t.id = none)
      (hidem : ∀ id ∈ s.idempotency.lookup (idemKey t), id = t.id) :
      StoreStep H s i (.insertTransfer t evs auds) (.ok ())
        { s.write t evs auds with idempotency := s.idempotency.insert (idemKey t) t.id }
  | claimed {tn id tok : GoString} {u : Time} {t t' : Transfer} (hctx : i.ctx = none)
      (hfind : s.owned tn id = some t) (hclaim : t.claimSPISubmission tok u i.now = .ok t') :
      StoreStep H s i (.claimSPISubmission tn id tok u) (.ok (t', false)) (s.putTransfer t')
  | recorded {tn id tok : GoString} {m : SPIMessage} {evs : List Event} {aud : AuditRecord}
      {t t' : Transfer} (hctx : i.ctx = none) (hfind : s.owned tn id = some t)
      (hrecord : t.recordSPISubmission tok m = .ok t') :
      StoreStep H s i (.recordSPISubmission tn id tok m evs aud) (.ok (t', false))
        (s.write t' evs [aud])
  | released {tn id tok e : GoString} {r : Time} {t t' : Transfer} (hctx : i.ctx = none)
      (hfind : s.owned tn id = some t)
      (happ : ¬ (t.status = .approved ∧ t.spiMessageID ≠ []))
      (hrelease : t.releaseSPISubmission tok e r i.now = .ok t') :
      StoreStep H s i (.releaseSPISubmission tn id tok e r) (.ok ()) (s.putTransfer t')
  | reviewed {tn id : GoString} {st : TransferStatus} {reason : GoString}
      {evs : List Event} {aud : AuditRecord} {t t' : Transfer}
      (hfind : s.owned tn id = some t)
      (hreview : t.recordReviewDecision st reason aud.createdAt = .ok t') :
      StoreStep H s i (.recordReviewDecision tn id st reason evs aud) (.ok t')
        (s.write t' evs [aud])
  | settled {tn id : GoString} {cb : SettlementCallback} {evs : List Event}
      {aud : AuditRecord} {t t' : Transfer} (hfind : s.owned tn id = some t)
      (hnew : s.callbacks.lookup (scopedKey tn cb.spiMessageID) = none)
      (hsettle : t.recordSettlement cb = .ok t') :
      StoreStep H s i (.updateSettlement tn id cb evs aud) (.ok (t', false))
        { s.write t' evs [aud] with
          callbacks := s.callbacks.insert (scopedKey tn cb.spiMessageID) (callbackHash H cb) }
  | outboxClaimed {now : Time} {limit : Int} {tok : GoString} {u : Time} :
      StoreStep H s i (.claimPendingOutbox now limit tok u)
        (s.claimPendingOutbox now limit tok u).1 (s.claimPendingOutbox now limit tok u).2
  | outboxPublished {seq : Int} {tok : GoString} {at_ : Time} {events : List OutboxRecord}
      (hctx : i.ctx = none) (hmark : markLoop seq tok (published at_) s.events = .ok events) :
      StoreStep H s i (.markOutboxPublished seq tok at_) (.ok ()) { s with events := events }
  | outboxFailed {seq : Int} {tok e : GoString} {r : Time} {events : List OutboxRecord}
      (hctx : i.ctx = none) (hmark : markLoop seq tok (failed e r) s.events = .ok events) :
      StoreStep H s i (.markOutboxFailed seq tok e r) (.ok ()) { s with events := events }

/-- The answers that go with an unchanged store. -/
def Idle : (c : StoreCall) → c.Ret → Prop
  | .insertTransfer _ _ _, r => ∃ e, r = .error e ∧ e.is .conflict
  | .claimSPISubmission _ _ _ _, r => ∀ t, r ≠ .ok (t, false)
  | .recordSPISubmission _ _ _ _ _ _, r => ∀ t, r ≠ .ok (t, false)
  | .recordReviewDecision _ _ _ _ _ _, r => ∀ t, r ≠ .ok t
  | .updateSettlement _ _ _ _ _, r => ∀ t, r ≠ .ok (t, false)
  | .claimPendingOutbox _ _ _ _, _ => False
  | .markOutboxPublished _ _ _, r => r ≠ .ok ()
  | .markOutboxFailed _ _ _ _, r => r ≠ .ok ()
  | _, _ => True

section cases

variable {H : Digest} {i : Input} {s : MemoryStore}

theorem insertTransfer_cases (t : Transfer) (evs : List Event) (auds : List AuditRecord) :
    ((s.insertTransfer t evs auds).2 = s ∧
        Idle (.insertTransfer t evs auds) (s.insertTransfer t evs auds).1) ∨
      StoreStep H s i (.insertTransfer t evs auds) (s.insertTransfer t evs auds).1
        (s.insertTransfer t evs auds).2 := by
  unfold insertTransfer
  split
  · exact Or.inl ⟨rfl, _, rfl, by simp⟩
  · rename_i h₁
    split
    · exact Or.inl ⟨rfl, _, rfl, by simp⟩
    · rename_i h₂
      right
      rw [insert_idempotency_write]
      refine .inserted (Finmap.lookup_eq_none.mpr h₂) fun id hid => ?_
      by_contra hne
      exact h₁ ⟨id, hid, hne⟩

theorem claimSPISubmission_cases (tn id tok : GoString) (u : Time) :
    ((s.claimSPISubmission i.ctx i.now tn id tok u).2 = s ∧
        Idle (.claimSPISubmission tn id tok u)
          (s.claimSPISubmission i.ctx i.now tn id tok u).1) ∨
      StoreStep H s i (.claimSPISubmission tn id tok u)
        (s.claimSPISubmission i.ctx i.now tn id tok u).1
        (s.claimSPISubmission i.ctx i.now tn id tok u).2 := by
  unfold MemoryStore.claimSPISubmission
  split
  · exact Or.inl ⟨rfl, fun t => by simp⟩
  · rename_i hctx
    split
    · exact Or.inl ⟨rfl, fun t => by simp⟩
    · rename_i t hfind
      split
      · exact Or.inl ⟨rfl, fun t => by simp⟩
      · split
        · exact Or.inl ⟨rfl, fun t => by simp⟩
        · rename_i t' hclaim
          exact Or.inr (.claimed hctx hfind hclaim)

theorem recordSPISubmission_cases (tn id tok : GoString) (m : SPIMessage)
    (evs : List Event) (aud : AuditRecord) :
    ((s.recordSPISubmission i.ctx tn id tok m evs aud).2 = s ∧
        Idle (.recordSPISubmission tn id tok m evs aud)
          (s.recordSPISubmission i.ctx tn id tok m evs aud).1) ∨
      StoreStep H s i (.recordSPISubmission tn id tok m evs aud)
        (s.recordSPISubmission i.ctx tn id tok m evs aud).1
        (s.recordSPISubmission i.ctx tn id tok m evs aud).2 := by
  unfold MemoryStore.recordSPISubmission
  split
  · exact Or.inl ⟨rfl, fun t => by simp⟩
  · rename_i hctx
    split
    · exact Or.inl ⟨rfl, fun t => by simp⟩
    · rename_i t hfind
      split
      · exact Or.inl ⟨rfl, fun t => by simp⟩
      · split
        · exact Or.inl ⟨rfl, fun t => by simp⟩
        · rename_i t' hrecord
          exact Or.inr (.recorded hctx hfind hrecord)

theorem releaseSPISubmission_cases (tn id tok e : GoString) (r : Time) :
    ((s.releaseSPISubmission i.ctx i.now tn id tok e r).2 = s ∧
        Idle (.releaseSPISubmission tn id tok e r)
          (s.releaseSPISubmission i.ctx i.now tn id tok e r).1) ∨
      StoreStep H s i (.releaseSPISubmission tn id tok e r)
        (s.releaseSPISubmission i.ctx i.now tn id tok e r).1
        (s.releaseSPISubmission i.ctx i.now tn id tok e r).2 := by
  unfold MemoryStore.releaseSPISubmission
  split
  · exact Or.inl ⟨rfl, trivial⟩
  · rename_i hctx
    split
    · exact Or.inl ⟨rfl, trivial⟩
    · rename_i t hfind
      split
      · exact Or.inl ⟨rfl, trivial⟩
      · rename_i happ
        split
        · exact Or.inl ⟨rfl, trivial⟩
        · rename_i t' hrelease
          exact Or.inr (.released hctx hfind happ hrelease)

theorem recordReviewDecision_cases (tn id : GoString) (st : TransferStatus)
    (reason : GoString) (evs : List Event) (aud : AuditRecord) :
    ((s.recordReviewDecision tn id st reason evs aud).2 = s ∧
        Idle (.recordReviewDecision tn id st reason evs aud)
          (s.recordReviewDecision tn id st reason evs aud).1) ∨
      StoreStep H s i (.recordReviewDecision tn id st reason evs aud)
        (s.recordReviewDecision tn id st reason evs aud).1
        (s.recordReviewDecision tn id st reason evs aud).2 := by
  unfold MemoryStore.recordReviewDecision
  split
  · exact Or.inl ⟨rfl, fun t => by simp⟩
  · rename_i t hfind
    split
    · exact Or.inl ⟨rfl, fun t => by simp⟩
    · rename_i t' hreview
      exact Or.inr (.reviewed hfind hreview)

theorem updateSettlement_cases (tn id : GoString) (cb : SettlementCallback)
    (evs : List Event) (aud : AuditRecord) :
    ((s.updateSettlement H tn id cb evs aud).2 = s ∧
        Idle (.updateSettlement tn id cb evs aud)
          (s.updateSettlement H tn id cb evs aud).1) ∨
      StoreStep H s i (.updateSettlement tn id cb evs aud)
        (s.updateSettlement H tn id cb evs aud).1
        (s.updateSettlement H tn id cb evs aud).2 := by
  unfold MemoryStore.updateSettlement
  split
  · exact Or.inl ⟨rfl, fun t => by simp⟩
  · rename_i t hfind
    split
    · split
      · exact Or.inl ⟨rfl, fun t => by simp⟩
      · exact Or.inl ⟨rfl, fun t => by simp⟩
    · rename_i hnew
      split
      · exact Or.inl ⟨rfl, fun t => by simp⟩
      · rename_i t' hsettle
        right
        rw [insert_callbacks_write]
        exact .settled hfind hnew hsettle

end cases

/-- What a store call can do. -/
theorem storeHandle_cases {H : Digest} {c : StoreCall} {i : Input} {s s' : MemoryStore}
    {r : c.Ret} (h : storeHandle H c i s = some (r, s')) :
    (s' = s ∧ Idle c r) ∨ StoreStep H s i c r s' := by
  cases c with
  | findByIdempotency tn key =>
    obtain ⟨rfl, rfl⟩ := Prod.mk.inj (Option.some.inj h)
    exact Or.inl ⟨rfl, trivial⟩
  | insertTransfer t evs auds =>
    obtain ⟨rfl, rfl⟩ := Prod.mk.inj (Option.some.inj h)
    exact insertTransfer_cases t evs auds
  | getTransfer tn id =>
    obtain ⟨rfl, rfl⟩ := Prod.mk.inj (Option.some.inj h)
    exact Or.inl ⟨rfl, trivial⟩
  | claimSPISubmission tn id tok u =>
    obtain ⟨rfl, rfl⟩ := Prod.mk.inj (Option.some.inj h)
    exact claimSPISubmission_cases tn id tok u
  | recordSPISubmission tn id tok m evs aud =>
    obtain ⟨rfl, rfl⟩ := Prod.mk.inj (Option.some.inj h)
    exact recordSPISubmission_cases tn id tok m evs aud
  | releaseSPISubmission tn id tok e r =>
    obtain ⟨rfl, rfl⟩ := Prod.mk.inj (Option.some.inj h)
    exact releaseSPISubmission_cases tn id tok e r
  | recordReviewDecision tn id st reason evs aud =>
    obtain ⟨rfl, rfl⟩ := Prod.mk.inj (Option.some.inj h)
    exact recordReviewDecision_cases tn id st reason evs aud
  | updateSettlement tn id cb evs aud =>
    obtain ⟨rfl, rfl⟩ := Prod.mk.inj (Option.some.inj h)
    exact updateSettlement_cases tn id cb evs aud
  | pendingSPISubmissions now limit =>
    simp only [storeHandle] at h
    split at h
    · split at h
      · obtain ⟨rfl, rfl⟩ := Prod.mk.inj (Option.some.inj h)
        exact Or.inl ⟨rfl, trivial⟩
      · exact absurd h (by simp)
    · exact absurd h (by simp)
  | claimPendingOutbox now limit tok u =>
    obtain ⟨rfl, rfl⟩ := Prod.mk.inj (Option.some.inj h)
    exact Or.inr .outboxClaimed
  | markOutboxPublished seq tok at_ =>
    obtain ⟨rfl, rfl⟩ := Prod.mk.inj (Option.some.inj h)
    split
    · exact Or.inl ⟨rfl, by simp [Idle]⟩
    · rename_i hctx
      split
      · exact Or.inl ⟨rfl, by simp [Idle]⟩
      · rename_i events hmark
        exact Or.inr (.outboxPublished hctx hmark)
  | markOutboxFailed seq tok e r =>
    obtain ⟨rfl, rfl⟩ := Prod.mk.inj (Option.some.inj h)
    split
    · exact Or.inl ⟨rfl, by simp [Idle]⟩
    · rename_i hctx
      split
      · exact Or.inl ⟨rfl, by simp [Idle]⟩
      · rename_i events hmark
        exact Or.inr (.outboxFailed hctx hmark)

end PixRail.Store
