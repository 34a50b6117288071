import PixRail.Store.Steps

/-!
# What a write does to the transfers and to the outbox

`StoreStep.transfers_cases`: a write leaves the transfers as they are, adds
a new one, or moves one of them by a transition of `rail`.

`StoreStep.log`: a write appends the events of the call to the outbox.  The
sequence numbers and the events of the records that are there stay as they
are; only the relay state of a record changes.
-/

namespace PixRail.Store

open Go Rail Events Interleave Switcher MemoryStore

variable {H : Digest} {s s' : MemoryStore} {i : Input} {c : StoreCall} {r : c.Ret}

/-! ## Transfers -/

/-- Transfers are filed under their id. -/
def MemoryStore.Keyed (s : MemoryStore) : Prop :=
  ∀ id t, s.transfers.lookup id = some t → t.id = id

/-- The transition that a store call makes on the transfer it names. -/
inductive Moves (i : Input) : StoreCall → Transfer → Transfer → Prop where
  | claim {tok : GoString} {u : Time} {t t' : Transfer}
      (h : t.claimSPISubmission tok u i.now = .ok t') :
      Moves i (.claimSPISubmission t.tenantID t.id tok u) t t'
  | record {tok : GoString} {m : SPIMessage} {evs : List Event} {aud : AuditRecord}
      {t t' : Transfer} (h : t.recordSPISubmission tok m = .ok t') :
      Moves i (.recordSPISubmission t.tenantID t.id tok m evs aud) t t'
  | release {tok e : GoString} {r : Time} {t t' : Transfer}
      (happ : ¬ (t.status = .approved ∧ t.spiMessageID ≠ []))
      (h : t.releaseSPISubmission tok e r i.now = .ok t') :
      Moves i (.releaseSPISubmission t.tenantID t.id tok e r) t t'
  | review {st : TransferStatus} {reason : GoString} {evs : List Event} {aud : AuditRecord}
      {t t' : Transfer} (h : t.recordReviewDecision st reason aud.createdAt = .ok t') :
      Moves i (.recordReviewDecision t.tenantID t.id st reason evs aud) t t'
  | settle {cb : SettlementCallback} {evs : List Event} {aud : AuditRecord} {t t' : Transfer}
      (h : t.recordSettlement cb = .ok t') :
      Moves i (.updateSettlement t.tenantID t.id cb evs aud) t t'

/-- What no transition changes. -/
structure SameOrder (t t' : Transfer) : Prop where
  id : t'.id = t.id
  tenantID : t'.tenantID = t.tenantID
  accountID : t'.accountID = t.accountID
  idempotencyKey : t'.idempotencyKey = t.idempotencyKey
  requestHash : t'.requestHash = t.requestHash
  correlationID : t'.correlationID = t.correlationID
  amountCents : t'.amountCents = t.amountCents
  currency : t'.currency = t.currency
  receiverKey : t'.receiverKey = t.receiverKey
  receiverKeyType : t'.receiverKeyType = t.receiverKeyType
  receiverName : t'.receiverName = t.receiverName
  receiverBank : t'.receiverBank = t.receiverBank
  receiverRisk : t'.receiverRisk = t.receiverRisk
  fraudScore : t'.fraudScore = t.fraudScore
  fraudRules : t'.fraudRules = t.fraudRules
  createdAt : t'.createdAt = t.createdAt

theorem SameOrder.refl (t : Transfer) : SameOrder t t := by
  constructor <;> rfl

theorem SameOrder.trans {t₁ t₂ t₃ : Transfer} (h₁ : SameOrder t₁ t₂) (h₂ : SameOrder t₂ t₃) :
    SameOrder t₁ t₃ := by
  cases h₁
  cases h₂
  constructor <;> simp_all only

theorem Moves.sameOrder {t t' : Transfer} (h : Moves i c t t') : SameOrder t t' := by
  cases h with
  | claim h =>
    obtain ⟨-, -, -, -, rfl⟩ := Transfer.claimSPISubmission_eq_ok.mp h
    constructor <;> rfl
  | record h =>
    obtain ⟨-, -, -, -, -, rfl⟩ := Transfer.recordSPISubmission_eq_ok.mp h
    constructor <;> rfl
  | release happ h =>
    obtain ⟨-, -, rfl⟩ := (Transfer.releaseSPISubmission_eq_ok happ).mp h
    constructor <;> rfl
  | review h =>
    obtain ⟨-, -, rfl⟩ := Transfer.recordReviewDecision_eq_ok.mp h
    constructor <;> rfl
  | settle h =>
    obtain ⟨-, -, -, _, -, rfl⟩ := Transfer.recordSettlement_eq_ok.mp h
    constructor <;> rfl

private theorem Moves.of_owned {t t' : Transfer} {tn id : GoString}
    (call : GoString → GoString → StoreCall) (hk : s.Keyed) (hfind : s.owned tn id = some t)
    (hm : Moves i (call t.tenantID t.id) t t') :
    ∃ t₁ t₂, s.transfers.lookup t₁.id = some t₁ ∧ Moves i (call tn id) t₁ t₂ ∧
      s.transfers.insert t'.id t' = s.transfers.insert t₁.id t₂ := by
  obtain ⟨hl, rfl⟩ := owned_eq_some.mp hfind
  obtain rfl := hk _ _ hl
  exact ⟨t, t', hl, hm, by rw [hm.sameOrder.id]⟩

/-- The three things a write does to the transfers. -/
theorem StoreStep.transfers_cases (hs : StoreStep H s i c r s') (hk : s.Keyed) :
    (s'.transfers = s.transfers ∧ c.outbox = []) ∨
    (∃ t evs auds, c = .insertTransfer t evs auds ∧ s.transfers.lookup t.id = none ∧
      s'.transfers = s.transfers.insert t.id t) ∨
    ∃ t t', s.transfers.lookup t.id = some t ∧ Moves i c t t' ∧
      s'.transfers = s.transfers.insert t.id t' := by
  cases hs with
  | inserted hnew _ => exact .inr (.inl ⟨_, _, _, rfl, hnew, by simp⟩)
  | @claimed _ _ tok u _ _ hctx hfind h =>
    have hm := Moves.of_owned (.claimSPISubmission · · tok u) hk hfind (.claim h)
    exact .inr (.inr (by simpa using hm))
  | @recorded _ _ tok m evs aud _ _ hctx hfind h =>
    have hm := Moves.of_owned (i := i) (.recordSPISubmission · · tok m evs aud) hk hfind
      (.record h)
    exact .inr (.inr (by simpa using hm))
  | @released _ _ tok e r _ _ hctx hfind happ h =>
    have hm := Moves.of_owned (.releaseSPISubmission · · tok e r) hk hfind (.release happ h)
    exact .inr (.inr (by simpa using hm))
  | @reviewed _ _ st reason evs aud _ _ hfind h =>
    have hm := Moves.of_owned (i := i) (.recordReviewDecision · · st reason evs aud) hk hfind
      (.review h)
    exact .inr (.inr (by simpa using hm))
  | @settled _ _ cb evs aud _ _ hfind hnew h =>
    have hm := Moves.of_owned (i := i) (.updateSettlement · · cb evs aud) hk hfind (.settle h)
    exact .inr (.inr (by simpa using hm))
  | outboxClaimed => exact .inl ⟨rfl, rfl⟩
  | outboxPublished hctx hmark => exact .inl ⟨rfl, rfl⟩
  | outboxFailed hctx hmark => exact .inl ⟨rfl, rfl⟩

theorem StoreStep.keyed (hs : StoreStep H s i c r s') (hk : s.Keyed) : s'.Keyed := by
  intro id t hl
  rcases hs.transfers_cases hk with ⟨he, -⟩ | ⟨t₁, _, _, -, -, he⟩ | ⟨t₁, t₂, -, hm, he⟩
  · rw [he] at hl
    exact hk id t hl
  · rw [he] at hl
    rcases lookup_insert_eq_some.mp hl with ⟨rfl, rfl⟩ | ⟨-, hl⟩
    · rfl
    · exact hk id t hl
  · rw [he] at hl
    rcases lookup_insert_eq_some.mp hl with ⟨rfl, rfl⟩ | ⟨-, hl⟩
    · exact hm.sameOrder.id
    · exact hk id t hl

/-- A stored transfer stays stored, with its order. -/
theorem StoreStep.lookup_mono (hs : StoreStep H s i c r s') (hk : s.Keyed) {id : GoString}
    {t : Transfer} (hl : s.transfers.lookup id = some t) :
    ∃ t', s'.transfers.lookup id = some t' ∧ (t' = t ∨ Moves i c t t') := by
  rcases hs.transfers_cases hk with ⟨he, -⟩ | ⟨t₁, _, _, -, hnew, he⟩ | ⟨t₁, t₂, hold, hm, he⟩
  · exact ⟨t, by rwa [he], .inl rfl⟩
  · refine ⟨t, ?_, .inl rfl⟩
    rw [he, lookup_insert_eq_some]
    refine .inr ⟨fun h => ?_, hl⟩
    rw [h, hnew] at hl
    exact absurd hl (by simp)
  · by_cases hid : id = t₁.id
    · subst hid
      rw [hold, Option.some.injEq] at hl
      subst hl
      exact ⟨t₂, by rw [he, Finmap.lookup_insert], .inr hm⟩
    · refine ⟨t, ?_, .inl rfl⟩
      rw [he, lookup_insert_eq_some]
      exact .inr ⟨hid, hl⟩

theorem StoreStep.lookup_sameOrder (hs : StoreStep H s i c r s') (hk : s.Keyed)
    {id : GoString} {t : Transfer} (hl : s.transfers.lookup id = some t) :
    ∃ t', s'.transfers.lookup id = some t' ∧ SameOrder t t' := by
  obtain ⟨t', hl', hmv⟩ := hs.lookup_mono hk hl
  refine ⟨t', hl', ?_⟩
  rcases hmv with rfl | hmv
  · exact .refl t'
  · exact hmv.sameOrder

/-- Where a stored transfer comes from. -/
theorem StoreStep.lookup_inv (hs : StoreStep H s i c r s') (hk : s.Keyed) {id : GoString}
    {t' : Transfer} (hl : s'.transfers.lookup id = some t') :
    s.transfers.lookup id = some t' ∨
    (s.transfers.lookup id = none ∧ ∃ evs auds, c = .insertTransfer t' evs auds) ∨
    ∃ t, s.transfers.lookup id = some t ∧ Moves i c t t' := by
  rcases hs.transfers_cases hk with
    ⟨he, -⟩ | ⟨t₁, evs, auds, hc, hnew, he⟩ | ⟨t₁, t₂, hold, hm, he⟩
  · exact .inl (by rwa [← he])
  · rw [he] at hl
    rcases lookup_insert_eq_some.mp hl with ⟨rfl, rfl⟩ | ⟨-, hl⟩
    · exact .inr (.inl ⟨hnew, evs, auds, hc⟩)
    · exact .inl hl
  · rw [he] at hl
    rcases lookup_insert_eq_some.mp hl with ⟨rfl, rfl⟩ | ⟨-, hl⟩
    · exact .inr (.inr ⟨t₁, hold, hm⟩)
    · exact .inl hl

/-! ## The callbacks map -/

/-- Only a settlement files a callback, under the tenant and the SPI message
id of the transfer it settles. -/
theorem StoreStep.callbacks_cases (hs : StoreStep H s i c r s') (hk : s.Keyed) :
    (s'.callbacks = s.callbacks ∧ ∀ tn id cb evs aud, c ≠ .updateSettlement tn id cb evs aud) ∨
    ∃ t t' cb evs aud, c = .updateSettlement t.tenantID t.id cb evs aud ∧
      s.transfers.lookup t.id = some t ∧ t.recordSettlement cb = .ok t' ∧
      s'.transfers = s.transfers.insert t.id t' ∧
      s.callbacks.lookup (scopedKey t.tenantID cb.spiMessageID) = none ∧
      s'.callbacks = s.callbacks.insert (scopedKey t.tenantID cb.spiMessageID)
        (callbackHash H cb) := by
  cases hs with
  | inserted _ _ | recorded _ _ _ | reviewed _ _ => exact .inl ⟨by simp, by simp⟩
  | claimed _ _ _ | released _ _ _ _ => exact .inl ⟨rfl, by simp⟩
  | outboxClaimed => exact .inl ⟨rfl, by simp⟩
  | outboxPublished _ _ | outboxFailed _ _ => exact .inl ⟨rfl, by simp⟩
  | @settled _ _ cb evs aud t t' hfind hnew h =>
    obtain ⟨hl, rfl⟩ := owned_eq_some.mp hfind
    obtain rfl := hk _ _ hl
    have hm : Moves i (.updateSettlement t.tenantID t.id cb evs aud) t t' := .settle h
    exact .inr ⟨t, t', cb, evs, aud, rfl, hl, h, by simp [hm.sameOrder.id], hnew, rfl⟩

/-! ## The idempotency map -/

theorem StoreStep.idempotency_eq (hs : StoreStep H s i c r s')
    (hc : ∀ t evs auds, c ≠ .insertTransfer t evs auds) : s'.idempotency = s.idempotency := by
  cases hs with
  | inserted _ _ => exact absurd rfl (hc _ _ _)
  | claimed _ _ _ | released _ _ _ _ => rfl
  | recorded _ _ _ | reviewed _ _ => simp
  | settled _ _ _ => simp
  | outboxClaimed => rfl
  | outboxPublished _ _ | outboxFailed _ _ => rfl

/-- Every transfer is filed under its idempotency key, and every entry is the
entry of a transfer. -/
structure MemoryStore.Filed (s : MemoryStore) : Prop where
  filed : ∀ id t, s.transfers.lookup id = some t → s.idempotency.lookup (idemKey t) = some id
  entry : ∀ key id, s.idempotency.lookup key = some id →
    ∃ t, s.transfers.lookup id = some t ∧ idemKey t = key

/-- The separator ends a tenant id that does not contain it. -/
theorem scopedKey_inj {tn tn' k k' : GoString} (h : 58 ∉ tn) (h' : 58 ∉ tn')
    (he : scopedKey tn k = scopedKey tn' k') : tn = tn' ∧ k = k' := by
  have hcolon : go ":" = [58] := by decide
  simp only [scopedKey, hcolon, List.append_assoc, List.singleton_append] at he
  exact append_sep_inj h h' he

theorem SameOrder.idemKey_eq {t t' : Transfer} (h : SameOrder t t') : idemKey t' = idemKey t := by
  rw [idemKey, idemKey, h.tenantID, h.idempotencyKey]

/-- An insert finds its key free. -/
theorem MemoryStore.Filed.lookup_eq_none (hf : s.Filed) {t : Transfer}
    (hnew : s.transfers.lookup t.id = none)
    (hidem : ∀ id ∈ s.idempotency.lookup (idemKey t), id = t.id) :
    s.idempotency.lookup (idemKey t) = none := by
  cases hl : s.idempotency.lookup (idemKey t) with
  | none => rfl
  | some id =>
    obtain rfl := hidem id hl
    obtain ⟨t', ht', -⟩ := hf.entry _ _ hl
    rw [hnew] at ht'
    exact absurd ht' (by simp)

theorem StoreStep.filed (hs : StoreStep H s i c r s') (hk : s.Keyed) (hf : s.Filed) :
    s'.Filed := by
  by_cases hc : ∃ t evs auds, c = .insertTransfer t evs auds
  · obtain ⟨t, evs, auds, rfl⟩ := hc
    cases hs with
    | inserted hnew hidem =>
      have hfree := hf.lookup_eq_none hnew hidem
      refine ⟨fun id t' hl => ?_, fun key id hl => ?_⟩
      · rw [lookup_insert_eq_some]
        rcases lookup_insert_eq_some.mp (by simpa using hl) with ⟨rfl, rfl⟩ | ⟨-, hl⟩
        · exact .inl ⟨rfl, rfl⟩
        · have hfiled := hf.filed id t' hl
          refine .inr ⟨fun hkey => ?_, hfiled⟩
          rw [hkey, hfree] at hfiled
          exact absurd hfiled (by simp)
      · rcases lookup_insert_eq_some.mp hl with ⟨rfl, rfl⟩ | ⟨-, hl⟩
        · exact ⟨t, by simp, rfl⟩
        · obtain ⟨t', ht', hkey⟩ := hf.entry key id hl
          refine ⟨t', ?_, hkey⟩
          rw [write_transfers, lookup_insert_eq_some]
          refine .inr ⟨fun hid => ?_, ht'⟩
          rw [hid, hnew] at ht'
          exact absurd ht' (by simp)
  · have hidem := hs.idempotency_eq fun t evs auds h => hc ⟨t, evs, auds, h⟩
    refine ⟨fun id t' hl => ?_, fun key id hl => ?_⟩
    · rw [hidem]
      rcases hs.lookup_inv hk hl with hl | ⟨-, evs, auds, hins⟩ | ⟨t, hl, hmv⟩
      · exact hf.filed id t' hl
      · exact absurd ⟨t', evs, auds, hins⟩ hc
      · rw [hmv.sameOrder.idemKey_eq]
        exact hf.filed id t hl
    · rw [hidem] at hl
      obtain ⟨t, ht, hkey⟩ := hf.entry key id hl
      obtain ⟨t', ht', hsame⟩ := hs.lookup_sameOrder hk ht
      exact ⟨t', ht', hsame.idemKey_eq.trans hkey⟩

/-- An entry stays. -/
theorem StoreStep.idempotency_mono (hs : StoreStep H s i c r s') (hf : s.Filed)
    {key id : GoString} (hl : s.idempotency.lookup key = some id) :
    s'.idempotency.lookup key = some id := by
  by_cases hc : ∃ t evs auds, c = .insertTransfer t evs auds
  · obtain ⟨t, evs, auds, rfl⟩ := hc
    cases hs with
    | inserted hnew hidem =>
      rw [lookup_insert_eq_some]
      refine .inr ⟨fun hkey => ?_, hl⟩
      rw [hkey, hf.lookup_eq_none hnew hidem] at hl
      exact absurd hl (by simp)
  · rwa [hs.idempotency_eq fun t evs auds h => hc ⟨t, evs, auds, h⟩]

/-! ## The outbox -/

/-- What a store call does to one record of the outbox. -/
inductive RecordStep : StoreCall → OutboxRecord → OutboxRecord → Prop where
  | same {c : StoreCall} (rec : OutboxRecord) : RecordStep c rec rec
  | claimed {now u : Time} {limit : Int} {tok : GoString} {rec : OutboxRecord}
      (h : Claimable now rec) :
      RecordStep (.claimPendingOutbox now limit tok u) rec
        { rec with claimToken := tok, claimedUntil := some u }
  | published {tok : GoString} {at_ : Time} {rec : OutboxRecord}
      (hne : rec.claimToken ≠ []) (htok : rec.claimToken = tok) :
      RecordStep (.markOutboxPublished rec.sequence tok at_) rec
        (MemoryStore.published at_ rec)
  | failed {tok e : GoString} {retry : Time} {rec : OutboxRecord}
      (hne : rec.claimToken ≠ []) (htok : rec.claimToken = tok) :
      RecordStep (.markOutboxFailed rec.sequence tok e retry) rec
        (MemoryStore.failed e retry rec)

theorem RecordStep.entry_eq {a b : OutboxRecord} (h : RecordStep c a b) : b.entry = a.entry := by
  cases h <;> rfl

theorem forall₂_recordStep_entry {l l' : List OutboxRecord}
    (h : List.Forall₂ (RecordStep c) l l') : l'.map (·.entry) = l.map (·.entry) := by
  induction h with
  | nil => rfl
  | cons h _ ih => rw [List.map_cons, List.map_cons, h.entry_eq, ih]

theorem forall₂_recordStep_refl (c : StoreCall) (l : List OutboxRecord) :
    List.Forall₂ (RecordStep c) l l :=
  List.forall₂_same.mpr fun rec _ => .same rec

theorem claimLoop_forall₂ (now : Time) (tok : GoString) (u : Time) (limit : Int) (left : Nat)
    (l : List OutboxRecord) :
    List.Forall₂ (RecordStep (.claimPendingOutbox now limit tok u)) l
      (claimLoop now tok u left l).1 := by
  induction l generalizing left with
  | nil => exact .nil
  | cons rec l ih =>
    simp only [claimLoop]
    split
    · rename_i hcl
      split
      · exact .cons (.claimed hcl) (forall₂_recordStep_refl _ l)
      · exact .cons (.claimed hcl) (ih _)
    · exact .cons (.same rec) (ih _)

/-- A successful mark updates one record, under its number and its token. -/
theorem markLoop_eq_ok {seq : Int} {tok : GoString} {update : OutboxRecord → OutboxRecord}
    {l l' : List OutboxRecord} (h : markLoop seq tok update l = .ok l') :
    ∃ l₁ rec l₂, l = l₁ ++ rec :: l₂ ∧ l' = l₁ ++ update rec :: l₂ ∧ rec.sequence = seq ∧
      rec.claimToken ≠ [] ∧ rec.claimToken = tok := by
  induction l generalizing l' with
  | nil => simp [markLoop] at h
  | cons rec l ih =>
    simp only [markLoop] at h
    split at h
    · split at h
      · exact absurd h (by simp)
      · rename_i l'' hrest
        obtain ⟨l₁, rec', l₂, rfl, rfl, hseq, hne, htok⟩ := ih hrest
        rw [Except.ok.injEq] at h
        exact ⟨rec :: l₁, rec', l₂, rfl, h.symm, hseq, hne, htok⟩
    · rename_i hseq
      split at h
      · exact absurd h (by simp)
      · rename_i htok
        rw [not_or, ne_eq, not_not] at htok
        rw [Except.ok.injEq] at h
        exact ⟨[], rec, l, rfl, h.symm, not_not.mp hseq, htok.1, htok.2⟩

theorem markLoop_forall₂ {seq : Int} {tok : GoString} {update : OutboxRecord → OutboxRecord}
    {l l' : List OutboxRecord} (h : markLoop seq tok update l = .ok l')
    (hstep : ∀ rec, rec.sequence = seq → rec.claimToken ≠ [] → rec.claimToken = tok →
      RecordStep c rec (update rec)) : List.Forall₂ (RecordStep c) l l' := by
  obtain ⟨l₁, rec, l₂, rfl, rfl, hseq, hne, htok⟩ := markLoop_eq_ok h
  refine List.rel_append (forall₂_recordStep_refl c l₁) ?_
  exact .cons (hstep rec hseq hne htok) (forall₂_recordStep_refl c l₂)

/-- A write steps each record and appends the events of the call. -/
theorem StoreStep.outbox_cases (hs : StoreStep H s i c r s') :
    ∃ old, s'.events = old ++ freshRecords s.nextSeq c.outbox ∧
      List.Forall₂ (RecordStep c) s.events old ∧
      s'.nextSeq = s.nextSeq + c.outbox.length := by
  cases hs with
  | inserted _ _ => exact ⟨s.events, by simp [StoreCall.outbox], forall₂_recordStep_refl _ _,
      by simp [StoreCall.outbox]⟩
  | claimed _ _ _ => exact ⟨s.events, by simp [StoreCall.outbox, freshRecords],
      forall₂_recordStep_refl _ _, by simp [StoreCall.outbox]⟩
  | recorded _ _ _ => exact ⟨s.events, by simp [StoreCall.outbox], forall₂_recordStep_refl _ _,
      by simp [StoreCall.outbox]⟩
  | released _ _ _ _ => exact ⟨s.events, by simp [StoreCall.outbox, freshRecords],
      forall₂_recordStep_refl _ _, by simp [StoreCall.outbox]⟩
  | reviewed _ _ => exact ⟨s.events, by simp [StoreCall.outbox], forall₂_recordStep_refl _ _,
      by simp [StoreCall.outbox]⟩
  | settled _ _ _ => exact ⟨s.events, by simp [StoreCall.outbox], forall₂_recordStep_refl _ _,
      by simp [StoreCall.outbox]⟩
  | @outboxClaimed now limit tok u =>
    refine ⟨_, ?_, claimLoop_forall₂ now tok u limit (batchLimit limit) s.events, ?_⟩
    · simp [StoreCall.outbox, freshRecords, MemoryStore.claimPendingOutbox]
    · simp [StoreCall.outbox, MemoryStore.claimPendingOutbox]
  | @outboxPublished _ _ _ events _ hmark =>
    refine ⟨events, by simp [StoreCall.outbox, freshRecords], ?_, by simp [StoreCall.outbox]⟩
    refine markLoop_forall₂ hmark fun rec hseq hne htok => ?_
    subst hseq
    exact .published hne htok
  | @outboxFailed _ _ _ _ events _ hmark =>
    refine ⟨events, by simp [StoreCall.outbox, freshRecords], ?_, by simp [StoreCall.outbox]⟩
    refine markLoop_forall₂ hmark fun rec hseq hne htok => ?_
    subst hseq
    exact .failed hne htok

/-- A write appends the events of the call to the log, and changes nothing
that is there. -/
theorem StoreStep.log (hs : StoreStep H s i c r s') :
    s'.events.map (·.entry) =
      s.events.map (·.entry) ++ (freshRecords s.nextSeq c.outbox).map (·.entry) := by
  obtain ⟨old, he, hold, -⟩ := hs.outbox_cases
  rw [he, List.map_append, forall₂_recordStep_entry hold]

theorem StoreStep.events_eq (hs : StoreStep H s i c r s') :
    s'.events.map (·.event) = s.events.map (·.event) ++ c.outbox := by
  have h := congrArg (List.map Prod.snd) hs.log
  simp only [List.map_append, List.map_map, Function.comp_def, OutboxRecord.entry] at h
  rwa [freshRecords_map_event] at h

theorem StoreStep.audit_eq (hs : StoreStep H s i c r s') : s'.audit = s.audit ++ c.audit := by
  cases hs with
  | inserted _ _ | recorded _ _ _ | reviewed _ _ | settled _ _ _ => simp [StoreCall.audit]
  | claimed _ _ _ | released _ _ _ _ => simp [StoreCall.audit]
  | outboxClaimed => simp [StoreCall.audit, MemoryStore.claimPendingOutbox]
  | outboxPublished _ _ | outboxFailed _ _ => simp [StoreCall.audit]

/-- A write that hands events or audit records over says so. -/
theorem StoreStep.wrote (hs : StoreStep H s i c r s') :
    c.wrote r = true ∨ (c.outbox = [] ∧ c.audit = []) := by
  cases hs with
  | inserted _ _ | recorded _ _ _ | reviewed _ _ | settled _ _ _ => exact .inl rfl
  | claimed _ _ _ | released _ _ _ _ => exact .inr ⟨rfl, rfl⟩
  | outboxClaimed => exact .inr ⟨rfl, rfl⟩
  | outboxPublished _ _ | outboxFailed _ _ => exact .inr ⟨rfl, rfl⟩

theorem Idle.not_wrote (h : Idle c r) : c.wrote r = false := by
  cases c with
  | insertTransfer t evs auds =>
    obtain ⟨e, rfl, -⟩ := h
    rfl
  | recordSPISubmission tn id tok m evs aud =>
    rcases r with e | ⟨t, replay⟩
    · rfl
    · cases replay with
      | false => exact absurd rfl (h t)
      | true => rfl
  | recordReviewDecision tn id st reason evs aud =>
    rcases r with e | t
    · rfl
    · exact absurd rfl (h t)
  | updateSettlement tn id cb evs aud =>
    rcases r with e | ⟨t, replay⟩
    · rfl
    · cases replay with
      | false => exact absurd rfl (h t)
      | true => rfl
  | _ => rfl

/-- The outbox is numbered from one, in append order. -/
def MemoryStore.Numbered (s : MemoryStore) : Prop :=
  s.nextSeq = s.events.length ∧
    s.events.map (·.sequence) = (List.range s.events.length).map fun (k : Nat) => (k : Int) + 1

theorem freshRecords_map_sequence (n : Nat) (outbox : List Event) :
    (freshRecords n outbox).map (·.sequence) =
      (List.range outbox.length).map fun (k : Nat) => ((n + k : Nat) : Int) + 1 := by
  induction outbox generalizing n with
  | nil => rfl
  | cons e outbox ih =>
    have hn : (n : Int) + 1 = ((n + 1 : Nat) : Int) := by push_cast; rfl
    rw [freshRecords, List.map_cons, hn, ih, List.length_cons, List.range_succ_eq_map]
    simp only [List.map_cons, List.map_map, Function.comp_def]
    congr 1
    refine List.map_congr_left fun k _ => ?_
    push_cast
    omega

theorem StoreStep.numbered (hs : StoreStep H s i c r s') (hn : s.Numbered) : s'.Numbered := by
  obtain ⟨hseq, hnum⟩ := hn
  obtain ⟨old, he, hold, hseq'⟩ := hs.outbox_cases
  have hlen : old.length = s.events.length := hold.length_eq.symm
  have hmap : old.map (·.sequence) = s.events.map (·.sequence) := by
    have := congrArg (List.map Prod.fst) (forall₂_recordStep_entry hold)
    simpa [OutboxRecord.entry, Function.comp_def] using this
  have hfresh : (freshRecords s.nextSeq c.outbox).length = c.outbox.length := by
    rw [← List.length_map (f := fun r => r.event), freshRecords_map_event]
  refine ⟨?_, ?_⟩
  · rw [hseq', hseq, he, List.length_append, hlen, hfresh]
    push_cast
    rfl
  · rw [he, List.map_append, hmap, hnum, hseq, freshRecords_map_sequence, ← hseq,
      List.length_append, hlen, hfresh, List.range_add, List.map_append, List.map_map]
    rfl

theorem MemoryStore.Numbered.pairwise (hn : s.Numbered) :
    s.events.Pairwise fun a b => a.sequence < b.sequence := by
  have hmap : (s.events.map (·.sequence)).Pairwise (· < ·) := by
    rw [hn.2, List.pairwise_map]
    refine List.pairwise_lt_range.imp fun hlt => ?_
    omega
  exact List.pairwise_map.mp hmap

end PixRail.Store
