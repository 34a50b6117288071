import PixRail.Postgres.Store
import PixRail.Store.Writes

/-!
# Rows and transfers

The calls on which the two stores are compared, and the relation `Agrees`
between an in-memory store and a database: the rows scan to the transfers,
and the outbox and the audit log hold the same records.  One lemma for each
statement of the Postgres store says that it is accepted and keeps the
relation, next to what the in-memory store does.
-/

namespace PixRail.Postgres

open Go Rail Events Store Sql

/-! ## Calls -/

/-- A call of one of the eight transfer operations. -/
inductive TransferCall where
  | insertTransfer (transfer : Transfer) (outbox : List Event) (audit : List AuditRecord)
  | findByIdempotency (tenantID key : GoString)
  | getTransfer (tenantID transferID : GoString)
  | claimSPISubmission (tenantID transferID claimToken : GoString) (claimUntil : Time)
  | recordSPISubmission (tenantID transferID claimToken : GoString) (message : SPIMessage)
      (outbox : List Event) (audit : AuditRecord)
  | releaseSPISubmission (tenantID transferID claimToken lastError : GoString) (retryAt : Time)
  | recordReviewDecision (tenantID transferID : GoString) (status : TransferStatus)
      (reason : GoString) (outbox : List Event) (audit : AuditRecord)
  | updateSettlement (tenantID transferID : GoString) (callback : SettlementCallback)
      (outbox : List Event) (audit : AuditRecord)

/-- The transfer and the replay flag that a call returns. -/
structure Reply where
  transfer : Option Transfer := none
  replay : Bool := false

/-- The reply of a call that returns a transfer and a replay flag. -/
def Reply.ofPair (r : Transfer × Bool) : Reply := ⟨some r.1, r.2⟩

/-- A call on the in-memory store, under a live context. -/
def memoryServe (H : Digest) (now : Time) (s : MemoryStore) :
    TransferCall → Except Err Reply × MemoryStore
  | .insertTransfer transfer outbox audit =>
    (s.insertTransfer transfer outbox audit).map (·.map fun _ => {}) id
  | .findByIdempotency tenantID key =>
    ((s.findByIdempotency none tenantID key).map (⟨·, false⟩), s)
  | .getTransfer tenantID transferID =>
    ((s.getTransfer tenantID transferID).map (⟨some ·, false⟩), s)
  | .claimSPISubmission tenantID transferID claimToken claimUntil =>
    (s.claimSPISubmission none now tenantID transferID claimToken claimUntil).map
      (·.map Reply.ofPair) id
  | .recordSPISubmission tenantID transferID claimToken message outbox audit =>
    (s.recordSPISubmission none tenantID transferID claimToken message outbox audit).map
      (·.map Reply.ofPair) id
  | .releaseSPISubmission tenantID transferID claimToken lastError retryAt =>
    (s.releaseSPISubmission none now tenantID transferID claimToken lastError retryAt).map
      (·.map fun _ => {}) id
  | .recordReviewDecision tenantID transferID status reason outbox audit =>
    (s.recordReviewDecision tenantID transferID status reason outbox audit).map
      (·.map (⟨some ·, false⟩)) id
  | .updateSettlement tenantID transferID callback outbox audit =>
    (s.updateSettlement H tenantID transferID callback outbox audit).map
      (·.map Reply.ofPair) id

/-- A call on the Postgres store. -/
def postgresServe (H : Digest) (now : Time) (db : Database) :
    TransferCall → Except Err Reply × Database
  | .insertTransfer transfer outbox audit =>
    (insertTransfer transfer outbox audit db).map (·.map fun _ => {}) id
  | .findByIdempotency tenantID key =>
    (findByIdempotency tenantID key db).map (·.map (⟨·, false⟩)) id
  | .getTransfer tenantID transferID =>
    (getTransfer tenantID transferID db).map (·.map (⟨some ·, false⟩)) id
  | .claimSPISubmission tenantID transferID claimToken claimUntil =>
    (claimSPISubmission now tenantID transferID claimToken claimUntil db).map
      (·.map Reply.ofPair) id
  | .recordSPISubmission tenantID transferID claimToken message outbox audit =>
    (recordSPISubmission tenantID transferID claimToken message outbox audit db).map
      (·.map Reply.ofPair) id
  | .releaseSPISubmission tenantID transferID claimToken lastError retryAt =>
    (releaseSPISubmission now tenantID transferID claimToken lastError retryAt db).map
      (·.map fun _ => {}) id
  | .recordReviewDecision tenantID transferID status reason outbox audit =>
    (recordReviewDecision tenantID transferID status reason outbox audit db).map
      (·.map (⟨some ·, false⟩)) id
  | .updateSettlement tenantID transferID callback outbox audit =>
    (updateSettlement H tenantID transferID callback outbox audit db).map
      (·.map Reply.ofPair) id

namespace TransferCall

/-- The tenant that a call names. -/
def tenantID : TransferCall → GoString
  | insertTransfer transfer _ _ => transfer.tenantID
  | findByIdempotency tenantID _ => tenantID
  | getTransfer tenantID _ => tenantID
  | claimSPISubmission tenantID _ _ _ => tenantID
  | recordSPISubmission tenantID _ _ _ _ _ => tenantID
  | releaseSPISubmission tenantID _ _ _ _ => tenantID
  | recordReviewDecision tenantID _ _ _ _ _ => tenantID
  | updateSettlement tenantID _ _ _ _ => tenantID

/-- The transfer that a call inserts. -/
def inserted : TransferCall → Option Transfer
  | insertTransfer transfer _ _ => some transfer
  | _ => none

/-- The events that a call hands over, with the transfer they belong to. -/
def outbox : TransferCall → List (GoString × Event)
  | insertTransfer transfer outbox _ => outbox.map (transfer.id, ·)
  | recordSPISubmission _ transferID _ _ outbox _ => outbox.map (transferID, ·)
  | recordReviewDecision _ transferID _ _ outbox _ => outbox.map (transferID, ·)
  | updateSettlement _ transferID _ outbox _ => outbox.map (transferID, ·)
  | _ => []

/-- The audit records that a call hands over, with the transfer they belong
to. -/
def audit : TransferCall → List (GoString × AuditRecord)
  | insertTransfer transfer _ audit => audit.map (transfer.id, ·)
  | recordSPISubmission _ transferID _ _ _ audit => [(transferID, audit)]
  | recordReviewDecision _ transferID _ _ _ audit => [(transferID, audit)]
  | updateSettlement _ transferID _ _ audit => [(transferID, audit)]
  | _ => []

/-- The SPI message id that a call gives to a transfer. -/
def messageID : TransferCall → List (GoString × GoString)
  | insertTransfer transfer _ _ => (nullif transfer.spiMessageID).toList.map (transfer.id, ·)
  | recordSPISubmission _ transferID _ message _ _ =>
    (nullif message.messageID).toList.map (transferID, ·)
  | _ => []

/-- The end-to-end id that a call gives to a transfer. -/
def endToEndID : TransferCall → List (GoString × GoString)
  | insertTransfer transfer _ _ => (nullif transfer.endToEndID).toList.map (transfer.id, ·)
  | recordSPISubmission _ transferID _ message _ _ =>
    (nullif message.endToEndID).toList.map (transferID, ·)
  | _ => []

/-- The ids of the events that a call hands over. -/
def eventIDs (c : TransferCall) : List GoString := c.outbox.map (·.2.eventID)

end TransferCall

/-- No identifier is given to two transfers. -/
def DistinctIDs (ids : List (GoString × GoString)) : Prop :=
  ∀ p ∈ ids, ∀ q ∈ ids, p.2 = q.2 → p.1 = q.1

instance (ids : List (GoString × GoString)) : Decidable (DistinctIDs ids) :=
  inferInstanceAs (Decidable (∀ p ∈ ids, ∀ q ∈ ids, p.2 = q.2 → p.1 = q.1))

/-- The sequences of calls on which the stores are compared. -/
@[mk_iff]
structure Admissible (calls : List TransferCall) : Prop where
  /-- Inserted transfers satisfy the column checks. -/
  checks : ∀ c ∈ calls, ∀ transfer ∈ c.inserted, columnChecks (transferRow transfer) = true
  /-- Tenant ids contain no colon. -/
  tenantIDs : ∀ c ∈ calls, 58 ∉ c.tenantID
  /-- Events and audit records name the transfer they are written with. -/
  events : ∀ c ∈ calls, ∀ p ∈ c.outbox, p.2.transferID = p.1
  audit : ∀ c ∈ calls, ∀ p ∈ c.audit, p.2.transferID = p.1
  /-- SPI message ids, end-to-end ids and event ids are distinct. -/
  messageIDs : DistinctIDs (calls.flatMap (·.messageID))
  endToEndIDs : DistinctIDs (calls.flatMap (·.endToEndID))
  eventIDs : (calls.flatMap (·.eventIDs)).Nodup

instance (calls : List TransferCall) : Decidable (Admissible calls) :=
  decidable_of_iff _ (admissible_iff calls).symm

/-! ## The relation -/

/-- The entry of the idempotency map that a row stands for. -/
def idempotencyEntry (row : TransferRow) : GoString × GoString :=
  (scopedKey row.tenantID row.idempotencyKey, row.id)

/-- The entry of the callbacks map that a row stands for. -/
def callbackEntry (row : CallbackRow) : GoString × GoString :=
  (scopedKey row.tenantID row.spiMessageID, row.callbackHash)

/-- The stores hold the same transfers, processed callbacks, events and audit
records. -/
structure SameContents (s : MemoryStore) (db : Database) : Prop where
  transfers : ∀ id, s.transfers.lookup id =
    (db.transfers.find? fun row => row.id = id).map scanTransfer
  callbacks : ∀ key hash, s.callbacks.lookup key = some hash ↔
    (key, hash) ∈ db.callbacks.rows.map callbackEntry
  events : outboxRecords db = s.events
  audit : auditRecords db = s.audit

/-- The stores after the calls of `past`: the same contents, and what the
keys of the tables need to know about the rows. -/
structure Agrees (past : List TransferCall) (s : MemoryStore) (db : Database) : Prop where
  transfers : ∀ id, s.transfers.lookup id =
    (db.transfers.find? fun row => row.id = id).map scanTransfer
  idempotency : ∀ key id, s.idempotency.lookup key = some id ↔
    (key, id) ∈ db.transfers.rows.map idempotencyEntry
  callbacks : ∀ key hash, s.callbacks.lookup key = some hash ↔
    (key, hash) ∈ db.callbacks.rows.map callbackEntry
  events : db.outbox.rows = s.events
  nextSeq : db.outboxSeq = s.nextSeq
  audit : db.audit.rows.map (·.record) = s.audit
  tenantIDs : ∀ row ∈ db.transfers.rows, 58 ∉ row.tenantID
  callbackTenantIDs : ∀ row ∈ db.callbacks.rows, 58 ∉ row.tenantID
  sequences : db.outbox.rows.Pairwise fun a b => a.sequence < b.sequence
  sequencesLe : ∀ row ∈ db.outbox.rows, row.sequence ≤ db.outboxSeq
  auditIDs : db.audit.rows.Pairwise fun a b => a.id < b.id
  auditIDsLe : ∀ row ∈ db.audit.rows, row.id ≤ db.auditSeq
  eventIDs : ∀ row ∈ db.outbox.rows, row.event.eventID ∈ past.flatMap (·.eventIDs)
  messageIDs : ∀ row ∈ db.transfers.rows, ∀ id ∈ row.spiMessageID,
    (row.id, id) ∈ past.flatMap (·.messageID)
  endToEndIDs : ∀ row ∈ db.transfers.rows, ∀ id ∈ row.endToEndID,
    (row.id, id) ∈ past.flatMap (·.endToEndID)

section agrees

variable {past : List TransferCall} {s : MemoryStore} {db : Database}

theorem agrees_empty : Agrees [] newMemoryStore Database.empty := by
  constructor <;> simp [newMemoryStore, Database.empty, Table.empty, Table.find?]

/-- A list that is in order is not changed by a sort. -/
theorem insertionSort_of_lt {α : Type} {f : α → Int} {l : List α}
    (h : l.Pairwise fun a b => f a < f b) : l.insertionSort (fun a b => f a ≤ f b) = l :=
  (h.imp fun hlt => le_of_lt hlt).insertionSort_eq

theorem Agrees.sameContents (h : Agrees past s db) : SameContents s db where
  transfers := h.transfers
  callbacks := h.callbacks
  events := by rw [outboxRecords, insertionSort_of_lt h.sequences, h.events]
  audit := by rw [auditRecords, insertionSort_of_lt h.auditIDs, h.audit]

/-- More calls give more identifiers. -/
theorem Agrees.mono (h : Agrees past s db) (c : TransferCall) : Agrees (past ++ [c]) s db where
  transfers := h.transfers
  idempotency := h.idempotency
  callbacks := h.callbacks
  events := h.events
  nextSeq := h.nextSeq
  audit := h.audit
  tenantIDs := h.tenantIDs
  callbackTenantIDs := h.callbackTenantIDs
  sequences := h.sequences
  sequencesLe := h.sequencesLe
  auditIDs := h.auditIDs
  auditIDsLe := h.auditIDsLe
  eventIDs := by
    intro row hrow
    rw [List.flatMap_append]
    exact List.mem_append_left _ (h.eventIDs row hrow)
  messageIDs := by
    intro row hrow id hid
    rw [List.flatMap_append]
    exact List.mem_append_left _ (h.messageIDs row hrow id hid)
  endToEndIDs := by
    intro row hrow id hid
    rw [List.flatMap_append]
    exact List.mem_append_left _ (h.endToEndIDs row hrow id hid)

/-! ## Reads -/

theorem pkey_pairwise (t : Table transferSchema) :
    t.rows.Pairwise fun a b => a.id ≠ b.id := by
  have h := t.unique ⟨go "pix_transfers_pkey", fun a b => a.id = b.id⟩ (by simp [transferSchema])
  simpa using h

/-- The lookup of a transfer by tenant and id. -/
theorem Agrees.owned (h : Agrees past s db) (tn id : GoString) :
    s.owned tn id = (db.transfers.find? (byID tn id)).map scanTransfer := by
  have hfind : db.transfers.find? (byID tn id) =
      (db.transfers.find? fun row => row.id = id).filter fun row => row.tenantID = tn :=
    Table.find?_and_key (pkey_pairwise db.transfers) (fun row => row.tenantID = tn) id
  unfold MemoryStore.owned
  rw [h.transfers id, hfind]
  cases db.transfers.find? fun row => row.id = id with
  | none => rfl
  | some row =>
    by_cases htn : row.tenantID = tn
    · simp [htn, scanTransfer]
    · simp [htn, scanTransfer]

/-- The lookup of a transfer by its idempotency key. -/
theorem Agrees.found (h : Agrees past s db) {tn : GoString} (htn : 58 ∉ tn) (key : GoString) :
    s.findByIdempotency none tn key =
      .ok ((db.transfers.find? (byIdempotencyKey tn key)).map scanTransfer) := by
  have hkey : ∀ row ∈ db.transfers.rows,
      scopedKey row.tenantID row.idempotencyKey = scopedKey tn key ↔
        byIdempotencyKey tn key row = true := by
    intro row hrow
    constructor
    · intro he
      obtain ⟨rfl, rfl⟩ := scopedKey_inj (h.tenantIDs row hrow) htn he
      simp [byIdempotencyKey]
    · intro he
      rw [byIdempotencyKey, Bool.and_eq_true, decide_eq_true_eq, decide_eq_true_eq] at he
      rw [he.1, he.2]
  unfold MemoryStore.findByIdempotency
  simp only
  cases hfind : db.transfers.find? (byIdempotencyKey tn key) with
  | none =>
    have hnone : s.idempotency.lookup (scopedKey tn key) = none := by
      rw [Option.eq_none_iff_forall_ne_some]
      intro id hid
      obtain ⟨row, hrow, he⟩ := List.mem_map.mp ((h.idempotency _ _).mp hid)
      exact List.find?_eq_none.mp hfind row hrow ((hkey row hrow).mp (congrArg Prod.fst he))
    rw [hnone]
    rfl
  | some row =>
    have hrow := List.mem_of_find?_eq_some hfind
    have hid : s.idempotency.lookup (scopedKey tn key) = some row.id := by
      rw [h.idempotency, ← (hkey row hrow).mpr (List.find?_some hfind)]
      exact List.mem_map_of_mem hrow
    have hlookup : db.transfers.find? (fun r => r.id = row.id) = some row :=
      Table.find?_key (pkey_pairwise db.transfers) hrow
    rw [hid]
    simp only
    rw [h.transfers, hlookup]

/-- The lookup of a processed callback. -/
theorem Agrees.processed (h : Agrees past s db) {tn : GoString} (htn : 58 ∉ tn)
    (msg : GoString) : s.callbacks.lookup (scopedKey tn msg) =
      (db.callbacks.find? fun row => row.tenantID = tn && row.spiMessageID = msg).map
        (·.callbackHash) := by
  cases hfind : db.callbacks.find? fun row => row.tenantID = tn && row.spiMessageID = msg with
  | none =>
    rw [Option.map_none, Option.eq_none_iff_forall_ne_some]
    intro hash hhash
    obtain ⟨row, hrow, he⟩ := List.mem_map.mp ((h.callbacks _ _).mp hhash)
    obtain ⟨htn', hmsg⟩ := scopedKey_inj (h.callbackTenantIDs row hrow) htn
      (congrArg Prod.fst he)
    exact List.find?_eq_none.mp hfind row hrow (by simp [htn', hmsg])
  | some row =>
    have hp := List.find?_some hfind
    rw [Bool.and_eq_true, decide_eq_true_eq, decide_eq_true_eq] at hp
    rw [Option.map_some, h.callbacks, ← hp.1, ← hp.2]
    exact List.mem_map_of_mem (List.mem_of_find?_eq_some hfind)

/-! ## Writes -/

theorem sameValue_eq_false {a b : Option GoString} :
    sameValue a b = false ↔ ∀ x, a = some x → b ≠ some x := by
  cases a with
  | none => simp [sameValue]
  | some x =>
    simp only [sameValue, Option.isSome_some, Bool.true_and, beq_eq_false_iff_ne, ne_eq,
      Option.some.injEq, forall_eq']
    exact ⟨Ne.symm, Ne.symm⟩

theorem Agrees.referenced (h : Agrees past s db) {id : GoString} {t : Transfer}
    (ht : s.transfers.lookup id = some t) : referenced db id = true := by
  rw [h.transfers id] at ht
  obtain ⟨row, hrow, -⟩ := Option.map_eq_some_iff.mp ht
  have hid : decide (row.id = id) = true := by simpa using List.find?_some hrow
  rw [Postgres.referenced, List.any_eq_true]
  exact ⟨row, List.mem_of_find?_eq_some hrow, hid⟩

theorem eq_of_id {t : Table transferSchema} {a b : TransferRow} (ha : a ∈ t.rows)
    (hb : b ∈ t.rows) (h : a.id = b.id) : a = b := by
  have hfind := Table.find?_key (pkey_pairwise t) ha
  rw [h, Table.find?_key (pkey_pairwise t) hb] at hfind
  exact (Option.some.inj hfind).symm

theorem byID_eq_true {tn id : GoString} {row : TransferRow} :
    byID tn id row = true ↔ row.tenantID = tn ∧ row.id = id := by
  rw [byID, Bool.and_eq_true, decide_eq_true_eq, decide_eq_true_eq]

/-- An identifier of a row is shared with no other row. -/
theorem shared_eq_false {rows : List TransferRow} {column : TransferRow → Option GoString}
    {ids : List (GoString × GoString)} (hd : DistinctIDs ids)
    (hrows : ∀ row ∈ rows, ∀ id ∈ column row, (row.id, id) ∈ ids) {r b : TransferRow}
    (hr : ∀ id ∈ column r, (r.id, id) ∈ ids) (hb : b ∈ rows) (hne : b.id ≠ r.id) :
    sameValue (column r) (column b) = false ∧ sameValue (column b) (column r) = false := by
  have hdiff : ∀ x, column r = some x → column b ≠ some x := by
    intro x hx hbx
    exact hne (hd _ (hrows b hb x hbx) _ (hr x hx) rfl)
  exact ⟨sameValue_eq_false.mpr hdiff, sameValue_eq_false.mpr fun x hx hrx => hdiff x hrx hx⟩

/-- An update that leaves the names of the transfer as they are. -/
structure KeepsNames (f : TransferRow → TransferRow) : Prop where
  id : ∀ r, (f r).id = r.id
  tenantID : ∀ r, (f r).tenantID = r.tenantID
  idempotencyKey : ∀ r, (f r).idempotencyKey = r.idempotencyKey

section update

variable {tn id : GoString} {row : TransferRow} {f : TransferRow → TransferRow}

/-- The database accepts the update of a transfer. -/
theorem Agrees.update_accepted (h : Agrees past s db)
    (hmd : DistinctIDs (past.flatMap (·.messageID)))
    (hed : DistinctIDs (past.flatMap (·.endToEndID)))
    (hrow : db.transfers.find? (byID tn id) = some row) (hkeep : KeepsNames f)
    (hcheck : columnChecks (f row) = true)
    (hmsg : ∀ x ∈ (f row).spiMessageID, (row.id, x) ∈ past.flatMap (·.messageID))
    (he2e : ∀ x ∈ (f row).endToEndID, (row.id, x) ∈ past.flatMap (·.endToEndID)) :
    ∃ t, db.transfers.update (byID tn id) f = .ok t ∧
      t.rows = Table.updated (byID tn id) f db.transfers.rows := by
  have hmem := List.mem_of_find?_eq_some hrow
  obtain ⟨-, hid⟩ := byID_eq_true.mp (List.find?_some hrow)
  -- the row is the only one that the statement touches
  have honly : ∀ r ∈ db.transfers.rows, byID tn id r = true → r = row := by
    intro r hr hbr
    exact eq_of_id hr hmem (by rw [(byID_eq_true.mp hbr).2, hid])
  refine Table.update_ok db.transfers ?_ ?_ ?_
  · refine (pkey_pairwise db.transfers).imp_of_mem ?_
    rintro a b ha hb hne ⟨hpa, hpb⟩
    exact hne (by rw [honly a ha hpa, honly b hb hpb])
  · intro a ha hpa
    rw [honly a ha hpa]
    exact hcheck
  · intro k hk a ha hpa b hb hpb
    obtain rfl := honly a ha hpa
    have hne : b.id ≠ (f a).id := by
      intro he
      obtain rfl := eq_of_id hb ha (by rw [he, hkeep.id])
      exact absurd hpa (by simp [hpb])
    simp only [transferSchema, List.mem_cons, List.not_mem_nil, or_false] at hk
    rcases hk with rfl | rfl | rfl | rfl
    · simp [hkeep.id]
    · have hsh := shared_eq_false hed h.endToEndIDs (by rw [hkeep.id]; exact he2e) hb hne
      exact ⟨fun _ => hsh.1, fun _ => hsh.2⟩
    · have hsh := shared_eq_false hmd h.messageIDs (by rw [hkeep.id]; exact hmsg) hb hne
      exact ⟨fun _ => hsh.1, fun _ => hsh.2⟩
    · simp [hkeep.tenantID, hkeep.idempotencyKey]

/-- After the update the rows scan to the store with the new transfer. -/
theorem Agrees.updated (h : Agrees past s db)
    (hrow : db.transfers.find? (byID tn id) = some row) (hkeep : KeepsNames f)
    (hmsg : ∀ x ∈ (f row).spiMessageID, (row.id, x) ∈ past.flatMap (·.messageID))
    (he2e : ∀ x ∈ (f row).endToEndID, (row.id, x) ∈ past.flatMap (·.endToEndID))
    {t : Table transferSchema}
    (ht : t.rows = Table.updated (byID tn id) f db.transfers.rows) :
    Agrees past (s.putTransfer (scanTransfer (f row))) { db with transfers := t } := by
  have hmem := List.mem_of_find?_eq_some hrow
  have hself := List.find?_some hrow
  obtain ⟨-, hid⟩ := byID_eq_true.mp hself
  -- a row of the new table is the updated one or an old one
  have hcases : ∀ {r}, r ∈ t.rows →
      r = f row ∨ r ∈ db.transfers.rows := by
    intro r hr
    rw [ht] at hr
    obtain ⟨a, ha, rfl⟩ := Table.mem_updated hr
    by_cases hpa : byID tn id a = true
    · rw [if_pos hpa, eq_of_id ha hmem (by rw [(byID_eq_true.mp hpa).2, hid])]
      exact .inl rfl
    · rw [if_neg hpa]
      exact .inr ha
  exact
    { h with
      transfers := by
        intro id'
        have hfind : t.find? (fun r => r.id = id') = (db.transfers.find? fun r => r.id = id').map
            fun r => if byID tn id r then f r else r := by
          rw [Table.find?, ht, Table.find?_updated (fun r _ => by rw [hkeep.id])]
          rfl
        rw [hfind, MemoryStore.putTransfer_transfers]
        by_cases he : id' = row.id
        · subst he
          have hl := Table.find?_key (pkey_pairwise db.transfers) hmem
          rw [show (scanTransfer (f row)).id = row.id from hkeep.id row, Finmap.lookup_insert,
            Table.find?, hl, Option.map_some, if_pos hself, Option.map_some]
        · rw [show (scanTransfer (f row)).id = row.id from hkeep.id row,
            Finmap.lookup_insert_of_ne _ he, h.transfers]
          cases hl : db.transfers.find? fun r => r.id = id' with
          | none => rfl
          | some r =>
            have hr : r.id = id' := by simpa using List.find?_some hl
            have hno : ¬ byID tn id r = true := by
              intro hb
              exact he (by rw [← hr, (byID_eq_true.mp hb).2, hid])
            simp [hno]
      idempotency := by
        intro key id'
        have hmap : t.rows.map idempotencyEntry = db.transfers.rows.map idempotencyEntry := by
          rw [ht]
          refine Table.map_updated (fun r => ?_) _
          rw [idempotencyEntry, hkeep.id, hkeep.tenantID, hkeep.idempotencyKey, idempotencyEntry]
        rw [hmap]
        exact h.idempotency key id'
      tenantIDs := by
        intro r hr
        rcases hcases hr with rfl | hr
        · rw [hkeep.tenantID]
          exact h.tenantIDs row hmem
        · exact h.tenantIDs r hr
      messageIDs := by
        intro r hr x hx
        rcases hcases hr with rfl | hr
        · rw [hkeep.id]
          exact hmsg x hx
        · exact h.messageIDs r hr x hx
      endToEndIDs := by
        intro r hr x hx
        rcases hcases hr with rfl | hr
        · rw [hkeep.id]
          exact he2e x hx
        · exact h.endToEndIDs r hr x hx }

end update

/-- An event with a new id is appended to both outboxes. -/
theorem Agrees.insertOutbox (h : Agrees past s db) {e : Event} {t : Transfer}
    (ht : s.transfers.lookup e.transferID = some t)
    (hid : e.eventID ∈ past.flatMap (·.eventIDs))
    (hfresh : ∀ row ∈ db.outbox.rows, row.event.eventID ≠ e.eventID) :
    ∃ db', insertOutbox e db = (.ok (), db') ∧ Agrees past (s.appendEventsLocked [e]) db' ∧
      ∀ row ∈ db'.outbox.rows, row ∈ db.outbox.rows ∨ row.event = e := by
  obtain ⟨outbox, hins, hrows⟩ : ∃ outbox, db.outbox.insert
      { sequence := db.outboxSeq + 1, event := e, availableAt := e.occurredAt } = .ok outbox ∧
      outbox.rows = db.outbox.rows ++
        [{ sequence := db.outboxSeq + 1, event := e, availableAt := e.occurredAt }] := by
    refine Table.insert_ok db.outbox rfl ?_
    intro k hk a ha
    simp only [outboxSchema, List.mem_cons, List.not_mem_nil, or_false] at hk
    rcases hk with rfl | rfl
    · have := h.sequencesLe a ha
      simp only [decide_eq_false_iff_not]
      omega
    · simpa using hfresh a ha
  refine ⟨{ db with outbox := outbox, outboxSeq := db.outboxSeq + 1 }, ?_, ?_, ?_⟩
  · have href : Postgres.referenced { db with outboxSeq := db.outboxSeq + 1 } e.transferID = true :=
      h.referenced ht
    simp [Postgres.insertOutbox, hins, href]
  · exact
      { h with
        events := by
          rw [hrows, h.events, h.nextSeq]
          rfl
        nextSeq := by
          show db.outboxSeq + 1 = s.nextSeq + 1
          rw [h.nextSeq]
        sequences := by
          rw [hrows]
          refine List.pairwise_append.mpr ⟨h.sequences, List.pairwise_singleton _ _, ?_⟩
          intro a ha b hb
          have := h.sequencesLe a ha
          rw [List.mem_singleton.mp hb]
          show a.sequence < db.outboxSeq + 1
          omega
        sequencesLe := by
          intro row hrow
          rw [hrows] at hrow
          rcases List.mem_append.mp hrow with hrow | hrow
          · have := h.sequencesLe row hrow
            show row.sequence ≤ db.outboxSeq + 1
            omega
          · rw [List.mem_singleton.mp hrow]
        eventIDs := by
          intro row hrow
          rw [hrows] at hrow
          rcases List.mem_append.mp hrow with hrow | hrow
          · exact h.eventIDs row hrow
          · rw [List.mem_singleton.mp hrow]
            exact hid }
  · intro row hrow
    rw [hrows] at hrow
    rcases List.mem_append.mp hrow with hrow | hrow
    · exact .inl hrow
    · rw [List.mem_singleton.mp hrow]
      exact .inr rfl

/-- The loop over the events of a call. -/
theorem Agrees.insertOutboxAll (h : Agrees past s db) {evs : List Event}
    (href : ∀ e ∈ evs, ∃ t, s.transfers.lookup e.transferID = some t)
    (hids : ∀ e ∈ evs, e.eventID ∈ past.flatMap (·.eventIDs))
    (hnodup : (evs.map (·.eventID)).Nodup)
    (hfresh : ∀ e ∈ evs, ∀ row ∈ db.outbox.rows, row.event.eventID ≠ e.eventID) :
    ∃ db', insertOutboxAll evs db = (.ok (), db') ∧ Agrees past (s.appendEventsLocked evs) db' := by
  induction evs generalizing s db with
  | nil => exact ⟨db, rfl, h⟩
  | cons e evs ih =>
    obtain ⟨t, ht⟩ := href e List.mem_cons_self
    rw [List.map_cons, List.nodup_cons] at hnodup
    obtain ⟨db₁, hrun₁, h₁, hrows⟩ := h.insertOutbox ht (hids e List.mem_cons_self)
      (hfresh e List.mem_cons_self)
    obtain ⟨db₂, hrun₂, h₂⟩ := ih h₁ (fun e' he' => href e' (List.mem_cons_of_mem _ he'))
      (fun e' he' => hids e' (List.mem_cons_of_mem _ he')) hnodup.2 (by
        intro e' he' row hrow
        rcases hrows row hrow with hrow | hrow
        · exact hfresh e' (List.mem_cons_of_mem _ he') row hrow
        · rw [hrow]
          intro heq
          exact hnodup.1 (List.mem_map.mpr ⟨e', he', heq.symm⟩))
    exact ⟨db₂, (bind_ok hrun₁).trans hrun₂, h₂⟩

theorem Agrees.insertAudit (h : Agrees past s db) (record : AuditRecord) {t : Transfer}
    (ht : s.transfers.lookup record.transferID = some t) :
    ∃ db', insertAudit record db = (.ok (), db') ∧ Agrees past (s.appendAudit [record]) db' := by
  obtain ⟨audit, hins, hrows⟩ : ∃ audit, db.audit.insert ⟨db.auditSeq + 1, record⟩ = .ok audit ∧
      audit.rows = db.audit.rows ++ [⟨db.auditSeq + 1, record⟩] := by
    refine Table.insert_ok db.audit rfl ?_
    intro k hk a ha
    simp only [auditSchema, List.mem_cons, List.not_mem_nil, or_false] at hk
    subst hk
    have := h.auditIDsLe a ha
    simp only [decide_eq_false_iff_not]
    omega
  refine ⟨{ db with audit := audit, auditSeq := db.auditSeq + 1 }, ?_, ?_⟩
  · have href : Postgres.referenced { db with auditSeq := db.auditSeq + 1 } record.transferID =
        true := h.referenced ht
    simp [Postgres.insertAudit, hins, href]
  · exact
      { h with
        audit := by
          show audit.rows.map (·.record) = s.audit ++ [record]
          rw [hrows, List.map_append, h.audit]
          rfl
        auditIDs := by
          rw [hrows]
          refine List.pairwise_append.mpr ⟨h.auditIDs, List.pairwise_singleton _ _, ?_⟩
          intro a ha b hb
          have := h.auditIDsLe a ha
          rw [List.mem_singleton.mp hb]
          show a.id < db.auditSeq + 1
          omega
        auditIDsLe := by
          intro row hrow
          rw [hrows] at hrow
          rcases List.mem_append.mp hrow with hrow | hrow
          · have := h.auditIDsLe row hrow
            show row.id ≤ db.auditSeq + 1
            omega
          · rw [List.mem_singleton.mp hrow] }

theorem Agrees.insertAuditAll (h : Agrees past s db) (records : List AuditRecord)
    (href : ∀ r ∈ records, ∃ t, s.transfers.lookup r.transferID = some t) :
    ∃ db', insertAuditAll records db = (.ok (), db') ∧ Agrees past (s.appendAudit records) db' := by
  induction records generalizing s db with
  | nil => exact ⟨db, rfl, by simpa [MemoryStore.appendAudit] using h⟩
  | cons r records ih =>
    obtain ⟨t, ht⟩ := href r List.mem_cons_self
    obtain ⟨db₁, hrun₁, h₁⟩ := h.insertAudit r ht
    obtain ⟨db₂, hrun₂, h₂⟩ := ih h₁ fun r' hr' => href r' (List.mem_cons_of_mem _ hr')
    refine ⟨db₂, (bind_ok hrun₁).trans hrun₂, ?_⟩
    simpa [MemoryStore.appendAudit] using h₂

/-- A map entry goes with a new row. -/
theorem lookup_insert_iff {R : Type} {m : GoMap GoString GoString} {rows : List R}
    {entry : R → GoString × GoString}
    (h : ∀ key v, m.lookup key = some v ↔ (key, v) ∈ rows.map entry) {r : R}
    (hnone : m.lookup (entry r).1 = none) (key v : GoString) :
    (m.insert (entry r).1 (entry r).2).lookup key = some v ↔
      (key, v) ∈ (rows ++ [r]).map entry := by
  rw [List.map_append, List.mem_append, ← h key v, List.map_singleton, List.mem_singleton]
  by_cases hkey : key = (entry r).1
  · subst hkey
    rw [Finmap.lookup_insert, hnone, Option.some.injEq]
    constructor
    · rintro rfl
      exact .inr rfl
    · rintro (he | he)
      · exact absurd he (by simp)
      · exact (congrArg Prod.snd he).symm
  · rw [Finmap.lookup_insert_of_ne _ hkey]
    constructor
    · exact .inl
    · rintro (he | he)
      · exact he
      · exact absurd (congrArg Prod.fst he) hkey

/-- A new transfer with a new idempotency key is inserted in both stores. -/
theorem Agrees.insertTransferRow (h : Agrees past s db)
    (hmd : DistinctIDs (past.flatMap (·.messageID)))
    (hed : DistinctIDs (past.flatMap (·.endToEndID))) {t : Transfer}
    (hcheck : columnChecks (transferRow t) = true) (htn : 58 ∉ t.tenantID)
    (hmsg : ∀ x ∈ nullif t.spiMessageID, (t.id, x) ∈ past.flatMap (·.messageID))
    (he2e : ∀ x ∈ nullif t.endToEndID, (t.id, x) ∈ past.flatMap (·.endToEndID))
    (hid : s.transfers.lookup t.id = none) (hkey : s.idempotency.lookup (idemKey t) = none) :
    ∃ db', insertTransferRow t db = (.ok (), db') ∧
      Agrees past
        { s.putTransfer t with idempotency := s.idempotency.insert (idemKey t) t.id } db' := by
  have hids : ∀ a ∈ db.transfers.rows, a.id ≠ t.id := by
    intro a ha he
    have hl := Table.find?_key (pkey_pairwise db.transfers) ha
    rw [he] at hl
    rw [h.transfers, Table.find?, hl] at hid
    exact absurd hid (by simp)
  have hkeys : ∀ a ∈ db.transfers.rows, ¬ (a.tenantID = t.tenantID ∧
      a.idempotencyKey = t.idempotencyKey) := by
    rintro a ha ⟨hten, hidem⟩
    have hmem : (idemKey t, a.id) ∈ db.transfers.rows.map idempotencyEntry := by
      refine List.mem_map.mpr ⟨a, ha, ?_⟩
      rw [idempotencyEntry, hten, hidem]
      rfl
    rw [(h.idempotency _ _).mpr hmem] at hkey
    exact absurd hkey (by simp)
  obtain ⟨transfers, hins, hrows⟩ : ∃ transfers, db.transfers.insert (transferRow t) =
      .ok transfers ∧ transfers.rows = db.transfers.rows ++ [transferRow t] := by
    refine Table.insert_ok db.transfers hcheck ?_
    intro k hk a ha
    simp only [transferSchema, List.mem_cons, List.not_mem_nil, or_false] at hk
    rcases hk with rfl | rfl | rfl | rfl
    · exact decide_eq_false (hids a ha)
    · exact (shared_eq_false hed h.endToEndIDs (r := transferRow t) he2e ha (hids a ha)).2
    · exact (shared_eq_false hmd h.messageIDs (r := transferRow t) hmsg ha (hids a ha)).2
    · rw [Bool.and_eq_false_iff, decide_eq_false_iff_not, decide_eq_false_iff_not]
      exact not_and_or.mp (hkeys a ha)
  refine ⟨{ db with transfers := transfers }, by simp [Postgres.insertTransferRow, hins], ?_⟩
  exact
    { h with
      transfers := by
        intro id
        show (s.transfers.insert t.id t).lookup id = _
        rw [Table.find?, hrows, List.find?_append]
        by_cases he : id = t.id
        · subst he
          have hnone : db.transfers.rows.find? (fun row => row.id = t.id) = none :=
            List.find?_eq_none.mpr (by simpa using hids)
          rw [Finmap.lookup_insert, hnone, Option.none_or]
          rw [List.find?_cons_of_pos (by simp [transferRow]), Option.map_some, scan_transferRow]
        · rw [Finmap.lookup_insert_of_ne _ he, h.transfers, Table.find?]
          cases hl : db.transfers.rows.find? (fun row => row.id = id) with
          | some row => rfl
          | none => simp [transferRow, Ne.symm he]
      idempotency := by
        intro key id
        rw [hrows]
        exact lookup_insert_iff (r := transferRow t) h.idempotency hkey key id
      tenantIDs := by
        intro row hrow
        rw [hrows] at hrow
        rcases List.mem_append.mp hrow with hrow | hrow
        · exact h.tenantIDs row hrow
        · rw [List.mem_singleton.mp hrow]
          exact htn
      messageIDs := by
        intro row hrow
        rw [hrows] at hrow
        rcases List.mem_append.mp hrow with hrow | hrow
        · exact h.messageIDs row hrow
        · rw [List.mem_singleton.mp hrow]
          exact hmsg
      endToEndIDs := by
        intro row hrow
        rw [hrows] at hrow
        rcases List.mem_append.mp hrow with hrow | hrow
        · exact h.endToEndIDs row hrow
        · rw [List.mem_singleton.mp hrow]
          exact he2e }

/-- A transfer id or an idempotency key that is in use is refused. -/
theorem Agrees.insertTransferRow_conflict (h : Agrees past s db) {t : Transfer}
    (hcheck : columnChecks (transferRow t) = true) (htn : 58 ∉ t.tenantID)
    (hused : s.transfers.lookup t.id ≠ none ∨ s.idempotency.lookup (idemKey t) ≠ none) :
    ∃ name, Postgres.insertTransferRow t db = (.error (ErrKind.conflict.wrap name), db) := by
  obtain ⟨k, hk, a, ha, hshared⟩ : ∃ k ∈ transferSchema.keys, ∃ a ∈ db.transfers.rows,
      k.shared a (transferRow t) = true := by
    rcases hused with hid | hkey
    · obtain ⟨t', ht'⟩ := Option.ne_none_iff_exists'.mp hid
      rw [h.transfers] at ht'
      obtain ⟨row, hrow, -⟩ := Option.map_eq_some_iff.mp ht'
      refine ⟨⟨go "pix_transfers_pkey", fun a b => a.id = b.id⟩, by simp [transferSchema], row,
        List.mem_of_find?_eq_some hrow, ?_⟩
      have hid := List.find?_some hrow
      exact hid
    · obtain ⟨id, hid⟩ := Option.ne_none_iff_exists'.mp hkey
      obtain ⟨row, hrow, he⟩ := List.mem_map.mp ((h.idempotency _ _).mp hid)
      obtain ⟨hten, hidem⟩ := scopedKey_inj (h.tenantIDs row hrow) htn (congrArg Prod.fst he)
      refine ⟨⟨go "pix_transfers_tenant_id_idempotency_key_key", fun a b =>
        a.tenantID = b.tenantID && a.idempotencyKey = b.idempotencyKey⟩,
        by simp [transferSchema], row, hrow, ?_⟩
      simp [hten, hidem, transferRow]
  obtain ⟨name, hins⟩ := Table.insert_unique db.transfers hcheck hk ha hshared
  exact ⟨name, by simp [Postgres.insertTransferRow, hins, translatePgError]⟩

/-- A new callback is filed in both stores. -/
theorem Agrees.insertCallback (h : Agrees past s db) (row : CallbackRow)
    (htn : 58 ∉ row.tenantID)
    (hnone : s.callbacks.lookup (scopedKey row.tenantID row.spiMessageID) = none) :
    ∃ db', insertCallback row db = (.ok (), db') ∧
      Agrees past
        { s with
          callbacks :=
            s.callbacks.insert (scopedKey row.tenantID row.spiMessageID) row.callbackHash }
        db' := by
  obtain ⟨callbacks, hins, hrows⟩ : ∃ callbacks, db.callbacks.insert row = .ok callbacks ∧
      callbacks.rows = db.callbacks.rows ++ [row] := by
    refine Table.insert_ok db.callbacks rfl ?_
    intro k hk a ha
    simp only [callbackSchema, List.mem_cons, List.not_mem_nil, or_false] at hk
    subst hk
    rw [Bool.eq_false_iff]
    intro hshared
    simp only [Bool.and_eq_true, decide_eq_true_eq] at hshared
    have hmem : (scopedKey row.tenantID row.spiMessageID, a.callbackHash) ∈
        db.callbacks.rows.map callbackEntry := by
      rw [← hshared.1.1, ← hshared.1.2]
      exact List.mem_map_of_mem ha
    rw [(h.callbacks _ _).mpr hmem] at hnone
    exact absurd hnone (by simp)
  refine ⟨{ db with callbacks := callbacks }, by simp [Postgres.insertCallback, hins], ?_⟩
  exact
    { h with
      callbacks := by
        intro key hash
        rw [hrows]
        exact lookup_insert_iff h.callbacks hnone key hash
      callbackTenantIDs := by
        intro r hr
        rw [hrows] at hr
        rcases List.mem_append.mp hr with hr | hr
        · exact h.callbackTenantIDs r hr
        · rw [List.mem_singleton.mp hr]
          exact htn }

end agrees

end PixRail.Postgres
