import PixRail.Postgres.Relation
import PixRail.Switcher.Sample

/-!
# The two stores on transfers

The in-memory store replaces a transfer by the result of its transition; the
Postgres store updates a handful of columns.  Every call keeps the two in
agreement and is answered alike (`step_agrees`), so no sequence of calls can
tell them apart (`stores_agree`).
-/

namespace PixRail.Postgres

open Go Rail Events Store Sql

/-! ## Every call -/

/-- Two errors of the same class. -/
def SameClass (e e' : Err) : Prop :=
  ∀ k ∈ [ErrKind.notFound, .conflict, .validation], e.is k ↔ e'.is k

/-- Two answers with the same transfer, replay flag and error class. -/
def SameAnswer : Except Err Reply → Except Err Reply → Prop
  | .ok r, .ok r' => r = r'
  | .error e, .error e' => SameClass e e'
  | _, _ => False

theorem SameAnswer.refl (r : Except Err Reply) : SameAnswer r r := by
  cases r with
  | ok r => exact rfl
  | error e => exact fun k _ => Iff.rfl

/-- Both stores answer alike and go on to agree. -/
def Matches (past : List TransferCall) (x : Except Err Reply × MemoryStore)
    (y : Except Err Reply × Database) : Prop :=
  SameAnswer x.1 y.1 ∧ Agrees past x.2 y.2

/-- What a call on its own gives to the tables, after the calls of `past`. -/
structure Admits (past : List TransferCall) (c : TransferCall) : Prop where
  checks : ∀ transfer ∈ c.inserted, columnChecks (transferRow transfer) = true
  tenantID : 58 ∉ c.tenantID
  events : ∀ p ∈ c.outbox, p.2.transferID = p.1
  audit : ∀ p ∈ c.audit, p.2.transferID = p.1
  messageIDs : DistinctIDs ((past ++ [c]).flatMap (·.messageID))
  endToEndIDs : DistinctIDs ((past ++ [c]).flatMap (·.endToEndID))
  eventIDs : c.eventIDs.Nodup
  newEventIDs : ∀ id ∈ c.eventIDs, id ∉ past.flatMap (·.eventIDs)

theorem DistinctIDs.mono {l l' : List (GoString × GoString)} (h : DistinctIDs l') (hsub : l ⊆ l') :
    DistinctIDs l :=
  fun p hp q hq => h p (hsub hp) q (hsub hq)

theorem Admissible.admits {past rest : List TransferCall} {c : TransferCall}
    (h : Admissible (past ++ c :: rest)) : Admits past c := by
  have hc : c ∈ past ++ c :: rest := List.mem_append_right _ List.mem_cons_self
  have hsub : ∀ {α : Type} (f : TransferCall → List α),
      (past ++ [c]).flatMap f ⊆ (past ++ c :: rest).flatMap f := by
    intro α f x hx
    rw [List.append_cons, List.flatMap_append]
    exact List.mem_append_left _ hx
  have hnodup := h.eventIDs
  rw [List.flatMap_append, List.flatMap_cons] at hnodup
  obtain ⟨-, hrest, hdisj⟩ := List.nodup_append.mp hnodup
  exact
    { checks := h.checks c hc
      tenantID := h.tenantIDs c hc
      events := h.events c hc
      audit := h.audit c hc
      messageIDs := h.messageIDs.mono (hsub _)
      endToEndIDs := h.endToEndIDs.mono (hsub _)
      eventIDs := (List.nodup_append.mp hrest).1
      newEventIDs := fun id hid hold =>
        hdisj id hold id (List.mem_append_left _ hid) rfl }

section steps

variable {H : Digest} {now : Time} {past : List TransferCall} {s : MemoryStore} {db : Database}

theorem mem_past_snoc {α : Type} {f : TransferCall → List α} {c : TransferCall} {x : α}
    (h : x ∈ f c) : x ∈ (past ++ [c]).flatMap f := by
  rw [List.flatMap_append]
  exact List.mem_append_right _ (by simpa using h)

theorem find_agrees (h : Agrees past s db) {tn : GoString} (htn : 58 ∉ tn) (key : GoString) :
    Matches past (memoryServe H now s (.findByIdempotency tn key))
      (postgresServe H now db (.findByIdempotency tn key)) := by
  refine ⟨?_, h⟩
  show SameAnswer ((s.findByIdempotency none tn key).map _) (.ok _)
  rw [h.found htn]
  exact .refl _

theorem get_agrees (h : Agrees past s db) (tn id : GoString) :
    Matches past (memoryServe H now s (.getTransfer tn id))
      (postgresServe H now db (.getTransfer tn id)) := by
  simp only [memoryServe, postgresServe, MemoryStore.getTransfer, getTransfer, select_bind,
    h.owned tn id]
  cases (db.transfers.find? (byID tn id)).map scanTransfer with
  | none => exact ⟨.refl _, h⟩
  | some t => exact ⟨.refl _, h⟩

/-- A failed transaction that wrote nothing. -/
theorem Agrees.failed (h : Agrees past s db) (e : Err) : Matches past (.error e, s) (.error e, db) :=
  ⟨.refl _, h⟩

theorem sameAnswer_conflict (name name' : GoString) :
    SameAnswer (.error (ErrKind.conflict.wrap name)) (.error (ErrKind.conflict.wrap name')) :=
  fun _ _ => Iff.rfl

/-- The outbox and the audit log of a call. -/
theorem Agrees.appendEvents {c : TransferCall} (h : Agrees (past ++ [c]) s db)
    (hold : ∀ rec ∈ s.events, rec.event.eventID ∈ past.flatMap (·.eventIDs))
    (ha : Admits past c) {id : GoString} {t : Transfer} (ht : s.transfers.lookup id = some t)
    {evs : List Event} (hevs : c.outbox = evs.map (id, ·)) :
    ∃ db', Postgres.insertOutboxAll evs db = (.ok (), db') ∧
      Agrees (past ++ [c]) (s.appendEventsLocked evs) db' := by
  have hids : c.eventIDs = evs.map (·.eventID) := by
    rw [TransferCall.eventIDs, hevs, List.map_map]
    rfl
  have hmem : ∀ e ∈ evs, e.eventID ∈ c.eventIDs := by
    intro e he
    rw [hids]
    exact List.mem_map_of_mem he
  refine h.insertOutboxAll ?_ ?_ ?_ ?_
  · intro e he
    have hname := ha.events (id, e) (by rw [hevs]; exact List.mem_map_of_mem he)
    exact ⟨t, by rw [show e.transferID = id from hname]; exact ht⟩
  · intro e he
    exact mem_past_snoc (hmem e he)
  · rw [← hids]
    exact ha.eventIDs
  · intro e he row hrow heq
    rw [h.events] at hrow
    exact ha.newEventIDs _ (hmem e he) (heq ▸ hold row hrow)

theorem appendEventsLocked_transfers (evs : List Event) :
    (s.appendEventsLocked evs).transfers = s.transfers := by
  rw [MemoryStore.appendEventsLocked_eq]

theorem Agrees.storedEventIDs (h : Agrees past s db) :
    ∀ rec ∈ s.events, rec.event.eventID ∈ past.flatMap (·.eventIDs) := by
  rw [← h.events]
  exact h.eventIDs

theorem insert_agrees (h : Agrees past s db) {t : Transfer} {evs : List Event}
    {auds : List AuditRecord} (ha : Admits past (.insertTransfer t evs auds)) :
    Matches (past ++ [.insertTransfer t evs auds])
      (memoryServe H now s (.insertTransfer t evs auds))
      (postgresServe H now db (.insertTransfer t evs auds)) := by
  have hcheck := ha.checks t rfl
  have h' := h.mono (.insertTransfer t evs auds)
  have hmem : t.id ∈ s.transfers ↔ s.transfers.lookup t.id ≠ none := by
    rw [ne_eq, Finmap.lookup_eq_none, not_not]
  simp only [memoryServe, postgresServe, MemoryStore.insertTransfer, insertTransfer, runTx]
  by_cases hused : s.transfers.lookup t.id ≠ none ∨ s.idempotency.lookup (idemKey t) ≠ none
  · obtain ⟨name, hrun⟩ := h'.insertTransferRow_conflict hcheck ha.tenantID hused
    rw [bind_error hrun]
    split_ifs with h₁ h₂
    · exact ⟨sameAnswer_conflict _ _, h'⟩
    · exact ⟨sameAnswer_conflict _ _, h'⟩
    · -- a key that is filed under the id itself belongs to a stored transfer
      exfalso
      rw [hmem, not_not] at h₂
      rcases hused with hused | hused
      · exact hused h₂
      · obtain ⟨id, hid⟩ := Option.ne_none_iff_exists'.mp hused
        have hsame : id = t.id := by
          by_contra hne
          exact h₁ ⟨id, hid, hne⟩
        obtain ⟨row, hrow, he⟩ := List.mem_map.mp ((h.idempotency _ _).mp hid)
        have hrid : row.id = t.id := (congrArg Prod.snd he).trans hsame
        have hl := Table.find?_key (pkey_pairwise db.transfers) hrow
        rw [hrid] at hl
        rw [h.transfers, Table.find?, hl] at h₂
        exact absurd h₂ (by simp)
  · rw [not_or, not_not, not_not] at hused
    obtain ⟨db₁, hrun₁, h₁⟩ := h'.insertTransferRow ha.messageIDs ha.endToEndIDs hcheck ha.tenantID
      (fun x hx => mem_past_snoc (by simpa [TransferCall.messageID] using hx))
      (fun x hx => mem_past_snoc (by simpa [TransferCall.endToEndID] using hx))
      hused.1 hused.2
    have hl : (s.transfers.insert t.id t).lookup t.id = some t := Finmap.lookup_insert _
    obtain ⟨db₂, hrun₂, h₂⟩ := h₁.appendEvents h.storedEventIDs ha hl rfl
    obtain ⟨db₃, hrun₃, h₃⟩ := h₂.insertAuditAll auds (by
      intro r hr
      have hname := ha.audit (t.id, r) (List.mem_map_of_mem hr)
      rw [appendEventsLocked_transfers, show r.transferID = t.id from hname]
      exact ⟨t, hl⟩)
    have hno₁ : ¬ ∃ existingID ∈ s.idempotency.lookup (idemKey t), existingID ≠ t.id := by
      rw [hused.2]
      simp
    have hno₂ : t.id ∉ s.transfers := by
      rw [hmem, not_not]
      exact hused.1
    rw [if_neg hno₁, if_neg hno₂, bind_ok hrun₁, bind_ok hrun₂, hrun₃]
    exact ⟨.refl _, h₃⟩

/-! ## Transitions -/

section transitions

variable {c : TransferCall} {tn id : GoString} {row : TransferRow}
  {f : TransferRow → TransferRow}

theorem Agrees.lookup_row (h : Agrees past s db)
    (hrow : db.transfers.find? (byID tn id) = some row) :
    row.id = id ∧ row ∈ db.transfers.rows ∧ s.owned tn id = some (scanTransfer row) := by
  refine ⟨(byID_eq_true.mp (List.find?_some hrow)).2, List.mem_of_find?_eq_some hrow, ?_⟩
  rw [h.owned, hrow]
  rfl

/-- An update of the row of a transfer that gives it no new identifiers. -/
theorem Agrees.update (h : Agrees past s db) (ha : Admits past c)
    (hrow : db.transfers.find? (byID tn id) = some row) (hkeep : KeepsNames f)
    (hcheck : columnChecks (f row) = true)
    (hmsg : (f row).spiMessageID = row.spiMessageID ∨
      ∀ x ∈ (f row).spiMessageID, (id, x) ∈ c.messageID)
    (he2e : (f row).endToEndID = row.endToEndID ∨
      ∀ x ∈ (f row).endToEndID, (id, x) ∈ c.endToEndID) :
    ∃ db', updateTransfer tn id f db = (.ok (), db') ∧
      Agrees (past ++ [c]) (s.putTransfer (scanTransfer (f row))) db' := by
  have h' := h.mono c
  obtain ⟨hid, hmem, -⟩ := h.lookup_row hrow
  have hmsg' : ∀ x ∈ (f row).spiMessageID, (row.id, x) ∈ (past ++ [c]).flatMap (·.messageID) := by
    intro x hx
    rcases hmsg with hmsg | hmsg
    · exact h'.messageIDs row hmem x (hmsg ▸ hx)
    · rw [hid]
      exact mem_past_snoc (hmsg x hx)
  have he2e' : ∀ x ∈ (f row).endToEndID, (row.id, x) ∈ (past ++ [c]).flatMap (·.endToEndID) := by
    intro x hx
    rcases he2e with he2e | he2e
    · exact h'.endToEndIDs row hmem x (he2e ▸ hx)
    · rw [hid]
      exact mem_past_snoc (he2e x hx)
  obtain ⟨t, hupd, hrows⟩ := h'.update_accepted ha.messageIDs ha.endToEndIDs hrow hkeep hcheck
    hmsg' he2e'
  exact ⟨{ db with transfers := t }, by simp [updateTransfer, hupd],
    h'.updated hrow hkeep hmsg' he2e' hrows⟩

/-- The events and the audit record of a transition. -/
theorem Agrees.appendLogs (h : Agrees past s db) (ha : Admits past c) {t : Transfer}
    {db₁ : Database} (h₁ : Agrees (past ++ [c]) (s.putTransfer t) db₁) (evs : List Event)
    (aud : AuditRecord) (hevs : c.outbox = evs.map (t.id, ·)) (haud : c.audit = [(t.id, aud)]) :
    ∃ db₂ db₃, Postgres.insertOutboxAll evs db₁ = (.ok (), db₂) ∧
      Postgres.insertAudit aud db₂ = (.ok (), db₃) ∧
      Agrees (past ++ [c])
        (((s.putTransfer t).appendEventsLocked evs).appendAudit [aud]) db₃ := by
  have hl : (s.putTransfer t).transfers.lookup t.id = some t := Finmap.lookup_insert _
  obtain ⟨db₂, hrun₂, h₂⟩ := h₁.appendEvents h.storedEventIDs ha hl hevs
  have hname : aud.transferID = t.id := ha.audit (t.id, aud) (by simp [haud])
  obtain ⟨db₃, hrun₃, h₃⟩ := h₂.insertAudit aud (t := t) (by
    rw [appendEventsLocked_transfers, hname]
    exact hl)
  exact ⟨db₂, db₃, hrun₂, hrun₃, h₃⟩

theorem claim_agrees (h : Agrees past s db) {tok : GoString} {u : Time}
    (ha : Admits past (.claimSPISubmission tn id tok u)) :
    Matches (past ++ [.claimSPISubmission tn id tok u])
      (memoryServe H now s (.claimSPISubmission tn id tok u))
      (postgresServe H now db (.claimSPISubmission tn id tok u)) := by
  have h' := h.mono (.claimSPISubmission tn id tok u)
  simp only [memoryServe, postgresServe, MemoryStore.claimSPISubmission, claimSPISubmission, runTx,
    select_bind, h.owned tn id]
  cases hrow : db.transfers.find? (byID tn id) with
  | none => exact h'.failed _
  | some row =>
    simp only [Option.map_some]
    split_ifs with hdone
    · exact ⟨.refl _, h'⟩
    · cases hclaim : (scanTransfer row).claimSPISubmission tok u now with
      | error e => exact h'.failed e
      | ok t =>
        obtain ⟨-, -, -, -, rfl⟩ := Transfer.claimSPISubmission_eq_ok.mp hclaim
        have hmem := (h.lookup_row hrow).2.1
        obtain ⟨db', hupd, h₁⟩ := h.update (f := setClaim _) ha hrow
          ⟨fun _ => rfl, fun _ => rfl, fun _ => rfl⟩ (db.transfers.checked row hmem)
          (.inl rfl) (.inl rfl)
        simp only
        rw [bind_ok hupd]
        exact ⟨.refl _, h₁⟩

theorem release_agrees (h : Agrees past s db) {tok e : GoString} {r : Time}
    (ha : Admits past (.releaseSPISubmission tn id tok e r)) :
    Matches (past ++ [.releaseSPISubmission tn id tok e r])
      (memoryServe H now s (.releaseSPISubmission tn id tok e r))
      (postgresServe H now db (.releaseSPISubmission tn id tok e r)) := by
  have h' := h.mono (.releaseSPISubmission tn id tok e r)
  simp only [memoryServe, postgresServe, MemoryStore.releaseSPISubmission, releaseSPISubmission,
    runTx, select_bind, h.owned tn id]
  cases hrow : db.transfers.find? (byID tn id) with
  | none => exact h'.failed _
  | some row =>
    simp only [Option.map_some]
    split_ifs with hdone
    · exact ⟨.refl _, h'⟩
    · cases hrelease : (scanTransfer row).releaseSPISubmission tok e r now with
      | error e => exact h'.failed e
      | ok t =>
        obtain ⟨-, -, rfl⟩ := (Transfer.releaseSPISubmission_eq_ok hdone).mp hrelease
        have hmem := (h.lookup_row hrow).2.1
        obtain ⟨db', hupd, h₁⟩ := h.update (f := setRelease _) ha hrow
          ⟨fun _ => rfl, fun _ => rfl, fun _ => rfl⟩ (db.transfers.checked row hmem)
          (.inl rfl) (.inl rfl)
        simp only
        rw [hupd]
        exact ⟨.refl _, h₁⟩

/-- The checks of a row after a change of its status. -/
theorem checks_status {row row' : TransferRow} (h : columnChecks row = true)
    (hamount : row'.amountCents = row.amountCents) (hcur : row'.currency = row.currency)
    (hstatus : row'.status ∈
      [TransferStatus.accepted, .approved, .blocked, .review, .settled, .rejected]) :
    columnChecks row' = true := by
  rw [columnChecks, Bool.and_eq_true] at h ⊢
  rw [hamount, hcur]
  exact ⟨h.1, decide_eq_true hstatus⟩

theorem mem_nullif {s : GoString} (h : s ≠ []) : nullif s = some s := if_neg h

theorem record_agrees (h : Agrees past s db) {tok : GoString} {m : SPIMessage} {evs : List Event}
    {aud : AuditRecord} (ha : Admits past (.recordSPISubmission tn id tok m evs aud)) :
    Matches (past ++ [.recordSPISubmission tn id tok m evs aud])
      (memoryServe H now s (.recordSPISubmission tn id tok m evs aud))
      (postgresServe H now db (.recordSPISubmission tn id tok m evs aud)) := by
  have h' := h.mono (.recordSPISubmission tn id tok m evs aud)
  simp only [memoryServe, postgresServe, MemoryStore.recordSPISubmission, recordSPISubmission,
    runTx, select_bind, h.owned tn id]
  cases hrow : db.transfers.find? (byID tn id) with
  | none => exact h'.failed _
  | some row =>
    simp only [Option.map_some]
    split_ifs with hdone
    · exact ⟨.refl _, h'⟩
    · cases hrecord : (scanTransfer row).recordSPISubmission tok m with
      | error e => exact h'.failed e
      | ok t =>
        obtain ⟨-, -, -, hm, he, ht⟩ := Transfer.recordSPISubmission_eq_ok.mp hrecord
        obtain ⟨hid, hmem, -⟩ := h.lookup_row hrow
        have hscan : scanTransfer (setSubmission t row) = t := by
          rw [ht]
          rfl
        have hname : t.id = id := by rw [ht, ← hid]; rfl
        have hm' : m.messageID ≠ [] := by
          rintro hnil
          exact hm (by rw [hnil]; rfl)
        have he' : m.endToEndID ≠ [] := by
          rintro hnil
          exact he (by rw [hnil]; rfl)
        obtain ⟨db₁, hupd, h₁⟩ := h.update (f := setSubmission t) ha hrow
          ⟨fun _ => rfl, fun _ => rfl, fun _ => rfl⟩
          (checks_status (db.transfers.checked row hmem) rfl rfl (by simp [setSubmission, ht]))
          (.inr (by simp [setSubmission, ht, TransferCall.messageID, mem_nullif hm']))
          (.inr (by simp [setSubmission, ht, TransferCall.endToEndID, mem_nullif he']))
        rw [hscan] at h₁
        obtain ⟨db₂, db₃, hrun₂, hrun₃, h₃⟩ := h.appendLogs ha h₁ evs aud
          (by rw [hname]; rfl) (by rw [hname]; rfl)
        simp only
        rw [bind_ok hupd, bind_ok hrun₂, bind_ok hrun₃]
        exact ⟨.refl _, h₃⟩

theorem review_agrees (h : Agrees past s db) {st : TransferStatus} {reason : GoString}
    {evs : List Event} {aud : AuditRecord}
    (ha : Admits past (.recordReviewDecision tn id st reason evs aud)) :
    Matches (past ++ [.recordReviewDecision tn id st reason evs aud])
      (memoryServe H now s (.recordReviewDecision tn id st reason evs aud))
      (postgresServe H now db (.recordReviewDecision tn id st reason evs aud)) := by
  have h' := h.mono (.recordReviewDecision tn id st reason evs aud)
  simp only [memoryServe, postgresServe, MemoryStore.recordReviewDecision, recordReviewDecision,
    runTx, select_bind, h.owned tn id]
  cases hrow : db.transfers.find? (byID tn id) with
  | none => exact h'.failed _
  | some row =>
    simp only [Option.map_some]
    cases hreview : (scanTransfer row).recordReviewDecision st reason aud.createdAt with
    | error e => exact h'.failed e
    | ok t =>
      obtain ⟨-, hst, ht⟩ := Transfer.recordReviewDecision_eq_ok.mp hreview
      obtain ⟨hid, hmem, -⟩ := h.lookup_row hrow
      have hscan : scanTransfer (setReview t row) = t := by
        rw [ht]
        rfl
      have hname : t.id = id := by rw [ht, ← hid]; rfl
      obtain ⟨db₁, hupd, h₁⟩ := h.update (f := setReview t) ha hrow
        ⟨fun _ => rfl, fun _ => rfl, fun _ => rfl⟩
        (checks_status (db.transfers.checked row hmem) rfl rfl
          (by rcases hst with hst | hst <;> simp [setReview, ht, hst]))
        (.inl rfl) (.inl rfl)
      rw [hscan] at h₁
      obtain ⟨db₂, db₃, hrun₂, hrun₃, h₃⟩ := h.appendLogs ha h₁ evs aud
        (by rw [hname]; rfl) (by rw [hname]; rfl)
      simp only
      rw [bind_ok hupd, bind_ok hrun₂, bind_ok hrun₃]
      exact ⟨.refl _, h₃⟩

theorem settles_eq_some {status : SettlementStatus} {st : TransferStatus}
    (h : status.settles = some st) : st = .settled ∨ st = .rejected := by
  cases status with
  | accepted => exact .inl (Option.some.inj h).symm
  | rejected => exact .inr (Option.some.inj h).symm
  | other raw hraw => exact absurd h (by simp [SettlementStatus.settles])

theorem settle_agrees (h : Agrees past s db) {cb : SettlementCallback} {evs : List Event}
    {aud : AuditRecord} (ha : Admits past (.updateSettlement tn id cb evs aud)) :
    Matches (past ++ [.updateSettlement tn id cb evs aud])
      (memoryServe H now s (.updateSettlement tn id cb evs aud))
      (postgresServe H now db (.updateSettlement tn id cb evs aud)) := by
  have h' := h.mono (.updateSettlement tn id cb evs aud)
  have htn : 58 ∉ tn := ha.tenantID
  have hprocessed := h.processed htn cb.spiMessageID
  simp only [memoryServe, postgresServe, MemoryStore.updateSettlement, updateSettlement,
    runTx, select_bind, h.owned tn id]
  cases hrow : db.transfers.find? (byID tn id) with
  | none => exact h'.failed _
  | some row =>
    simp only [Option.map_some]
    rw [selectCallbackHash_bind, hprocessed]
    cases hfound : (db.callbacks.find? fun row =>
        row.tenantID = tn && row.spiMessageID = cb.spiMessageID).map (·.callbackHash) with
    | some hash =>
      simp only [MemoryStore.callbackHash]
      split_ifs with hsame
      all_goals exact ⟨.refl _, h'⟩
    | none =>
      simp only
      cases hsettle : (scanTransfer row).recordSettlement cb with
      | error e => exact h'.failed e
      | ok t =>
        obtain ⟨-, -, -, st, hst, ht⟩ := Transfer.recordSettlement_eq_ok.mp hsettle
        obtain ⟨hid, hmem, -⟩ := h.lookup_row hrow
        have hscan : scanTransfer (setSettlement t row) = t := by
          rw [ht]
          rfl
        have hname : t.id = id := by rw [ht, ← hid]; rfl
        obtain ⟨db₁, hupd, h₁⟩ := h.update (f := setSettlement t) ha hrow
          ⟨fun _ => rfl, fun _ => rfl, fun _ => rfl⟩
          (checks_status (db.transfers.checked row hmem) rfl rfl
            (by rcases settles_eq_some hst with rfl | rfl <;> simp [setSettlement, ht]))
          (.inl rfl) (.inl rfl)
        rw [hscan] at h₁
        obtain ⟨db₂, db₃, hrun₂, hrun₃, h₃⟩ := h.appendLogs ha h₁ evs aud
          (by rw [hname]; rfl) (by rw [hname]; rfl)
        simp only
        rw [hfound] at hprocessed
        have hcallbacks : (((s.putTransfer t).appendEventsLocked evs).appendAudit [aud]).callbacks =
            s.callbacks := MemoryStore.write_callbacks s t evs [aud]
        obtain ⟨db₄, hrun₄, h₄⟩ := h₃.insertCallback
          ⟨tn, cb.spiMessageID, MemoryStore.callbackHash H cb, cb.receivedAt⟩ htn
          (by rw [hcallbacks]; exact hprocessed)
        rw [bind_ok hupd, bind_ok hrun₂, bind_ok hrun₃]
        rw [MemoryStore.callbackHash] at hrun₄
        rw [bind_ok hrun₄]
        refine ⟨.refl _, ?_⟩
        rw [hcallbacks] at h₄
        have hstate := MemoryStore.insert_callbacks_write s t evs [aud]
          (s.callbacks.insert (scopedKey tn cb.spiMessageID) (MemoryStore.callbackHash H cb))
        show Agrees _ (({ s.putTransfer t with callbacks := _ }.appendEventsLocked
          evs).appendAudit [aud]) db₄
        rw [hstate]
        exact h₄

end transitions

theorem Matches.mono {x : Except Err Reply × MemoryStore} {y : Except Err Reply × Database}
    (h : Matches past x y) (c : TransferCall) : Matches (past ++ [c]) x y :=
  ⟨h.1, h.2.mono c⟩

/-- Every call keeps the stores in agreement. -/
theorem step_agrees (H : Digest) (now : Time) (h : Agrees past s db) {c : TransferCall}
    (ha : Admits past c) :
    Matches (past ++ [c]) (memoryServe H now s c) (postgresServe H now db c) := by
  cases c with
  | insertTransfer t evs auds => exact insert_agrees h ha
  | findByIdempotency tn key => exact (find_agrees h ha.tenantID key).mono _
  | getTransfer tn id => exact (get_agrees h tn id).mono _
  | claimSPISubmission tn id tok u => exact claim_agrees h ha
  | recordSPISubmission tn id tok m evs aud => exact record_agrees h ha
  | releaseSPISubmission tn id tok e r => exact release_agrees h ha
  | recordReviewDecision tn id st reason evs aud => exact review_agrees h ha
  | updateSettlement tn id cb evs aud => exact settle_agrees h ha

end steps

/-! ## Sequences of calls -/

/-- The answers to a sequence of calls, each with its clock reading, and the
store after it. -/
def serveAll {S : Type} (serve : Time → S → TransferCall → Except Err Reply × S) :
    List (TransferCall × Time) → S → List (Except Err Reply) × S
  | [], s => ([], s)
  | (c, now) :: calls, s =>
    let answer := serve now s c
    let rest := serveAll serve calls answer.2
    (answer.1 :: rest.1, rest.2)

theorem run_agrees (H : Digest) (calls : List (TransferCall × Time)) {past : List TransferCall}
    {s : MemoryStore} {db : Database} (h : Agrees past s db)
    (ha : Admissible (past ++ calls.map Prod.fst)) :
    List.Forall₂ SameAnswer (serveAll (memoryServe H) calls s).1
        (serveAll (postgresServe H) calls db).1 ∧
      Agrees (past ++ calls.map Prod.fst) (serveAll (memoryServe H) calls s).2
        (serveAll (postgresServe H) calls db).2 := by
  induction calls generalizing past s db with
  | nil => exact ⟨.nil, by simpa [serveAll] using h⟩
  | cons p calls ih =>
    obtain ⟨c, now⟩ := p
    obtain ⟨hanswer, hnext⟩ := step_agrees H now h ha.admits
    rw [List.map_cons, List.append_cons] at ha ⊢
    obtain ⟨hanswers, hlast⟩ := ih hnext ha
    exact ⟨.cons hanswer hanswers, hlast⟩

/-- An event of a transfer. -/
def sampleEvent (eventID transferID : GoString) : Event where
  eventID := eventID
  eventType := go "pix_transfer_requested"
  schemaVersion := go "1"
  occurredAt := Switcher.newYear
  producer := producer
  tenantID := go "tenant-a"
  accountID := go "acct-1"
  transferID := transferID
  correlationID := go "corr-1"
  payload := go "null"

def sampleAudit (transferID : GoString) : AuditRecord where
  tenantID := go "tenant-a"
  accountID := go "acct-1"
  transferID := transferID
  action := go "pix_transfer_decided"
  correlationID := go "corr-1"
  metadata := []
  createdAt := Switcher.newYear

/-- An accepted transfer that waits for its submission. -/
def sampleTransfer (id key : GoString) : Transfer where
  id := id
  tenantID := go "tenant-a"
  accountID := go "acct-1"
  idempotencyKey := key
  requestHash := go "hash"
  correlationID := go "corr-1"
  amountCents := 1500
  currency := go "BRL"
  receiverKey := go "maria@example.com"
  receiverKeyType := .email
  receiverName := go "Maria Silva"
  receiverBank := go "12345678"
  receiverRisk := 10
  fraudScore := 10
  fraudRules := []
  status := .accepted
  decisionReason := go "risk within payment-rail policy"
  createdAt := Switcher.newYear
  updatedAt := Switcher.newYear

def sampleSubmission : SPIMessage where
  messageID := go "spi_1"
  endToEndID := go "E1"
  transferID := go "pxt_1"
  submittedAt := Switcher.newYear

def sampleSettlement : SettlementCallback where
  tenantID := go "tenant-a"
  transferID := go "pxt_1"
  spiMessageID := go "spi_1"
  status := .accepted
  code := go "00"
  callbackHash := go "callback-hash"
  receivedAt := Switcher.newYear

/-- A payment from its insert to its settlement, with a key that is used
twice, a claim that finds the transfer claimed, and a callback that comes
twice. -/
def sampleCalls : List (TransferCall × Time) :=
  [.insertTransfer (sampleTransfer (go "pxt_1") (go "idem-1"))
      [sampleEvent (go "evt_1") (go "pxt_1")] [sampleAudit (go "pxt_1")],
    .insertTransfer (sampleTransfer (go "pxt_2") (go "idem-1"))
      [sampleEvent (go "evt_2") (go "pxt_2")] [sampleAudit (go "pxt_2")],
    .findByIdempotency (go "tenant-a") (go "idem-1"),
    .claimSPISubmission (go "tenant-a") (go "pxt_1") (go "spiclaim_1")
      (Switcher.newYear + 30 * second),
    .claimSPISubmission (go "tenant-a") (go "pxt_1") (go "spiclaim_2")
      (Switcher.newYear + 30 * second),
    .recordSPISubmission (go "tenant-a") (go "pxt_1") (go "spiclaim_1") sampleSubmission
      [sampleEvent (go "evt_3") (go "pxt_1")] (sampleAudit (go "pxt_1")),
    .updateSettlement (go "tenant-a") (go "pxt_1") sampleSettlement
      [sampleEvent (go "evt_4") (go "pxt_1")] (sampleAudit (go "pxt_1")),
    .updateSettlement (go "tenant-a") (go "pxt_1") sampleSettlement
      [sampleEvent (go "evt_5") (go "pxt_1")] (sampleAudit (go "pxt_1")),
    .getTransfer (go "tenant-b") (go "pxt_1")].map (·, Switcher.newYear)

/-- The status and the replay flag of an answer, `none` for an error. -/
def outcome : Except Err Reply → Option (Option TransferStatus × Bool)
  | .ok r => some (r.transfer.map (·.status), r.replay)
  | .error _ => none

end PixRail.Postgres
