import PixRail.Lifecycle.Sound
import PixRail.Postgres.Switch

/-!
# The switch on Postgres refines the switch in memory

Whatever the service does on Postgres, it does on the in-memory store as well:
every run of `pgSwitch` is matched, operation by operation, by a run of
`switch` that differs from it in the text of errors only, and the two stores
hold the same contents (`postgres_refines`).  What holds of the runs in memory
and does not speak of error texts so holds of the runs on Postgres.

The assumptions are those of the comparison of the stores, for a whole run:
contexts do not end, tenants have no colon, identifiers are drawn once, and
the SPI gives no identifier to two transfers.  Without the first the stores
differ, as some methods of the in-memory store do not look at their context.
-/

namespace PixRail.Postgres

open Go Rail Events Store Sql Interleave Switcher

/-! ## Calls of the stores -/

/-- The transfer operation that a store call is. -/
def transferCall : StoreCall → Option TransferCall
  | .findByIdempotency tenantID key => some (.findByIdempotency tenantID key)
  | .insertTransfer transfer outbox audit => some (.insertTransfer transfer outbox audit)
  | .getTransfer tenantID transferID => some (.getTransfer tenantID transferID)
  | .claimSPISubmission tenantID transferID claimToken claimUntil =>
    some (.claimSPISubmission tenantID transferID claimToken claimUntil)
  | .recordSPISubmission tenantID transferID claimToken message outbox audit =>
    some (.recordSPISubmission tenantID transferID claimToken message outbox audit)
  | .releaseSPISubmission tenantID transferID claimToken lastError retryAt =>
    some (.releaseSPISubmission tenantID transferID claimToken lastError retryAt)
  | .recordReviewDecision tenantID transferID status reason outbox audit =>
    some (.recordReviewDecision tenantID transferID status reason outbox audit)
  | .updateSettlement tenantID transferID callback outbox audit =>
    some (.updateSettlement tenantID transferID callback outbox audit)
  | _ => none

/-- The transfer operation of an action. -/
def callOf : Action sig Input → Option TransferCall
  | ⟨.store c, _, _⟩ => transferCall c
  | _ => none

/-- The transfer operations among the actions. -/
def transferCalls (h : History) : List TransferCall := h.filterMap callOf

/-- The transfer and the message of a successful submission. -/
def spiAnswer : Action sig Input → Option (GoString × SPIMessage)
  | ⟨.submit t, _, .ok m⟩ => some (t.id, m)
  | _ => none

/-- The identifiers that the SPI gave to transfers. -/
def spiIDs (f : SPIMessage → GoString) (h : History) : List (GoString × GoString) :=
  (h.filterMap spiAnswer).map fun p => (p.1, f p.2)

theorem mem_spiIDs {f : SPIMessage → GoString} {h : History} {t : Transfer} {m : SPIMessage}
    (hd : Did h (.submit t) (.ok m)) : (t.id, f m) ∈ spiIDs f h := by
  obtain ⟨i, hi⟩ := hd
  exact List.mem_map.mpr ⟨(t.id, m), List.mem_filterMap.mpr ⟨_, hi, rfl⟩, rfl⟩

theorem spiIDs_subset (f : SPIMessage → GoString) {h h' : History} (hsub : h ⊆ h') :
    spiIDs f h ⊆ spiIDs f h' :=
  List.map_subset _ (List.filterMap_subset _ hsub)

/-- A transfer operation hands over the events of its store call. -/
theorem eventIDs_transferCall {call : StoreCall} {tc : TransferCall}
    (h : transferCall call = some tc) : tc.eventIDs = Op.eventIDs (.store call) := by
  cases call <;> cases h <;>
    simp [TransferCall.eventIDs, TransferCall.outbox, Op.eventIDs, StoreCall.outbox]

/-- The other calls hand over none. -/
theorem eventIDs_of_none {call : StoreCall} (h : transferCall call = none) :
    Op.eventIDs (.store call) = [] := by
  cases call <;> first | rfl | cases h

theorem eventIDs_transferCalls (h : History) :
    (transferCalls h).flatMap (·.eventIDs) = handed h := by
  induction h with
  | nil => rfl
  | cons a h ih =>
    have hhead : (callOf a).toList.flatMap (·.eventIDs) = Op.eventIDs a.op := by
      obtain ⟨o, i, r⟩ := a
      cases o with
      | store c =>
        cases hc : transferCall c with
        | none => simp [callOf, hc, eventIDs_of_none hc]
        | some tc => simp [callOf, hc, eventIDs_transferCall hc]
      | _ => rfl
    rw [handed, List.flatMap_cons, ← handed, ← ih, ← hhead]
    unfold transferCalls
    cases hc : callOf a with
    | none => simp [hc]
    | some tc => simp [hc]

/-! ## What the calls of the service hand to the store -/

/-- What a call on its own gives to the tables: rows that pass the checks,
events and audit records of its transfer, and identifiers of the SPI. -/
structure Proper (h : History) (tc : TransferCall) : Prop where
  checks : ∀ transfer ∈ tc.inserted, columnChecks (transferRow transfer) = true
  events : ∀ p ∈ tc.outbox, p.2.transferID = p.1
  audit : ∀ p ∈ tc.audit, p.2.transferID = p.1
  messageIDs : tc.messageID ⊆ spiIDs (·.messageID) h
  endToEndIDs : tc.endToEndID ⊆ spiIDs (·.endToEndID) h

theorem Proper.mono {h h' : History} {tc : TransferCall} (hp : Proper h tc) (hsub : h ⊆ h') :
    Proper h' tc where
  checks := hp.checks
  events := hp.events
  audit := hp.audit
  messageIDs := List.Subset.trans hp.messageIDs (spiIDs_subset _ hsub)
  endToEndIDs := List.Subset.trans hp.endToEndIDs (spiIDs_subset _ hsub)

/-- A call that hands nothing over. -/
theorem proper_of_nil {h : History} {tc : TransferCall} (hins : tc.inserted = none)
    (hout : tc.outbox = []) (haud : tc.audit = []) (hmsg : tc.messageID = [])
    (he2e : tc.endToEndID = []) : Proper h tc where
  checks := by simp [hins]
  events := by simp [hout]
  audit := by simp [haud]
  messageIDs := by simp [hmsg]
  endToEndIDs := by simp [he2e]

/-- The events of a batch name its transfer. -/
theorem batch_transferIDs {t : Transfer} {types : List EventType} {evs : List Event}
    (hb : Batch t types evs) {id : GoString} (hid : t.id = id) :
    ∀ p ∈ evs.map (id, ·), p.2.transferID = p.1 := by
  intro p hp
  obtain ⟨e, he, rfl⟩ := List.mem_map.mp hp
  exact (hb.owned e he).2.2.trans hid

/-- A call that writes a batch of events and one audit record of the transfer
that it has read. -/
theorem proper_of_batch {h : History} {tc : TransferCall} {t : Transfer} {id : GoString}
    {types : List EventType} {evs : List Event} {aud : AuditRecord} (hid : t.id = id)
    (hb : Batch t types evs) (haud : aud.transferID = t.id) (hins : tc.inserted = none)
    (hout : tc.outbox = evs.map (id, ·)) (haudit : tc.audit = [(id, aud)])
    (hmsg : tc.messageID ⊆ spiIDs (·.messageID) h)
    (he2e : tc.endToEndID ⊆ spiIDs (·.endToEndID) h) : Proper h tc where
  checks := by simp [hins]
  events := by
    rw [hout]
    exact batch_transferIDs hb hid
  audit := by
    intro p hp
    rw [haudit, List.mem_singleton] at hp
    subst hp
    exact haud.trans hid
  messageIDs := hmsg
  endToEndIDs := he2e

theorem mem_nullif_toList {s : GoString} {id : GoString} {p : GoString × GoString}
    (hp : p ∈ (nullif s).toList.map (id, ·)) : p = (id, s) := by
  unfold nullif at hp
  split at hp
  · simp at hp
  · simpa using hp

theorem proper_of_allows {L : Lib} {c : Call} {h : History} {call : StoreCall}
    {tc : TransferCall} (hens : ∀ a ∈ h, Ens a.op a.inp a.ret)
    (ha : Allows L c h (.store call)) (htc : transferCall call = some tc) : Proper h tc := by
  cases ha with
  | find hc =>
    cases htc
    exact proper_of_nil rfl rfl rfl rfl rfl
  | getTransfer id hfor =>
    cases htc
    exact proper_of_nil rfl rfl rfl rfl rfl
  | claim hc hfor hh =>
    cases htc
    exact proper_of_nil rfl rfl rfl rfl rfl
  | release e hfor hclaim hnow =>
    cases htc
    exact proper_of_nil rfl rfl rfl rfl rfl
  | @insert req at_ _ _ _ _ _ _ hc hvalid hstatus hfirst hid hfind ht hevs =>
    cases htc
    obtain ⟨hpos, -, hcur⟩ := Lifecycle.validate_normalize hvalid
    obtain ⟨types, hbatch, -, -⟩ := hevs
    subst ht
    refine ⟨?_, batch_transferIDs hbatch rfl, ?_,
      by simp [TransferCall.messageID, newTransfer, nullif],
      by simp [TransferCall.endToEndID, newTransfer, nullif]⟩
    · intro t ht
      cases ht
      have hamount : 0 < (normalize req at_).amountCents := hpos
      rcases hstatus with hs | hs | hs <;>
        simp [columnChecks, transferRow, newTransfer, hamount, hcur, hs]
    · intro p hp
      simp only [TransferCall.audit, List.map_cons, List.map_nil, List.mem_singleton] at hp
      subst hp
      rfl
  | record hfor hclaim hsubmit hevs =>
    cases htc
    obtain ⟨i, hi⟩ := hclaim
    have hcurrent := (hens _ hi _ rfl).1
    refine proper_of_batch hcurrent hevs rfl rfl rfl rfl (fun p hp => ?_) fun p hp => ?_
    all_goals
      rw [mem_nullif_toList hp, ← hcurrent]
      exact mem_spiIDs hsubmit
  | review hc htn hget hreview hstatus hevs =>
    cases htc
    obtain ⟨i, hi⟩ := hget
    exact proper_of_batch (hens _ hi _ rfl).1 hevs rfl rfl rfl rfl (List.nil_subset _)
      (List.nil_subset _)
  | settle hc htn hid hne hget hspi hty hevs =>
    cases htc
    obtain ⟨i, hi⟩ := hget
    exact proper_of_batch (hens _ hi _ rfl).1 hevs rfl rfl rfl rfl (List.nil_subset _)
      (List.nil_subset _)
  | pending now limit hc => cases htc
  | outboxClaim hc hfirst htok hnow hat => cases htc
  | markPublished hclaim hhand hh => cases htc
  | markFailed hc hclaim hhand hh => cases htc

/-- The calls that name their transfer and read no other key of the tenant. -/
def TransferCall.Addresses : TransferCall → Prop
  | .getTransfer _ _ => True
  | .claimSPISubmission _ _ _ _ => True
  | .recordSPISubmission _ _ _ _ _ _ => True
  | .releaseSPISubmission _ _ _ _ _ => True
  | _ => False

/-- The tenant of a store call is that of the call of the service.  Only the
batch of `SubmitPendingSPI` acts for tenants that it has read. -/
theorem tenantID_of_allows {L : Lib} {c : Call} {h : History} {call : StoreCall}
    {tc : TransferCall} (hcolon : ∀ tn ∈ c.tenant, 58 ∉ tn) (ha : Allows L c h (.store call))
    (htc : transferCall call = some tc) : 58 ∉ tc.tenantID ∨ tc.Addresses := by
  cases ha with
  | find hc =>
    cases htc
    subst hc
    exact .inl (hcolon _ rfl)
  | insert hc hvalid hstatus hfirst hid hfind ht hevs =>
    cases htc
    subst hc ht
    exact .inl (hcolon _ rfl)
  | review hc htn hget hreview hstatus hevs =>
    cases htc
    subst hc htn
    exact .inl (hcolon _ rfl)
  | settle hc htn hid hne hget hspi hty hevs =>
    cases htc
    subst hc htn
    exact .inl (hcolon _ rfl)
  | getTransfer id hfor =>
    cases htc
    exact .inr trivial
  | claim hc hfor hh =>
    cases htc
    exact .inr trivial
  | record hfor hclaim hsubmit hevs =>
    cases htc
    exact .inr trivial
  | release e hfor hclaim hnow =>
    cases htc
    exact .inr trivial
  | pending now limit hc => cases htc
  | outboxClaim hc hfirst htok hnow hat => cases htc
  | markPublished hclaim hhand hh => cases htc
  | markFailed hc hclaim hhand hh => cases htc

/-! ## One call of the stores -/

section step

variable {past : List TransferCall} {s : MemoryStore} {db : Database} {H : Digest}

/-- No row belongs to a tenant with a colon. -/
theorem Agrees.absent (h : Agrees past s db) {tn : GoString} (htn : 58 ∈ tn) (id : GoString) :
    db.transfers.find? (byID tn id) = none := by
  refine List.find?_eq_none.mpr fun row hmem hrow => h.tenantIDs row hmem ?_
  rw [(byID_eq_true.mp hrow).1]
  exact htn

/-- A call for a tenant with a colon finds no transfer in either store. -/
theorem Agrees.unknown (h : Agrees past s db) (now : Time) {tc : TransferCall}
    (htn : 58 ∈ tc.tenantID) (hc : tc.Addresses) :
    Matches (past ++ [tc]) (memoryServe H now s tc) (postgresServe H now db tc) := by
  cases tc with
  | getTransfer tn id => exact (get_agrees h tn id).mono _
  | claimSPISubmission tn id tok u =>
    have hnone : db.transfers.find? (byID tn id) = none := h.absent htn id
    simp only [memoryServe, postgresServe, MemoryStore.claimSPISubmission, claimSPISubmission,
      runTx, select_bind, h.owned tn id, hnone]
    exact (h.mono _).failed _
  | recordSPISubmission tn id tok m evs aud =>
    have hnone : db.transfers.find? (byID tn id) = none := h.absent htn id
    simp only [memoryServe, postgresServe, MemoryStore.recordSPISubmission, recordSPISubmission,
      runTx, select_bind, h.owned tn id, hnone]
    exact (h.mono _).failed _
  | releaseSPISubmission tn id tok e r =>
    have hnone : db.transfers.find? (byID tn id) = none := h.absent htn id
    simp only [memoryServe, postgresServe, MemoryStore.releaseSPISubmission, releaseSPISubmission,
      runTx, select_bind, h.owned tn id, hnone]
    exact (h.mono _).failed _
  | insertTransfer t evs auds => exact hc.elim
  | findByIdempotency tn key => exact hc.elim
  | recordReviewDecision tn id st reason evs aud => exact hc.elim
  | updateSettlement tn id cb evs aud => exact hc.elim

/-- The ids of the rows are the keys of the map. -/
theorem Agrees.rangeOrder (h : Agrees past s db) {order : List GoString}
    (ho : ScanOrder db order) : s.RangeOrder order := by
  have hids : (db.transfers.rows.map (·.id)).Nodup :=
    List.pairwise_map.mpr ((db.transfers.unique _ List.mem_cons_self).imp fun hne => by
      simpa using hne)
  refine ⟨ho.nodup_iff.mpr hids, ?_⟩
  ext id
  rw [List.mem_toFinset, ho.mem_iff, Finmap.mem_keys, ← Finmap.lookup_isSome, h.transfers,
    Option.isSome_map, Table.find?, List.find?_isSome]
  simp

/-- A row waits for its submission when its transfer does. -/
theorem awaitsSubmission_iff (now : Time) (row : TransferRow) :
    awaitsSubmission now row = decide (MemoryStore.Pending now (scanTransfer row)) := by
  rw [Bool.eq_iff_iff, decide_eq_true_iff]
  unfold awaitsSubmission MemoryStore.Pending
  cases hu : row.spiClaimedUntil with
  | none => simp [scanTransfer, hu]
  | some u => simp [scanTransfer, hu, and_assoc]

/-- Both stores list the same transfers. -/
theorem Agrees.pending (h : Agrees past s db) (order : List GoString) (now : Time)
    (limit : Int) :
    pendingSPISubmissions order now limit db = s.pendingSPISubmissions order now limit := by
  have hrows : (order.filterMap fun id => s.transfers.lookup id) =
      (order.filterMap fun id => db.transfers.find? fun row => row.id = id).map scanTransfer := by
    rw [List.map_filterMap]
    exact List.filterMap_congr fun id _ => h.transfers id
  have hsort : ∀ rows : List TransferRow,
      (rows.insertionSort fun a b => a.createdAt ≤ b.createdAt).map scanTransfer =
        (rows.map scanTransfer).insertionSort fun a b => a.createdAt ≤ b.createdAt :=
    fun rows => List.map_insertionSort _ _ scanTransfer rows fun _ _ _ _ => Iff.rfl
  have hfilter : awaitsSubmission now =
      (fun transfer => decide (MemoryStore.Pending now transfer)) ∘ scanTransfer :=
    funext (awaitsSubmission_iff now)
  simp only [pendingSPISubmissions, MemoryStore.pendingSPISubmissions, MemoryStore.batchLimit]
  rw [hrows, List.map_take, List.filter_map, hsort, hfilter]

/-- Answers alike on replies are alike on what the methods return. -/
theorem Matches.alike {α : Type} {f : α → Reply} (hf : Function.Injective f)
    {x : Except Err α × MemoryStore} {y : Except Err α × Database}
    (h : Matches past (x.map (·.map f) id) (y.map (·.map f) id)) :
    SameResult y.1 x.1 ∧ Agrees past x.2 y.2 := by
  obtain ⟨rx, s⟩ := x
  obtain ⟨ry, db⟩ := y
  refine ⟨?_, h.2⟩
  have hanswer := h.1
  cases rx with
  | ok a =>
    cases ry with
    | ok b => exact (hf hanswer).symm
    | error e => exact hanswer.elim
  | error e =>
    cases ry with
    | ok b => exact hanswer.elim
    | error e' => exact fun k hk => (hanswer k hk).symm

theorem ofPair_injective : Function.Injective Reply.ofPair := by
  rintro ⟨t, b⟩ ⟨t', b'⟩ h
  simpa [Reply.ofPair] using h

theorem unit_injective : Function.Injective fun _ : Unit => ({} : Reply) :=
  fun _ _ _ => rfl

theorem transfer_injective : Function.Injective fun t : Transfer => (⟨some t, false⟩ : Reply) :=
  fun _ _ h => by simpa using h

theorem found_injective :
    Function.Injective fun t : Option Transfer => (⟨t, false⟩ : Reply) :=
  fun _ _ h => by simpa using h

/-- A store call that the database answers is answered alike in memory. -/
theorem Agrees.store_step (h : Agrees past s db) {call : StoreCall} {i : Input}
    (hi : i.ctx = none) {y : call.Ret × Database} (hy : pgStoreHandle H call i db = some y)
    (hm : ∀ tc, transferCall call = some tc →
      Matches (past ++ [tc]) (memoryServe H i.now s tc) (postgresServe H i.now db tc)) :
    ∃ x, storeHandle H call i s = some x ∧ AnswersAlike (.store call) y.1 x.1 ∧
      Agrees (past ++ (transferCall call).toList) x.2 y.2 := by
  obtain ⟨now, ctx, answer⟩ := i
  obtain rfl : ctx = none := hi
  cases call with
  | findByIdempotency tn key =>
    obtain rfl := Option.some.inj hy
    exact ⟨_, rfl, Matches.alike (x := (s.findByIdempotency none tn key, s)) found_injective
      (hm _ rfl)⟩
  | insertTransfer t evs auds =>
    obtain rfl := Option.some.inj hy
    exact ⟨_, rfl, Matches.alike unit_injective (hm _ rfl)⟩
  | getTransfer tn id =>
    obtain rfl := Option.some.inj hy
    exact ⟨_, rfl, Matches.alike (x := (s.getTransfer tn id, s)) transfer_injective (hm _ rfl)⟩
  | claimSPISubmission tn id tok u =>
    obtain rfl := Option.some.inj hy
    exact ⟨_, rfl, Matches.alike ofPair_injective (hm _ rfl)⟩
  | recordSPISubmission tn id tok m evs aud =>
    obtain rfl := Option.some.inj hy
    exact ⟨_, rfl, Matches.alike ofPair_injective (hm _ rfl)⟩
  | releaseSPISubmission tn id tok e r =>
    obtain rfl := Option.some.inj hy
    exact ⟨_, rfl, Matches.alike unit_injective (hm _ rfl)⟩
  | recordReviewDecision tn id st reason evs aud =>
    obtain rfl := Option.some.inj hy
    exact ⟨_, rfl, Matches.alike transfer_injective (hm _ rfl)⟩
  | updateSettlement tn id cb evs aud =>
    obtain rfl := Option.some.inj hy
    exact ⟨_, rfl, Matches.alike ofPair_injective (hm _ rfl)⟩
  | pendingSPISubmissions at_ limit =>
    cases answer with
    | order order =>
      simp only [pgStoreHandle] at hy
      split_ifs at hy with ho
      obtain rfl := Option.some.inj hy
      refine ⟨(s.pendingSPISubmissions order at_ limit, s), ?_, h.pending order at_ limit, ?_⟩
      · simp only [storeHandle, if_pos (h.rangeOrder ho)]
      · simpa [transferCall] using h
    | _ => cases hy
  | claimPendingOutbox n l t u => cases hy
  | markOutboxPublished n t d => cases hy
  | markOutboxFailed n t e r => cases hy

end step

/-! ## Runs -/

/-- What is assumed of a run: its contexts do not end, no tenant of a call has
a colon, identifiers are drawn once, and the SPI gives no identifier to two
transfers. -/
@[mk_iff]
structure Assumed {E : Env} (tr : Trace (pgSwitch E)) : Prop where
  live : ∀ a ∈ acts tr, a.inp.ctx = none
  tenantIDs : ∀ p ∈ spawned tr, ∀ tn ∈ p.2.tenant, 58 ∉ tn
  newIDs : (draws (acts tr)).Nodup
  messageIDs : DistinctIDs (spiIDs (·.messageID) (acts tr))
  endToEndIDs : DistinctIDs (spiIDs (·.endToEndID) (acts tr))

section runs

variable {E : Env} {tl dl : Option E.Lim} {tr : Trace (pgSwitch E)} {tr' : Trace (switch E)}
  {v : World (switch E)}

theorem Assumed.cut {e : Ev (pgSwitch E)} (h : Assumed (tr ++ [e])) : Assumed tr := by
  have hacts : (acts tr).Sublist (acts (tr ++ [e])) :=
    (List.sublist_append_left tr [e]).filterMap _
  have hspawned : (spawned tr).Sublist (spawned (tr ++ [e])) :=
    (List.sublist_append_left tr [e]).filterMap _
  exact
    { live := fun a ha => h.live a (hacts.subset ha)
      tenantIDs := fun p hp => h.tenantIDs p (hspawned.subset hp)
      newIDs := h.newIDs.sublist (hacts.filterMap _)
      messageIDs := h.messageIDs.mono (spiIDs_subset _ hacts.subset)
      endToEndIDs := h.endToEndIDs.mono (spiIDs_subset _ hacts.subset) }

/-- What does not depend on an answer of the store is the same in both runs. -/
theorem filterMap_alike {β : Type} {f : Action sig Input → Option β}
    (hf : ∀ o i r r', AnswersAlike o r r' → f ⟨o, i, r⟩ = f ⟨o, i, r'⟩)
    (h : List.Forall₂ (Ev.Alike AnswersAlike) tr tr') :
    (acts tr).filterMap f = (acts tr').filterMap f := by
  induction h with
  | nil => rfl
  | cons he _ ih =>
    cases he with
    | spawn cid c => exact ih
    | act cid i hr =>
      simp only [acts, List.filterMap_cons] at ih ⊢
      rw [hf _ i _ _ hr, ih]

theorem draws_alike (h : List.Forall₂ (Ev.Alike AnswersAlike) tr tr') :
    draws (acts tr) = draws (acts tr') := by
  refine filterMap_alike (fun o i r r' hr => ?_) h
  cases o with
  | newID tag => exact congrArg some hr
  | _ => rfl

theorem spiIDs_alike (f : SPIMessage → GoString)
    (h : List.Forall₂ (Ev.Alike AnswersAlike) tr tr') :
    spiIDs f (acts tr) = spiIDs f (acts tr') := by
  have hanswers : (acts tr).filterMap spiAnswer = (acts tr').filterMap spiAnswer := by
    refine filterMap_alike (fun o i r r' hr => ?_) h
    cases o with
    | submit t =>
      obtain rfl : r = r' := hr
      rfl
    | _ => rfl
  rw [spiIDs, spiIDs, hanswers]

theorem spawned_alike (h : List.Forall₂ (Ev.Alike AnswersAlike) tr tr') :
    spawned tr = spawned tr' := by
  induction h with
  | nil => rfl
  | cons he _ ih =>
    cases he with
    | spawn cid c =>
      simp only [spawned, List.filterMap_cons] at ih ⊢
      rw [ih]
    | act cid i hr => exact ih

/-- What a call has handed to the tables, the SPI has given to it. -/
theorem proper_of_mem (h : Runs E tl dl tr' v) {tc : TransferCall}
    (htc : tc ∈ transferCalls (acts tr')) : Proper (acts tr') tc := by
  obtain ⟨⟨o, i, r⟩, ha, hcall⟩ := List.mem_filterMap.mp htc
  obtain ⟨cid, hev⟩ := mem_acts.mp ha
  cases o with
  | store call =>
    obtain ⟨t₁, t₂, rfl⟩ := List.append_of_mem hev
    obtain ⟨c, -, hallows⟩ := (contract E tl dl).allows_at h
    have hens : ∀ a ∈ hist cid t₁, Ens a.op a.inp a.ret := fun a ha =>
      (contract E tl dl).ens_of_mem h (List.mem_append_left _ (mem_hist.mp ha))
    have hsub : hist cid t₁ ⊆ acts (t₁ ++ .act cid ⟨.store call, i, r⟩ :: t₂) := fun a ha =>
      mem_acts.mpr ⟨cid, List.mem_append_left _ (mem_hist.mp ha)⟩
    exact (proper_of_allows hens hallows hcall).mono hsub
  | _ => cases hcall

/-- The next store call of a run in memory is one that the tables admit. -/
theorem admits_of_thread (h : Runs E tl dl tr' v) (hids : (draws (acts tr')).Nodup)
    (hmsg : DistinctIDs (spiIDs (·.messageID) (acts tr')))
    (he2e : DistinctIDs (spiIDs (·.endToEndID) (acts tr'))) {cid : Nat} {c : Call}
    {call : StoreCall} {k : call.Ret → Prog sig Switcher.Outcome}
    (hth : v.threads cid = some ⟨c, .call (.store call) k⟩) {tc : TransferCall}
    (htc : transferCall call = some tc) (htn : 58 ∉ tc.tenantID) :
    Admits (transferCalls (acts tr')) tc := by
  have hens : ∀ a ∈ hist cid tr', Ens a.op a.inp a.ret := fun a ha =>
    (contract E tl dl).ens_of_mem h (mem_hist.mp ha)
  have hproper : Proper (acts tr') tc :=
    (proper_of_allows hens ((contract E tl dl).allows_of_thread h hth).2 htc).mono
      (hist_sublist_acts cid tr').subset
  have hall : ∀ tc' ∈ transferCalls (acts tr') ++ [tc], Proper (acts tr') tc' := by
    intro tc' hmem
    rcases List.mem_append.mp hmem with hold | hnew
    · exact proper_of_mem h hold
    · rwa [List.mem_singleton.mp hnew]
  have heventIDs : tc.eventIDs = Op.eventIDs (.store call) := eventIDs_transferCall htc
  obtain ⟨hnodup, hfresh⟩ := Drafted.fresh (by rwa [newIDs_eq]) h
    ((drafting E tl dl).allows_of_thread h hth).2
  exact
    { checks := hproper.checks
      tenantID := htn
      events := hproper.events
      audit := hproper.audit
      messageIDs := hmsg.mono fun p hp => by
        obtain ⟨tc', hmem, hp'⟩ := List.mem_flatMap.mp hp
        exact (hall tc' hmem).messageIDs hp'
      endToEndIDs := he2e.mono fun p hp => by
        obtain ⟨tc', hmem, hp'⟩ := List.mem_flatMap.mp hp
        exact (hall tc' hmem).endToEndIDs hp'
      eventIDs := by
        rw [heventIDs]
        exact hnodup
      newEventIDs := by
        rw [heventIDs, eventIDs_transferCalls]
        exact hfresh }

/-- The states of the two switches after matching runs. -/
structure Related (tr' : Trace (switch E)) (t : PgState E) (s : State E) : Prop where
  store : Agrees (transferCalls (acts tr')) s.store t.db
  tenantLimit : t.tenantLimit = s.tenantLimit
  dictLimit : t.dictLimit = s.dictLimit

/-- An action that is no transfer operation adds none. -/
theorem transferCalls_snoc (tr' : Trace (switch E)) (cid : Nat) (a : Action sig Input) :
    transferCalls (acts (tr' ++ [.act cid a])) =
      transferCalls (acts tr') ++ (callOf a).toList := by
  rw [acts_snoc_act, transferCalls, List.filterMap_append]
  cases hc : callOf a with
  | none => simp [transferCalls, hc]
  | some tc => simp [transferCalls, hc]

/-- The two states after a step that leaves the stores alone. -/
theorem Related.keep {t t' : PgState E} {s s' : State E} (h : Related tr' t s) {cid : Nat}
    {a : Action sig Input} (ha : callOf a = none) (hstore : s'.store = s.store)
    (hdb : t'.db = t.db) (htenant : t'.tenantLimit = s'.tenantLimit)
    (hdict : t'.dictLimit = s'.dictLimit) : Related (tr' ++ [.act cid a]) t' s' where
  store := by
    rw [transferCalls_snoc, ha, Option.toList_none, List.append_nil, hstore, hdb]
    exact h.store
  tenantLimit := htenant
  dictLimit := hdict

/-- The operations of the ports and the limiters are answered from the same
state. -/
theorem Related.port {t t' : PgState E} {s : State E} (h : Related tr' t s) {o : Op}
    (ho : ∀ call, o ≠ .store call) {i : Input} {r : o.Ret} (hr : pgHandle E o i t = some (r, t'))
    (cid : Nat) :
    ∃ s', handle E o i s = some (r, s') ∧ Related (tr' ++ [.act cid ⟨o, i, r⟩]) t' s' := by
  obtain ⟨now, ctx, answer⟩ := i
  cases o with
  | store call => exact absurd rfl (ho call)
  | now =>
    cases hr
    exact ⟨s, rfl, h.keep rfl rfl rfl h.tenantLimit h.dictLimit⟩
  | health =>
    cases hr
    exact ⟨s, rfl, h.keep rfl rfl rfl h.tenantLimit h.dictLimit⟩
  | newID tag =>
    cases answer with
    | random bytes =>
      simp only [pgHandle] at hr
      split_ifs at hr with hbytes
      cases hr
      exact ⟨s, if_pos hbytes, h.keep rfl rfl rfl h.tenantLimit h.dictLimit⟩
    | _ => cases hr
  | tenantAllow key =>
    simp only [pgHandle, h.tenantLimit] at hr
    cases hr
    exact ⟨_, rfl, h.keep rfl rfl rfl rfl h.dictLimit⟩
  | dictAllow key =>
    simp only [pgHandle, h.dictLimit] at hr
    cases hr
    exact ⟨_, rfl, h.keep rfl rfl rfl h.tenantLimit rfl⟩
  | resolve tn key ty =>
    cases answer with
    | dict x =>
      cases hr
      exact ⟨s, rfl, h.keep rfl rfl rfl h.tenantLimit h.dictLimit⟩
    | _ => cases hr
  | score req dict =>
    cases answer with
    | fraud x =>
      cases hr
      exact ⟨s, rfl, h.keep rfl rfl rfl h.tenantLimit h.dictLimit⟩
    | _ => cases hr
  | submit t =>
    cases answer with
    | spi x =>
      cases hr
      exact ⟨s, rfl, h.keep rfl rfl rfl h.tenantLimit h.dictLimit⟩
    | _ => cases hr
  | publish e =>
    cases answer with
    | published x =>
      cases hr
      exact ⟨s, rfl, h.keep rfl rfl rfl h.tenantLimit h.dictLimit⟩
    | _ => cases hr

/-- The next store call of a run in memory is answered alike by a database
that agrees with the store. -/
theorem store_matched (hrun : Runs E tl dl tr' v)
    (htr : List.Forall₂ (Ev.Alike AnswersAlike) tr tr') (hA : Assumed tr) {db : Database}
    (h : Agrees (transferCalls (acts tr')) v.state.store db) {cid : Nat} {c : Call}
    {call : StoreCall} {k : call.Ret → Prog sig Switcher.Outcome}
    (hth : v.threads cid = some ⟨c, .call (.store call) k⟩) (now : Time) {tc : TransferCall}
    (htc : transferCall call = some tc) :
    Matches (transferCalls (acts tr') ++ [tc]) (memoryServe E.digest now v.state.store tc)
      (postgresServe E.digest now db tc) := by
  obtain ⟨hspawn, hallows⟩ := (contract E tl dl).allows_of_thread hrun hth
  have hcolon : ∀ tn ∈ c.tenant, 58 ∉ tn := by
    refine hA.tenantIDs (cid, c) ?_
    rw [spawned_alike htr]
    exact mem_spawned.mpr hspawn
  by_cases htn : 58 ∈ tc.tenantID
  · -- only a call that names its transfer can carry such a tenant
    rcases tenantID_of_allows hcolon hallows htc with hfree | haddr
    · exact absurd htn hfree
    · exact h.unknown now htn haddr
  · refine step_agrees _ now h (admits_of_thread hrun ?_ ?_ ?_ hth htc htn)
    · rw [← draws_alike htr]
      exact hA.newIDs
    · rw [← spiIDs_alike _ htr]
      exact hA.messageIDs
    · rw [← spiIDs_alike _ htr]
      exact hA.endToEndIDs

/-- One operation of the switch on Postgres is matched by one in memory. -/
theorem pg_matched (E : Env) (tl dl : Option E.Lim) :
    Matched (Y := switch E) AnswersAlike Related (fun tr : Trace (pgSwitch E) => Assumed tr)
      (State.initial E tl dl) := by
  intro tr tr' v cid c o k i r t t' hrun htr hA hI hth hhandle
  cases o with
  | store call =>
    have hlive : i.ctx = none := hA.live ⟨.store call, i, r⟩ (by rw [acts_snoc_act]; simp)
    simp only [pgHandle] at hhandle
    split at hhandle
    · rename_i r₁ db₁ hy
      cases hhandle
      obtain ⟨x, hx, halike, hagrees⟩ := hI.store.store_step hlive hy
        fun tc htc => store_matched hrun htr hA.cut hI.store hth i.now htc
      refine ⟨x.1, { v.state with store := x.2 }, ?_, halike, ?_, hI.tenantLimit, hI.dictLimit⟩
      · simp only [handle, hx]
      · rw [transferCalls_snoc]
        exact hagrees
    · cases hhandle
  | _ =>
    obtain ⟨s', hs', hI'⟩ := hI.port (by simp) hhandle cid
    exact ⟨r, s', hs', rfl, hI'⟩

end runs

/-! ## A payment on Postgres -/

instance {E : Env} (tr : Trace (pgSwitch E)) : Decidable (Assumed tr) :=
  decidable_of_iff _ (assumed_iff tr).symm

set_option maxRecDepth 20000 in
theorem pgPayment_isSome : ((World.init (PgState.initial sampleEnv none none)).exec
    (Y := pgSwitch sampleEnv) (paymentLabels.map Label.over)).isSome := by
  decide +kernel

/-- The sample payment, on a database. -/
def pgPayment : Trace (pgSwitch sampleEnv) × World (pgSwitch sampleEnv) :=
  World.ran _ (paymentLabels.map Label.over) pgPayment_isSome

theorem pgPayment_runs : PgRuns sampleEnv none none pgPayment.1 pgPayment.2 :=
  World.run_ran _ _ _

set_option maxRecDepth 20000 in
theorem pgPayment_assumed : Assumed pgPayment.1 := by
  decide +kernel

end PixRail.Postgres
