import PixRail.Lifecycle.Machine
import PixRail.Switcher.Sample

/-!
# The outbox is the log of the diagram

Every write to a transfer is an arrow of the documented diagram, with the
events of that arrow, or leaves the status alone and writes no event
(`moves_edge`, `insert_edge`).  So the events of a transfer, in the order of
their sequence numbers, are a path of the diagram that ends in the status of
the transfer (`outbox_follows_lifecycle`).
-/

namespace PixRail.Lifecycle

open Go Rail Events Store Interleave Switcher

section steps

variable {E : Env} {tl dl : Option E.Lim} {tr : Trace (switch E)} {w : World (switch E)}
  {cid : Nat} {c : Call} {call : StoreCall} {i : Input}

theorem settle_edge {status : SettlementStatus} {st : TransferStatus} {ty : EventType}
    (hst : status.settles = some st) (hty : settlementEvent status = some ty) :
    Edge (some .approved) st [ty] := by
  cases status with
  | accepted =>
    obtain rfl := Option.some.inj hst
    obtain rfl := Option.some.inj hty
    exact .settle
  | rejected =>
    obtain rfl := Option.some.inj hst
    obtain rfl := Option.some.inj hty
    exact .reject
  | other raw h => exact absurd hst (by simp [SettlementStatus.settles])

/-- A transition is an arrow with its events, or no arrow and no event. -/
theorem moves_edge (h : Runs E tl dl tr w)
    (hallow : Allows E.toLib c (hist cid tr) (.store call)) {t t' : Transfer}
    (hm : Moves i call t t') :
    (call.outbox = [] ∧ t'.status = t.status) ∨
      ∃ types, Edge (some t.status) t'.status types ∧
        call.outbox.map (·.eventType) = types.map EventType.name ∧
        ∀ e ∈ call.outbox, e.transferID = t.id := by
  cases hm with
  | claim hcl =>
    obtain ⟨-, -, -, -, rfl⟩ := Transfer.claimSPISubmission_eq_ok.mp hcl
    exact .inl ⟨rfl, rfl⟩
  | release happ hrel =>
    obtain ⟨-, -, rfl⟩ := (Transfer.releaseSPISubmission_eq_ok happ).mp hrel
    exact .inl ⟨rfl, rfl⟩
  | record hrec =>
    obtain ⟨hst, -, -, -, -, rfl⟩ := Transfer.recordSPISubmission_eq_ok.mp hrec
    cases hallow with
    | record hfor hclaim hsubmit hevs =>
      obtain ⟨_, -, hens⟩ := ens_of_did h hclaim
      have hid := (hens _ rfl).1
      refine .inr ⟨submissionTypes, ?_, hevs.types, fun e he => ?_⟩
      · rw [hst]
        exact .submit
      · rw [(hevs.owned e he).2.2, hid]
  | review hrev =>
    obtain ⟨hst, -, rfl⟩ := Transfer.recordReviewDecision_eq_ok.mp hrev
    cases hallow with
    | review hc htn hget hreview hstatus hevs =>
      obtain ⟨_, -, hens⟩ := ens_of_did h hget
      have hid := (hens _ rfl).1
      refine .inr ⟨_, ?_, hevs.types, fun e he => ?_⟩
      · rw [hst]
        rcases hstatus with rfl | rfl
        · exact .approveReview
        · exact .blockReview
      · rw [(hevs.owned e he).2.2, hid]
  | settle hset =>
    obtain ⟨-, -, hst, st, hst', rfl⟩ := Transfer.recordSettlement_eq_ok.mp hset
    cases hallow with
    | settle hc htn hid hne hget hspi hty hevs =>
      obtain ⟨_, -, hens⟩ := ens_of_did h hget
      have hid := (hens _ rfl).1
      refine .inr ⟨_, ?_, hevs.types, fun e he => ?_⟩
      · rw [hst]
        exact settle_edge hst' hty
      · rw [(hevs.owned e he).2.2, hid]

/-- An insert is an arrow from the initial state. -/
theorem insert_edge (hm : E.Marshals) {t : Transfer} {evs : List Event}
    {auds : List AuditRecord}
    (hallow : Allows E.toLib c (hist cid tr) (.store (.insertTransfer t evs auds))) :
    ∃ types, Edge none t.status types ∧ evs.map (·.eventType) = types.map EventType.name ∧
      ∀ e ∈ evs, e.transferID = t.id := by
  cases hallow with
  | insert hc hvalid hstatus hfirst hid hfind ht hevs =>
    obtain ⟨types, hb, -, htypes⟩ := hevs
    obtain rfl := htypes hm
    refine ⟨_, ?_, hb.types, fun e he => (hb.owned e he).2.2⟩
    rw [ht]
    show Edge none (FraudDecision.status _) _
    rcases hstatus with hst | hst | hst <;> rw [hst]
    · exact .accept
    · exact .hold
    · exact .block

end steps

/-- The types of the events that name a transfer, in the order of the log. -/
def typesOf (s : MemoryStore) (id : GoString) : List GoString :=
  ((s.events.map (·.event)).filter fun e => e.transferID = id).map (·.eventType)

/-- The log is one path of the diagram for each transfer, and names no other
transfer. -/
structure Logged (s : MemoryStore) : Prop where
  path : ∀ id t, s.transfers.lookup id = some t →
    ∃ p, Path (some t.status) p ∧ typesOf s id = p.map EventType.name
  known : ∀ rec ∈ s.events, rec.event.transferID ∈ s.transfers

theorem typesOf_step {H : Digest} {s s' : MemoryStore} {i : Input} {call : StoreCall}
    {r : call.Ret} (hs : StoreStep H s i call r s') (id : GoString) :
    typesOf s' id = typesOf s id ++
      (call.outbox.filter fun e => e.transferID = id).map (·.eventType) := by
  rw [typesOf, hs.events_eq, List.filter_append, List.map_append]
  rfl

theorem filter_owner {evs : List Event} {id id' : GoString}
    (h : ∀ e ∈ evs, e.transferID = id) :
    evs.filter (fun e => e.transferID = id') = if id' = id then evs else [] := by
  split
  · rename_i hid
    subst hid
    exact List.filter_eq_self.mpr fun e he => by simp [h e he]
  · rename_i hid
    refine List.filter_eq_nil_iff.mpr fun e he => ?_
    rw [h e he]
    simpa using fun he => hid he.symm

theorem typesOf_eq_nil {s : MemoryStore} (hl : Logged s) {id : GoString}
    (hnew : s.transfers.lookup id = none) : typesOf s id = [] := by
  rw [typesOf, List.map_eq_nil_iff, List.filter_eq_nil_iff]
  intro e he
  obtain ⟨rec, hrec, rfl⟩ := List.mem_map.mp he
  have hmem := hl.known rec hrec
  intro hid
  rw [decide_eq_true_eq] at hid
  rw [hid] at hmem
  exact Finmap.lookup_eq_none.mp hnew hmem

/-- One more arrow for the transfer `id`, and no other change. -/
theorem Logged.step {H : Digest} {s s' : MemoryStore} {i : Input} {call : StoreCall}
    {r : call.Ret} (hl : Logged s) (hs : StoreStep H s i call r s') {id : GoString}
    {t : Transfer} (htr : s'.transfers = s.transfers.insert id t)
    (howner : ∀ e ∈ call.outbox, e.transferID = id)
    (hpath : ∃ p, Path (some t.status) p ∧
      typesOf s id ++ call.outbox.map (·.eventType) = p.map EventType.name) : Logged s' := by
  refine ⟨fun id' t' hl' => ?_, fun rec hrec => ?_⟩
  · rw [htr] at hl'
    rw [typesOf_step hs, filter_owner howner]
    rcases lookup_insert_eq_some.mp hl' with ⟨rfl, rfl⟩ | ⟨hne, hl'⟩
    · rwa [if_pos rfl]
    · rw [if_neg hne, List.map_nil, List.append_nil]
      exact hl.path id' t' hl'
  · have hmem : rec.event ∈ s.events.map (·.event) ++ call.outbox := by
      rw [← hs.events_eq]
      exact List.mem_map_of_mem hrec
    rw [htr, Finmap.mem_insert]
    rcases List.mem_append.mp hmem with hold | hnew
    · obtain ⟨rec', hrec', he⟩ := List.mem_map.mp hold
      rw [← he]
      exact .inr (hl.known rec' hrec')
    · exact .inl (howner _ hnew)

theorem runs_logged {E : Env} {tl dl : Option E.Lim} {tr : Trace (switch E)}
    {w : World (switch E)} (hm : E.Marshals) (h : Runs E tl dl tr w) : Logged w.state.store := by
  refine store_invariant (I := fun _ s => Logged s) ?_ (fun _ hl _ _ _ => hl) ?_ h
  · exact ⟨fun id t hl => by simp [newMemoryStore] at hl, fun rec hrec => by
      simp [newMemoryStore] at hrec⟩
  · intro tr w cid c call i r s' hrun hl hc hallow hs
    rcases hs.transfers_cases (runs_keyed hrun) with
      ⟨htr, hout⟩ | ⟨t, evs, auds, rfl, hnew, htr⟩ | ⟨t, t', hold, hmv, htr⟩
    · have hev := hs.events_eq
      rw [hout, List.append_nil] at hev
      refine ⟨fun id t ht => ?_, fun rec hrec => ?_⟩
      · rw [htr] at ht
        rw [typesOf, hev]
        exact hl.path id t ht
      · have hmem := List.mem_map_of_mem (f := fun r => r.event) hrec
        rw [hev] at hmem
        obtain ⟨rec', hrec', he⟩ := List.mem_map.mp hmem
        rw [htr, ← he]
        exact hl.known rec' hrec'
    · obtain ⟨types, hedge, htypes, howner⟩ := insert_edge hm hallow
      refine hl.step hs htr howner ⟨types, ?_, ?_⟩
      · exact Path.start.step hedge
      · rw [typesOf_eq_nil hl hnew]
        exact htypes
    · obtain ⟨p, hp, htypes⟩ := hl.path t.id t hold
      rcases moves_edge hrun hallow hmv with ⟨hout, hst⟩ | ⟨types, hedge, hout, howner⟩
      · refine hl.step hs htr (by simp [hout]) ⟨p, ?_, ?_⟩
        · rwa [hst]
        · rw [hout, List.map_nil, List.append_nil, htypes]
      · refine hl.step hs htr howner ⟨p ++ types, hp.step hedge, ?_⟩
        rw [List.map_append, htypes, hout]

/-- In every reachable state the outbox is ordered by sequence number, and
the event types of a transfer in that order are exactly one path of the
diagram, ending in the status of the transfer. -/
theorem outbox_follows_lifecycle {E : Env} {tl dl : Option E.Lim} {tr : Trace (switch E)}
    {w : World (switch E)} (hm : E.Marshals) (h : Runs E tl dl tr w) :
    (w.state.store.events.Pairwise fun a b => a.sequence < b.sequence) ∧
      (∀ rec ∈ w.state.store.events, rec.event.transferID ∈ w.state.store.transfers) ∧
      ∀ id t, w.state.store.transfers.lookup id = some t →
        ∃! p, Path (some t.status) p ∧ typesOf w.state.store id = p.map EventType.name := by
  have hl := runs_logged hm h
  refine ⟨(runs_numbered h).pairwise, hl.known, fun id t ht => ?_⟩
  obtain ⟨p, hp, htypes⟩ := hl.path id t ht
  refine ⟨p, ⟨hp, htypes⟩, fun q hq => ?_⟩
  rw [htypes] at hq
  exact EventType.name_injective.list_map hq.2.symm

/-- The sample payment has run through the diagram to `settled`. -/
theorem outbox_follows_lifecycle_payment :
    ∃ t, payment.2.state.store.transfers.lookup sampleID = some t ∧ t.status = .settled ∧
      ∃! p, Path (some t.status) p ∧
        typesOf payment.2.state.store sampleID = p.map EventType.name := by
  have hst : (payment.2.state.store.transfers.lookup sampleID).map (·.status) =
      some .settled := by
    decide +kernel
  obtain ⟨t, ht, hst⟩ := Option.map_eq_some_iff.mp hst
  have h := outbox_follows_lifecycle (tableEnv_marshals _ _) payment_runs
  exact ⟨t, ht, hst, h.2.2 sampleID t ht⟩

end PixRail.Lifecycle
