import PixRail.Lease.Fenced
import PixRail.Lifecycle.Sound

/-!
# Claims on the SPI submission of a transfer

The claim token and the claim expiry of a transfer are a fenced lease whose
workers are the `SubmitToSPI` runs: a run is a call together with the token
it drew.  The release time and the claim expiry share one field of the
transfer, and the token stands for the run that drew it.  `runs_lease` shows
that the claims, the records and the releases of every run of the switch
replay on the lease of each transfer; what a lease guarantees carries over.
-/

namespace PixRail.Submission

open Go Rail Events Store Interleave Switcher Lifecycle

/-- A run of `SubmitToSPI`: the call, and the claim token it drew. -/
abbrev Worker := Nat × GoString

variable {E : Env} {tl dl : Option E.Lim} {tr : Trace (switch E)} {w : World (switch E)}
  {id : GoString}

/-- What an entry of a trace does to the claim on transfer `id`. -/
def leaseEv (id : GoString) : Ev (switch E) → Option (Lease.Ev Worker Time)
  | .act cid ⟨.store (.claimSPISubmission _ id' tok u), i, .ok (_, false)⟩ =>
    if id' = id then some (.claim (cid, tok) i.now u) else none
  | .act cid ⟨.store (.recordSPISubmission _ id' tok _ _ _), _, .ok (_, false)⟩ =>
    if id' = id then some (.finish (cid, tok)) else none
  | .act cid ⟨.store (.releaseSPISubmission _ id' tok _ r), _, .ok ()⟩ =>
    if id' = id then some (.release (cid, tok) r) else none
  | _ => none

/-- The log of the claims on transfer `id`. -/
def leaseLog (id : GoString) (tr : Trace (switch E)) : List (Lease.Ev Worker Time) :=
  tr.filterMap (leaseEv id)

theorem leaseLog_append (t₁ t₂ : Trace (switch E)) :
    leaseLog id (t₁ ++ t₂) = leaseLog id t₁ ++ leaseLog id t₂ :=
  List.filterMap_append

theorem leaseLog_cut {e : Ev (switch E)} {x : Lease.Ev Worker Time} (he : leaseEv id e = some x)
    (t₁ t₂ : Trace (switch E)) :
    leaseLog id (t₁ ++ e :: t₂) = leaseLog id t₁ ++ x :: leaseLog id t₂ := by
  rw [leaseLog_append]
  simp only [leaseLog, List.filterMap_cons_some he]

theorem leaseLog_snoc (e : Ev (switch E)) :
    leaseLog id (tr ++ [e]) = leaseLog id tr ++ (leaseEv id e).toList := by
  cases he : leaseEv id e <;> simp [leaseLog, he]

/-! ## The runs behind the log -/

/-- A claim of the log is a claim of the trace. -/
theorem leaseEv_claim {e : Ev (switch E)} {cid : Nat} {tok : GoString} {now u : Time}
    (h : leaseEv id e = some (.claim (cid, tok) now u)) :
    ∃ tn i t, e = actEv cid (.store (.claimSPISubmission tn id tok u)) i (.ok (t, false)) ∧
      i.now = now := by
  unfold leaseEv at h
  split at h
  · obtain ⟨rfl, he⟩ := Option.ite_none_right_eq_some.mp h
    rw [Option.some.injEq, Lease.Ev.claim.injEq, Prod.mk.injEq] at he
    obtain ⟨⟨rfl, rfl⟩, rfl, rfl⟩ := he
    exact ⟨_, _, _, rfl, rfl⟩
  · obtain ⟨-, he⟩ := Option.ite_none_right_eq_some.mp h
    exact absurd he (by simp)
  · obtain ⟨-, he⟩ := Option.ite_none_right_eq_some.mp h
    exact absurd he (by simp)
  · exact absurd h (by simp)

theorem mem_claimers {k : Worker} (h : k ∈ Lease.claimers (leaseLog id tr)) :
    ∃ tn u i t, actEv k.1 (.store (.claimSPISubmission tn id k.2 u)) i (.ok (t, false)) ∈ tr := by
  obtain ⟨x, hx, hk⟩ := List.mem_filterMap.mp h
  obtain ⟨e, he, hex⟩ := List.mem_filterMap.mp hx
  cases x with
  | claim k' now u =>
    obtain rfl := Option.some.inj hk
    obtain ⟨tn, i, t, rfl, -⟩ := leaseEv_claim hex
    exact ⟨tn, u, i, t, he⟩
  | finish k' => exact absurd hk (by simp [Lease.Ev.claimer])
  | release k' r => exact absurd hk (by simp [Lease.Ev.claimer])

section draw

variable {t₁ t₂ : Trace (switch E)} {cid cid' : Nat} {tn tn' id' tok : GoString} {u u' : Time}
  {i i' : Input} {r r' : Except Err (Transfer × Bool)}

/-- A call draws its token right before it claims. -/
theorem claim_hist
    (h : Runs E tl dl (t₁ ++ actEv cid (.store (.claimSPISubmission tn id tok u)) i r :: t₂) w) :
    ∃ h₀ j j' now, hist cid t₁ = h₀ ++ [⟨.newID (go "spiclaim"), j, tok⟩, ⟨.now, j', now⟩] := by
  obtain ⟨c, -, hallow⟩ := (contract E tl dl).allows_at h
  generalize hh : hist cid t₁ = h₁ at hallow
  cases hallow with
  | claim hc hfor hh' => exact ⟨_, _, _, _, hh'⟩

theorem claim_drawn (h : Runs E tl dl tr w)
    (ha : actEv cid (.store (.claimSPISubmission tn id tok u)) i r ∈ tr) :
    ∃ j, actEv cid (.newID (go "spiclaim")) j tok ∈ tr := by
  obtain ⟨t₁, t₂, rfl⟩ := List.append_of_mem ha
  obtain ⟨h₀, j, j', now, hh⟩ := claim_hist h
  refine ⟨j, List.mem_append_left _ (mem_hist.mp ?_)⟩
  rw [hh]
  exact List.mem_append_right _ List.mem_cons_self

/-- No two claims share a token. -/
theorem claim_fresh (hids : (newIDs t₁).Nodup)
    (h : Runs E tl dl (t₁ ++ actEv cid (.store (.claimSPISubmission tn id tok u)) i r :: t₂) w) :
    actEv cid' (.store (.claimSPISubmission tn' id' tok u')) i' r' ∉ t₁ := by
  intro hmem
  obtain ⟨w₁, -, hrun, -⟩ := runs_at h
  obtain ⟨h₀, j, j', now, hh⟩ := claim_hist h
  obtain ⟨p, q, rfl, -, hq⟩ := hist_split hh
  obtain ⟨j₁, hdrawn⟩ := claim_drawn hrun hmem
  have hcid := drawn_unique hids hdrawn (List.mem_append_right _ List.mem_cons_self)
  subst hcid
  rcases List.mem_append.mp hmem with hp | hp
  · -- an earlier claim drew the token before this call drew it again
    obtain ⟨a, b, rfl⟩ := List.append_of_mem hp
    obtain ⟨w₂, hrun₂, -⟩ := hrun.split
    obtain ⟨j₂, hdrawn₂⟩ := claim_drawn hrun₂ hp
    exact (not_mem_of_nodup_filterMap (f := drawnID) hids rfl rfl).1 hdrawn₂
  · rcases List.mem_cons.mp hp with hp | hp
    · injection hp with _ hp
      injection hp with hp
      exact absurd hp (by simp)
    · have := mem_hist.mpr hp
      rw [hq, List.mem_singleton] at this
      injection this with this
      exact absurd this (by simp)

end draw

/-- The call of a claim is determined by the token. -/
theorem claim_unique (hids : (newIDs tr).Nodup) (h : Runs E tl dl tr w) {cid cid' : Nat}
    {tn tn' id' tok : GoString} {u u' : Time} {i i' : Input}
    {r r' : Except Err (Transfer × Bool)}
    (ha : actEv cid (.store (.claimSPISubmission tn id tok u)) i r ∈ tr)
    (ha' : actEv cid' (.store (.claimSPISubmission tn' id' tok u')) i' r' ∈ tr) : cid = cid' := by
  obtain ⟨j, hj⟩ := claim_drawn h ha
  obtain ⟨j', hj'⟩ := claim_drawn h ha'
  exact drawn_unique hids hj hj'

theorem nodup_newIDs_of_snoc {e : Ev (switch E)} (h : (newIDs (tr ++ [e])).Nodup) :
    (newIDs tr).Nodup := by
  rw [newIDs, List.filterMap_append] at h
  exact (List.nodup_append.mp h).1

/-- No run claims twice. -/
theorem runs_claimers_nodup (hids : (newIDs tr).Nodup) (h : Runs E tl dl tr w) (id : GoString) :
    (Lease.claimers (leaseLog id tr)).Nodup := by
  induction h with
  | nil => exact List.nodup_nil
  | @snoc tr w w' e hrun hstep ih =>
    have hold := nodup_newIDs_of_snoc hids
    rw [leaseLog_snoc, Lease.claimers_append]
    cases he : leaseEv id e with
    | none => simpa using ih hold
    | some x =>
      cases x with
      | finish k => simpa using ih hold
      | release k r => simpa using ih hold
      | claim k now u =>
        obtain ⟨tn, i, t, rfl, -⟩ := leaseEv_claim he
        refine (ih hold).append (List.nodup_singleton k) ?_
        intro k' hk hk'
        obtain rfl := List.mem_singleton.mp hk'
        obtain ⟨tn', u', i', t', ha⟩ := mem_claimers hk
        exact claim_fresh hold (hrun.snoc hstep) ha

/-! ## The lease of a transfer -/

/-- The lease that a transfer carries. -/
structure Carries (x : Lease.Item Worker Time) (t : Transfer) : Prop where
  token : t.spiClaimToken = (x.holder.map Prod.snd).getD []
  till : t.spiClaimedUntil = x.till
  done : x.done = true ↔
    t.status = .approved ∨ t.status = .settled ∨ t.status = .rejected
  attempts : t.spiSubmissionAttempts = x.claims

/-- An id that is not stored has the free lease. -/
def Tracks (x : Lease.Item Worker Time) : Option Transfer → Prop
  | none => x = {}
  | some t => Carries x t

theorem Carries.not_done {x : Lease.Item Worker Time} {t : Transfer} (hc : Carries x t)
    (hst : t.status = .accepted ∨ t.status = .review) : x.done = false := by
  rw [Bool.eq_false_iff, ne_eq, hc.done]
  rcases hst with hst | hst <;> simp [hst]

/-- The token of a transfer names the holder of its lease. -/
theorem Carries.holder {x : Lease.Item Worker Time} {t : Transfer} (hc : Carries x t)
    (hne : t.spiClaimToken ≠ []) : ∃ cid, x.holder = some (cid, t.spiClaimToken) := by
  have htok := hc.token
  cases hx : x.holder with
  | none =>
    rw [hx] at htok
    exact absurd htok hne
  | some k =>
    rw [hx] at htok
    exact ⟨k.1, by rw [htok]; rfl⟩

section moves

variable {x : Lease.Item Worker Time} {t t' : Transfer} {cid : Nat} {tok : GoString}

theorem Carries.claim (hc : Carries x t) (cid : Nat) {u now : Time}
    (h : t.claimSPISubmission tok u now = .ok t') :
    ∃ y, x.step (.claim (cid, tok) now u) = some y ∧ Carries y t' := by
  obtain ⟨-, -, hst, hfree, rfl⟩ := Transfer.claimSPISubmission_eq_ok.mp h
  rw [hc.till] at hfree
  refine ⟨_, if_pos ⟨hc.not_done (.inl hst), hfree⟩, rfl, rfl, hc.done, ?_⟩
  show t.spiSubmissionAttempts + 1 = ((x.claims + 1 : Nat) : Int)
  have := hc.attempts
  omega

theorem Carries.record (hc : Carries x t) {m : SPIMessage} (hw : x.holder = some (cid, tok))
    (h : t.recordSPISubmission tok m = .ok t') :
    ∃ y, x.step (.finish (cid, tok)) = some y ∧ Carries y t' := by
  obtain ⟨hst, -, -, -, -, rfl⟩ := Transfer.recordSPISubmission_eq_ok.mp h
  exact ⟨_, if_pos ⟨hc.not_done (.inl hst), hw⟩, rfl, rfl, by simp, hc.attempts⟩

theorem Carries.release (hc : Carries x t) {e : GoString} {r now : Time}
    (hw : x.holder = some (cid, tok)) (hd : x.done = false)
    (happ : ¬ (t.status = .approved ∧ t.spiMessageID ≠ []))
    (h : t.releaseSPISubmission tok e r now = .ok t') :
    ∃ y, x.step (.release (cid, tok) r) = some y ∧ Carries y t' := by
  obtain ⟨-, -, rfl⟩ := (Transfer.releaseSPISubmission_eq_ok happ).mp h
  refine ⟨{ x with holder := none, till := some r }, ?_, rfl, rfl, hc.done, hc.attempts⟩
  simp [Lease.Item.step, hd, hw]

theorem Carries.review (hc : Carries x t) {st : TransferStatus} {reason : GoString} {at_ : Time}
    (h : t.recordReviewDecision st reason at_ = .ok t') : Carries x t' := by
  obtain ⟨hrev, hst, rfl⟩ := Transfer.recordReviewDecision_eq_ok.mp h
  refine ⟨hc.token, hc.till, ?_, hc.attempts⟩
  rw [hc.not_done (.inr hrev)]
  rcases hst with rfl | rfl <;> simp

theorem Carries.settle (hc : Carries x t) {cb : SettlementCallback}
    (h : t.recordSettlement cb = .ok t') : Carries x t' := by
  obtain ⟨hdone, -⟩ := settles_done h
  obtain ⟨-, -, happ, st, -, rfl⟩ := Transfer.recordSettlement_eq_ok.mp h
  refine ⟨hc.token, hc.till, ?_, hc.attempts⟩
  rw [hc.done.mpr (.inl happ)]
  exact ⟨fun _ => .inr hdone, fun _ => rfl⟩

end moves

/-! ## Every run replays on the leases -/

section put

variable {s : MemoryStore} {tn id' : GoString} {t t' : Transfer}

theorem lookup_put_self (hk : s.Keyed) (hfind : s.owned tn id = some t) (hid : t'.id = t.id) :
    (s.transfers.insert t'.id t').lookup id = some t' := by
  obtain ⟨hl, -⟩ := MemoryStore.owned_eq_some.mp hfind
  rw [hid, hk _ _ hl, Finmap.lookup_insert]

theorem lookup_put_ne (hk : s.Keyed) (hfind : s.owned tn id' = some t) (hid : t'.id = t.id)
    (hne : id' ≠ id) :
    (s.transfers.insert t'.id t').lookup id = s.transfers.lookup id := by
  obtain ⟨hl, -⟩ := MemoryStore.owned_eq_some.mp hfind
  rw [hid, hk _ _ hl, Finmap.lookup_insert_of_ne _ hne.symm]

end put

/-- A release that changes nothing found the submission recorded. -/
theorem release_quiet {H : Digest} {s : MemoryStore} {i : Input} {tn tok e : GoString} {r : Time}
    (hk : s.Keyed)
    (h : storeHandle H (.releaseSPISubmission tn id tok e r) i s = some (.ok (), s)) :
    ∃ t, s.transfers.lookup id = some t ∧ t.status = .approved := by
  have h := Option.some.inj h
  unfold MemoryStore.releaseSPISubmission at h
  split at h
  · exact absurd (congrArg Prod.fst h) (by simp)
  · split at h
    · exact absurd (congrArg Prod.fst h) (by simp)
    · rename_i t hfind
      obtain ⟨hl, -⟩ := MemoryStore.owned_eq_some.mp hfind
      split at h
      · rename_i happ
        exact ⟨t, hl, happ.1⟩
      · rename_i happ
        split at h
        · exact absurd (congrArg Prod.fst h) (by simp)
        · rename_i t' hrel
          -- a release takes the token away, so the store would be another one
          obtain ⟨htok, -, ht'⟩ := (Transfer.releaseSPISubmission_eq_ok happ).mp hrel
          have hput := lookup_put_self hk hfind (show t'.id = t.id by rw [ht'])
          have hsame : s.transfers.insert t'.id t' = s.transfers :=
            congrArg (fun p => p.2.transfers) h
          rw [hsame, hl, Option.some.injEq] at hput
          rw [hput, ht'] at htok
          exact absurd rfl htok

/-- An entry of the log that leaves the store as it is. -/
theorem leaseEv_quiet {e : Ev (switch E)} {x : Lease.Ev Worker Time} (hq : Quiet e)
    (h : leaseEv id e = some x) :
    ∃ cid tn tok er r i, e = actEv cid (.store (.releaseSPISubmission tn id tok er r)) i (.ok ()) ∧
      x = .release (cid, tok) r := by
  unfold leaseEv at h
  split at h
  · exact absurd rfl (hq _)
  · exact absurd rfl (hq _)
  · obtain ⟨rfl, he⟩ := Option.ite_none_right_eq_some.mp h
    exact ⟨_, _, _, _, _, _, rfl, (Option.some.inj he).symm⟩
  · exact absurd h (by simp)

/-- The run that claimed with the stored token holds the lease. -/
theorem holder_of_claim (hids : (newIDs tr).Nodup) (h : Runs E tl dl tr w)
    {x : Lease.Item Worker Time} (hx : Lease.replay {} (leaseLog id tr) = some x) {t : Transfer}
    (hc : Carries x t) (hne : t.spiClaimToken ≠ []) {cid : Nat} {tn id' : GoString} {u : Time}
    {r : Except Err (Transfer × Bool)}
    (hclaim : Did (hist cid tr) (.store (.claimSPISubmission tn id' t.spiClaimToken u)) r) :
    x.holder = some (cid, t.spiClaimToken) := by
  obtain ⟨cid', hw⟩ := hc.holder hne
  obtain ⟨tn₁, u₁, i₁, t₁, ha⟩ := mem_claimers (List.mem_of_getLast? ((Lease.last_claimer hx).1 _ hw))
  obtain ⟨j, hj⟩ := hclaim
  obtain rfl : cid' = cid := claim_unique hids h ha (mem_hist.mp hj)
  exact hw

/-- The lease after a transition of a transfer: the entry acts on the lease
of that transfer and on no other. -/
theorem Tracks.move {s : MemoryStore} {x : Lease.Item Worker Time} {log : List (Lease.Ev Worker Time)}
    (ht : Tracks x (s.transfers.lookup id)) (hx : Lease.replay {} log = some x) (hk : s.Keyed)
    {tn id' : GoString} {t t' : Transfer} (hfind : s.owned tn id' = some t) (hid : t'.id = t.id)
    {o : Option (Lease.Ev Worker Time)}
    (hcarry : id' = id → Carries x t →
      ∃ y, Lease.replay {} (log ++ o.toList) = some y ∧ Carries y t') :
    ∃ y, Lease.replay {} (log ++ (if id' = id then o else none).toList) = some y ∧
      Tracks y ((s.transfers.insert t'.id t').lookup id) := by
  by_cases he : id' = id
  · subst he
    rw [(MemoryStore.owned_eq_some.mp hfind).1] at ht
    rw [if_pos rfl, lookup_put_self hk hfind hid]
    exact hcarry rfl ht
  · rw [if_neg he, Option.toList_none, List.append_nil, lookup_put_ne hk hfind hid he]
    exact ⟨x, hx, ht⟩

/-- The claims on every transfer replay on the lease it carries. -/
theorem runs_lease (hids : (newIDs tr).Nodup) (h : Runs E tl dl tr w) (id : GoString) :
    ∃ x, Lease.replay {} (leaseLog id tr) = some x ∧
      Tracks x (w.state.store.transfers.lookup id) := by
  refine store_invariant (I := fun tr s => (newIDs tr).Nodup →
    ∃ x, Lease.replay {} (leaseLog id tr) = some x ∧ Tracks x (s.transfers.lookup id))
    ?_ ?_ ?_ h hids
  · intro _
    exact ⟨{}, rfl, by simp [newMemoryStore, Tracks]⟩
  · intro tr w e w' hrun hi hstep hq hsame hids
    obtain ⟨x, hx, ht⟩ := hi (nodup_newIDs_of_snoc hids)
    rw [leaseLog_snoc]
    cases he : leaseEv id e with
    | none => exact ⟨x, by simpa using hx, ht⟩
    | some ev =>
      obtain ⟨cid, tn, tok, er, r, i, rfl, rfl⟩ := leaseEv_quiet hq he
      have hcall := step_store hstep
      rw [hsame] at hcall
      obtain ⟨t, hl, happ⟩ := release_quiet (runs_keyed hrun) hcall
      rw [hl] at ht
      have hdone := ht.done.mpr (.inl happ)
      rw [hl]
      exact ⟨x, Lease.replay_snoc.mpr ⟨x, hx, if_pos hdone⟩, ht⟩
  · intro tr w cid c call i r s' hrun hi _ hallow hs hids
    have hold := nodup_newIDs_of_snoc hids
    obtain ⟨x, hx, ht⟩ := hi hold
    have hk := runs_keyed hrun
    rw [leaseLog_snoc]
    cases hs with
    | @inserted t evs auds hnew hidem =>
      cases hallow with
      | insert hc hvalid hstatus hfirst hdraw hfind ht₀ hevs =>
        refine ⟨x, by simpa [leaseEv] using hx, ?_⟩
        simp only [MemoryStore.write_transfers]
        by_cases he : t.id = id
        · subst he
          rw [hnew] at ht
          rw [Finmap.lookup_insert]
          obtain rfl : x = {} := ht
          subst ht₀
          refine ⟨rfl, rfl, ?_, rfl⟩
          rcases hstatus with hst | hst | hst <;> simp [newTransfer, hst]
        · rwa [Finmap.lookup_insert_of_ne _ (Ne.symm he)]
    | @claimed tn id' tok u t t' hctx hfind hclaim =>
      refine ht.move hx hk hfind (Moves.claim (i := i) hclaim).sameOrder.id
        (o := some (.claim (cid, tok) i.now u)) fun _ hc => ?_
      obtain ⟨y, hy, hc'⟩ := hc.claim cid hclaim
      exact ⟨y, Lease.replay_snoc.mpr ⟨x, hx, hy⟩, hc'⟩
    | @recorded tn id' tok m evs aud t t' hctx hfind hrecord =>
      obtain ⟨-, hne, rfl, -⟩ := Transfer.recordSPISubmission_eq_ok.mp hrecord
      rw [MemoryStore.write_transfers]
      have hm : Moves i (.recordSPISubmission t.tenantID t.id _ m evs aud) t t' := .record hrecord
      refine ht.move hx hk hfind hm.sameOrder.id
        (o := some (.finish (cid, t.spiClaimToken))) fun _ hc => ?_
      cases hallow with
      | record hfor hclaim hsubmit hevs =>
        obtain ⟨y, hy, hc'⟩ := hc.record (holder_of_claim hold hrun hx hc hne hclaim) hrecord
        exact ⟨y, Lease.replay_snoc.mpr ⟨x, hx, hy⟩, hc'⟩
    | @released tn id' tok e r t t' hctx hfind happ hrelease =>
      obtain ⟨hne, rfl, -⟩ := (Transfer.releaseSPISubmission_eq_ok happ).mp hrelease
      refine ht.move hx hk hfind (Moves.release happ hrelease).sameOrder.id
        (o := some (.release (cid, t.spiClaimToken) r)) fun _ hc => ?_
      have hsound := runs_sound hrun (MemoryStore.owned_eq_some.mp hfind).1
      have hd := hc.not_done (.inl (hsound.claimed hne).1)
      cases hallow with
      | release _ hfor hclaim hnow =>
        obtain ⟨y, hy, hc'⟩ := hc.release (holder_of_claim hold hrun hx hc hne hclaim) hd happ hrelease
        exact ⟨y, Lease.replay_snoc.mpr ⟨x, hx, hy⟩, hc'⟩
    | @reviewed tn id' st reason evs aud t t' hfind hreview =>
      rw [MemoryStore.write_transfers]
      have hm : Moves i (.recordReviewDecision t.tenantID t.id st reason evs aud) t t' :=
        .review hreview
      have hmv := ht.move hx hk hfind hm.sameOrder.id
        (o := none) fun _ hc => ⟨x, by simpa using hx, hc.review hreview⟩
      simpa [leaseEv] using hmv
    | @settled tn id' cb evs aud t t' hfind hnew hsettle =>
      have hm : Moves i (.updateSettlement t.tenantID t.id cb evs aud) t t' := .settle hsettle
      have hmv := ht.move hx hk hfind hm.sameOrder.id
        (o := none) fun _ hc => ⟨x, by simpa using hx, hc.settle hsettle⟩
      simpa [leaseEv] using hmv
    | outboxClaimed => exact ⟨x, by simpa [leaseEv] using hx, ht⟩
    | outboxPublished hctx hmark => exact ⟨x, by simpa [leaseEv] using hx, ht⟩
    | outboxFailed hctx hmark => exact ⟨x, by simpa [leaseEv] using hx, ht⟩

/-! ## What the leases guarantee -/

/-- The order of the claims on a transfer in a run. -/
structure Fenced (E : Env) (tl dl : Option E.Lim) (tr : Trace (switch E)) (w : World (switch E))
    (id : GoString) : Prop where
  /-- Between a claim and the earlier of its expiry and of the record or the
  release of the same run, no other claim succeeds. -/
  exclusive : ∀ {t₁ t₂ t₃ e e' k k' now now' u u'}, tr = t₁ ++ e :: t₂ ++ e' :: t₃ →
    leaseEv id e = some (.claim k now u) → leaseEv id e' = some (.claim k' now' u') →
    u ≤ now' ∨ ∃ f ∈ t₂, leaseEv id f = some (.finish k) ∨ ∃ r, leaseEv id f = some (.release k r)
  /-- After a release no claim succeeds before its retry time. -/
  delayed : ∀ {t₁ t₂ t₃ e e' k k' r now' u'}, tr = t₁ ++ e :: t₂ ++ e' :: t₃ →
    leaseEv id e = some (.release k r) → leaseEv id e' = some (.claim k' now' u') → r ≤ now'
  /-- The SPI identifiers are those that the SPI returned to the run of the
  latest claim. -/
  latest : ∀ {t}, w.state.store.transfers.lookup id = some t →
    t.spiMessageID ≠ [] ∨ t.endToEndID ≠ [] → ∃ cid tok current i m,
      (Lease.claimers (leaseLog id tr)).getLast? = some (cid, tok) ∧
      actEv cid (.submit current) i (.ok m) ∈ tr ∧ current.id = id ∧
      current.spiClaimToken = tok ∧ m.messageID = t.spiMessageID ∧ m.endToEndID = t.endToEndID
  /-- A run whose claim was superseded can neither record nor release. -/
  superseded : ∀ {t₁ t₂ e cid tok now u}, tr = t₁ ++ e :: t₂ →
    leaseEv id e = some (.claim (cid, tok) now u) → Lease.claimers (leaseLog id t₂) ≠ [] →
    ∀ {cid' c i r w'}, Step w (actEv cid' (.store c) i r) w' →
      ((∃ tn m evs aud, c = .recordSPISubmission tn id tok m evs aud) ∨
        ∃ tn er r, c = .releaseSPISubmission tn id tok er r) →
      w'.state.store = w.state.store
  /-- The SPI is called with a transfer that the call itself claimed, and that
  was accepted when it did. -/
  submitted : ∀ {t₁ t₂ cid t i r}, tr = t₁ ++ actEv cid (.submit t) i r :: t₂ → t.id = id →
    ∃ s₁ s₂ tn tok u j w₁ t₀,
      t₁ = s₁ ++ actEv cid (.store (.claimSPISubmission tn id tok u)) j (.ok (t, false)) :: s₂ ∧
      Runs E tl dl s₁ w₁ ∧ w₁.state.store.transfers.lookup id = some t₀ ∧ t₀.status = .accepted
  /-- The attempts of a transfer are its successful claims. -/
  attempts : ∀ {t}, w.state.store.transfers.lookup id = some t →
    t.spiSubmissionAttempts = (Lease.claimers (leaseLog id tr)).length

section guarantees

variable (hids : (newIDs tr).Nodup) (h : Runs E tl dl tr w)

include hids h

theorem fenced_latest {t : Transfer} (hl : w.state.store.transfers.lookup id = some t)
    (hne : t.spiMessageID ≠ [] ∨ t.endToEndID ≠ []) : ∃ cid tok current i m,
      (Lease.claimers (leaseLog id tr)).getLast? = some (cid, tok) ∧
      actEv cid (.submit current) i (.ok m) ∈ tr ∧ current.id = id ∧
      current.spiClaimToken = tok ∧ m.messageID = t.spiMessageID ∧
      m.endToEndID = t.endToEndID := by
  obtain ⟨x, hx, -⟩ := runs_lease hids h id
  obtain ⟨cid, tok, m, ⟨tn, evs, aud, i, t', ha⟩, hmsg, he2e⟩ := runs_recorded h hl hne
  rw [runs_keyed h _ _ hl] at ha
  have hfin : Lease.Ev.finish (cid, tok) ∈ leaseLog id tr :=
    List.mem_filterMap.mpr ⟨_, ha, if_pos rfl⟩
  have hlast := ((Lease.last_claimer hx).2 _ hfin).2
  obtain ⟨t₁, t₂, rfl⟩ := List.append_of_mem ha
  obtain ⟨j, current, u, hs, hid, htok, -⟩ := recorded_submit h
  exact ⟨cid, tok, current, j, m, hlast, List.mem_append_left _ hs, hid, htok, hmsg, he2e⟩

/-- The token of a superseded run is not the stored one. -/
theorem superseded_token {t₁ t₂ : Trace (switch E)} {e : Ev (switch E)} {cid : Nat}
    {tok : GoString} {now u : Time} (htr : tr = t₁ ++ e :: t₂)
    (he : leaseEv id e = some (.claim (cid, tok) now u))
    (hlater : Lease.claimers (leaseLog id t₂) ≠ []) {t : Transfer}
    (hl : w.state.store.transfers.lookup id = some t) (hne : t.spiClaimToken ≠ []) :
    t.spiClaimToken ≠ tok := by
  intro htok
  subst htok
  obtain ⟨x, hx, ht⟩ := runs_lease hids h id
  rw [hl] at ht
  obtain ⟨tn, i, t', rfl, -⟩ := leaseEv_claim he
  have hmem : actEv cid (.store (.claimSPISubmission tn id t.spiClaimToken u)) i
      (.ok (t', false)) ∈ tr := by
    rw [htr]
    exact List.mem_append_right _ List.mem_cons_self
  have hhold := holder_of_claim hids h hx ht hne ⟨i, mem_hist.mpr hmem⟩
  have hlog : leaseLog id tr =
      leaseLog id t₁ ++ .claim (cid, t.spiClaimToken) now u :: leaseLog id t₂ := by
    rw [htr, leaseLog_cut he]
  have hnodup := runs_claimers_nodup hids h id
  rw [hlog] at hx hnodup
  exact Lease.not_holder_of_later_claim hx hnodup hlater hhold

/-- A call with the token of a superseded run does nothing. -/
theorem superseded_idle {t₁ t₂ : Trace (switch E)} {e : Ev (switch E)} {cid : Nat}
    {tok : GoString} {now u : Time} (htr : tr = t₁ ++ e :: t₂)
    (he : leaseEv id e = some (.claim (cid, tok) now u))
    (hlater : Lease.claimers (leaseLog id t₂) ≠ []) {cid' : Nat} {c : StoreCall} {i : Input}
    {r : c.Ret} {w' : World (switch E)} (hstep : Step w (actEv cid' (.store c) i r) w')
    (hc : (∃ tn m evs aud, c = .recordSPISubmission tn id tok m evs aud) ∨
      ∃ tn er r, c = .releaseSPISubmission tn id tok er r) :
    w'.state.store = w.state.store := by
  rcases storeHandle_cases (step_store hstep) with ⟨hsame, -⟩ | hs
  · exact hsame
  · exfalso
    generalize w'.state.store = s' at hs
    rcases hc with ⟨tn, m, evs, aud, rfl⟩ | ⟨tn, er, r, rfl⟩
    · cases hs with
      | recorded hctx hfind hrecord =>
        obtain ⟨-, hne, htok, -⟩ := Transfer.recordSPISubmission_eq_ok.mp hrecord
        have hl := (MemoryStore.owned_eq_some.mp hfind).1
        exact superseded_token hids h htr he hlater hl hne htok
    · cases hs with
      | released hctx hfind happ hrelease =>
        obtain ⟨hne, htok, -⟩ := (Transfer.releaseSPISubmission_eq_ok happ).mp hrelease
        have hl := (MemoryStore.owned_eq_some.mp hfind).1
        exact superseded_token hids h htr he hlater hl hne htok

end guarantees

/-- The transfer of a submission was accepted when the call claimed it. -/
theorem submit_accepted {t₁ t₂ : Trace (switch E)} {cid : Nat} {t : Transfer} {i : Input}
    {r : Except Err SPIMessage}
    (h : Runs E tl dl (t₁ ++ actEv cid (.submit t) i r :: t₂) w) :
    ∃ s₁ s₂ tn tok u j w₁ t₀,
      t₁ = s₁ ++ actEv cid (.store (.claimSPISubmission tn t.id tok u)) j (.ok (t, false)) :: s₂ ∧
      Runs E tl dl s₁ w₁ ∧ w₁.state.store.transfers.lookup t.id = some t₀ ∧
      t₀.status = .accepted := by
  obtain ⟨w₁, -, hrun, -⟩ := runs_at h
  obtain ⟨c, -, hallow⟩ := (contract E tl dl).allows_at h
  cases hallow with
  | @submit tn id tok u current hclaim =>
    obtain ⟨_, -, hens⟩ := ens_of_did hrun hclaim
    obtain ⟨rfl, -⟩ := hens _ rfl
    obtain ⟨j, hj⟩ := hclaim
    obtain ⟨s₁, s₂, rfl⟩ := List.append_of_mem (mem_hist.mp hj)
    obtain ⟨w₂, w₃, hrun₂, hstep, -⟩ := runs_at hrun
    rcases storeHandle_cases (step_store hstep) with ⟨-, hidle⟩ | hs
    · exact absurd rfl (hidle t)
    · generalize w₃.state.store = s' at hs
      cases hs with
      | claimed hctx hfind hclaim =>
        obtain ⟨-, -, hst, -⟩ := Transfer.claimSPISubmission_eq_ok.mp hclaim
        exact ⟨s₁, s₂, tn, tok, u, j, w₂, _, rfl, hrun₂,
          (MemoryStore.owned_eq_some.mp hfind).1, hst⟩

theorem clocked_leaseLog (hclock : Clocked tr) (id : GoString) :
    (Lease.times (leaseLog id tr)).Pairwise (· ≤ ·) := by
  rw [Lease.times, leaseLog, List.filterMap_filterMap]
  refine hclock.sublist (filterMap_sublist ?_ tr)
  intro e v hv
  obtain ⟨x, he, hx⟩ := Option.bind_eq_some_iff.mp hv
  cases x with
  | claim k now u =>
    obtain ⟨tn, i, t, rfl, rfl⟩ := leaseEv_claim he
    exact hx
  | finish k => exact absurd hx (by simp [Lease.Ev.claimedAt])
  | release k r => exact absurd hx (by simp [Lease.Ev.claimedAt])

/-- In every run, however the `SubmitToSPI` calls on a transfer interleave
and wherever they stop, its claims are fenced. -/
theorem submissions_fenced (hids : (newIDs tr).Nodup) (hclock : Clocked tr)
    (h : Runs E tl dl tr w) (id : GoString) : Fenced E tl dl tr w id := by
  obtain ⟨x, hx, htracks⟩ := runs_lease hids h id
  have htimes := clocked_leaseLog hclock id
  constructor
  · -- exclusive
    intro t₁ t₂ t₃ e e' k k' now now' u u' htr he he'
    rw [htr, leaseLog_cut he', leaseLog_cut he] at hx htimes
    refine (Lease.claim_excludes hx htimes).imp_right ?_
    rintro (hfin | ⟨r, hrel⟩)
    · obtain ⟨f, hf, hfe⟩ := List.mem_filterMap.mp hfin
      exact ⟨f, hf, .inl hfe⟩
    · obtain ⟨f, hf, hfe⟩ := List.mem_filterMap.mp hrel
      exact ⟨f, hf, .inr ⟨r, hfe⟩⟩
  · -- delayed
    intro t₁ t₂ t₃ e e' k k' r now' u' htr he he'
    rw [htr, leaseLog_cut he', leaseLog_cut he] at hx htimes
    exact Lease.release_delays hx htimes
  · -- latest
    intro t hl hne
    exact fenced_latest hids h hl hne
  · -- superseded
    intro t₁ t₂ e cid tok now u htr he hlater cid' c i r w' hstep hc
    exact superseded_idle hids h htr he hlater hstep hc
  · -- submitted
    intro t₁ t₂ cid t i r htr hid
    subst htr hid
    exact submit_accepted h
  · -- attempts
    intro t hl
    rw [hl] at htracks
    rw [htracks.attempts, Lease.claims_eq hx]

/-! ## A run that is taken over -/

/-- The first run claims and is slow; the claim lapses and a second run
claims, submits and records; then the first run gets its answer and tries to
record it. -/
def takeoverLabels : List (Label (switch sampleEnv)) :=
  decideLabels 0 newYear sampleRequest sampleDict sampleFraud ++ buildLabels 0 newYear 1 5 ++
    [.step 0 (tick newYear)] ++ claimLabels 1 newYear 7 (go "tenant-a") sampleID ++
    claimLabels 2 (newYear + spiClaimTTL) 8 (go "tenant-a") sampleID ++
    recordLabels 2 (newYear + spiClaimTTL) 9 sampleMessage ++
    recordLabels 1 (newYear + spiClaimTTL) 11 { sampleMessage with messageID := go "spi_2" }

set_option maxRecDepth 20000 in
theorem takeover_isSome :
    ((World.init (State.initial sampleEnv none none)).exec takeoverLabels).isSome := by
  decide +kernel

/-- The trace and the world of the takeover. -/
def takeover : Trace (switch sampleEnv) × World (switch sampleEnv) :=
  World.ran _ takeoverLabels takeover_isSome

/-- The transfer was claimed twice and keeps the identifiers of the second
run. -/
theorem submissions_fenced_takeover :
    (takeover.2.state.store.transfers.lookup sampleID).map
        (fun t => (t.spiMessageID, t.spiSubmissionAttempts)) = some (go "spi_1", 2) ∧
      Fenced sampleEnv none none takeover.1 takeover.2 sampleID :=
  ⟨by decide +kernel,
    submissions_fenced (by decide +kernel) (by decide +kernel) (World.run_ran _ _ _) sampleID⟩

end PixRail.Submission
