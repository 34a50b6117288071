import PixRail.Idempotency.Once
import PixRail.Switcher.Grounds
import PixRail.Tenancy.Part

/-!
# What a call sees

A transfer that the store gives to a call of a tenant belongs to that tenant
(`given_tenant`), and every record of the outbox names a stored transfer with
its tenant and its account (`runs_owned`).
-/

namespace PixRail.Tenancy

open Go Rail Events Store Interleave Switcher

variable {E : Env} {tl dl : Option E.Lim} {tr : Trace (switch E)} {w : World (switch E)}
  {cid : Nat} {c : Call} {tn : GoString}

theorem tenantOf_asked {call : StoreCall} {id : GoString} (h : askedFor call = some (tn, id)) :
    tenantOf call = some tn := by
  cases call with
  | findByIdempotency _ _ | insertTransfer _ _ _ | pendingSPISubmissions _ _
  | claimPendingOutbox _ _ _ _ | markOutboxPublished _ _ _ | markOutboxFailed _ _ _ _ => cases h
  | _ =>
    cases h
    rfl

/-- The store gives a call of a tenant the transfers of that tenant. -/
theorem given_tenant (hcolon : ColonFree tr) (h : Runs E tl dl tr w) (hc : spawnEv cid c ∈ tr)
    (htn : c.tenant = some tn) {call : StoreCall} {r : call.Ret} {t : Transfer}
    (hd : Did (hist cid tr) (.store call) r) (hg : givenBy call r = some t) : t.tenantID = tn := by
  have hd₀ := hd
  obtain ⟨i, hi⟩ := hd
  obtain ⟨t₁, t₂, rfl⟩ := List.append_of_mem (mem_hist.mp hi)
  obtain ⟨w₁, w₂, h₁, hstep, -, -⟩ := runs_at h
  obtain ⟨c', hc', hallow⟩ := (contract E tl dl).allows_at h
  obtain rfl := h.spawn_unique hc (List.mem_append_left _ hc')
  have hfor := (allows_opFor h₁ hc' htn hallow).1
  cases hasked : askedFor call with
  | some p =>
    obtain ⟨tn', id⟩ := p
    rw [tenantOf_asked hasked, Option.some.injEq] at hfor
    rw [storeHandle_tenant (step_store hstep) hg hasked, hfor]
  | none =>
    cases call with
    | findByIdempotency tn' key =>
      cases hallow with
      | @find req hcall =>
        subst hcall
        cases r with
        | error e => cases hg
        | ok found =>
          obtain rfl : found = some t := hg
          obtain ⟨t', hhas, hsame⟩ := Idempotency.found_has hcolon h hc hd₀
          rw [← hsame.tenantID, hhas.tenantID]
          exact Option.some.inj htn
    | insertTransfer t' evs auds =>
      cases r with
      | error e => cases hg
      | ok _ =>
        cases hg
        exact Option.some.inj hfor
    | pendingSPISubmissions now limit | claimPendingOutbox now limit tok u
    | markOutboxPublished seq tok at_ | markOutboxFailed seq tok e at_ => cases hg
    | _ => cases hasked

/-! ## The outbox -/

/-- The transfer that an event names is stored, with the tenant and the
account of the event. -/
def Owned (s : MemoryStore) (e : Event) : Prop :=
  ∃ t, s.transfers.lookup e.transferID = some t ∧ t.tenantID = e.tenantID ∧
    t.accountID = e.accountID

theorem Owned.step {H : Digest} {s s' : MemoryStore} {i : Input} {call : StoreCall}
    {r : call.Ret} (hs : StoreStep H s i call r s') (hk : s.Keyed) {e : Event} (h : Owned s e) :
    Owned s' e := by
  obtain ⟨t, hl, htn, hacct⟩ := h
  obtain ⟨t', hl', hsame⟩ := hs.lookup_sameOrder hk hl
  exact ⟨t', hl', hsame.tenantID.trans htn, hsame.accountID.trans hacct⟩

/-- The events of a batch for a transfer that is stored with its order. -/
theorem Batch.owned_by {s : MemoryStore} {t t' : Transfer} {types : List EventType}
    {evs : List Event} (hb : Batch t types evs) (hl : s.transfers.lookup t.id = some t')
    (hsame : SameOrder t t') : ∀ e ∈ evs, Owned s e := by
  intro e he
  obtain ⟨htn, hacct, hid⟩ := hb.owned e he
  refine ⟨t', by rw [hid, hl], ?_, ?_⟩
  · rw [hsame.tenantID, htn]
  · rw [hsame.accountID, hacct]

/-- A call hands over events of transfers that are stored. -/
theorem outbox_owned (h : Runs E tl dl tr w) {call : StoreCall}
    (hallow : Allows E.toLib c (hist cid tr) (.store call))
    (hno : ∀ t evs auds, call ≠ .insertTransfer t evs auds) :
    ∀ e ∈ call.outbox, Owned w.state.store e := by
  cases hallow with
  | insert => exact absurd rfl (hno _ _ _)
  | record hfor hclaim hsubmit hevs =>
    obtain ⟨t', hl, hsame⟩ := given_order h hclaim rfl
    exact Batch.owned_by hevs hl hsame
  | review hcall htn hget hreview hstatus hevs =>
    obtain ⟨t', hl, hsame⟩ := given_order h hget rfl
    exact Batch.owned_by hevs hl hsame
  | settle hcall htn hid hne hget hspi hty hevs =>
    obtain ⟨t', hl, hsame⟩ := given_order h hget rfl
    exact Batch.owned_by hevs hl hsame
  | _ => simp [StoreCall.outbox, findFor]

/-- Every record of the outbox names a stored transfer. -/
theorem runs_owned (h : Runs E tl dl tr w) :
    ∀ e ∈ w.state.store.events.map (·.event), Owned w.state.store e := by
  refine store_invariant (I := fun _ s => ∀ e ∈ s.events.map (·.event), Owned s e)
    (fun e he => nomatch he) (fun _ hi _ _ _ => hi) ?_ h
  intro tr w cid c call i r s' hrun hi _ hallow hs e he
  rw [hs.events_eq, List.mem_append] at he
  rcases he with he | he
  · exact (hi e he).step hs (runs_keyed hrun)
  · by_cases hins : ∃ t evs auds, call = .insertTransfer t evs auds
    · obtain ⟨t, evs, auds, rfl⟩ := hins
      cases hallow with
      | insert hcall hvalid hstatus hfirst hid hfind ht hevs =>
        obtain ⟨types, hb, -, -⟩ := hevs
        have hl := storeStep_given hs (t := t) (by cases hs; rfl)
        exact Batch.owned_by hb hl (.refl t) e he
    · exact (outbox_owned hrun hallow (fun t evs auds hc => hins ⟨t, evs, auds, hc⟩) e he).step hs
        (runs_keyed hrun)

end PixRail.Tenancy
