import PixRail.Switcher.Runs

/-!
# Inserts, lookups and where they come from

The trace of a run as a ledger of the idempotency map.  What an insert or a
lookup once saw is still there (`runs_inserted`, `runs_found`,
`runs_refused`), and what is there was put there by one insert
(`runs_origin`), whose transfer id the same call had drawn, so that no later
insert meets it (`insert_fresh`).
-/

namespace PixRail.Idempotency

open Go Rail Events Store Interleave Switcher

section ledger

variable {E : Env} {tl dl : Option E.Lim} {tr : Trace (switch E)} {w : World (switch E)}
  {cid : Nat}

/-- The store holds a transfer with the order of `t`. -/
def Holds (s : MemoryStore) (t : Transfer) : Prop :=
  ∃ t', s.transfers.lookup t.id = some t' ∧ SameOrder t t'

theorem Holds.step {H : Digest} {s s' : MemoryStore} {i : Input} {c : StoreCall} {r : c.Ret}
    {t : Transfer} (hk : s.Keyed) (hh : Holds s t) (hs : StoreStep H s i c r s') :
    Holds s' t := by
  obtain ⟨t₁, hl, hsame⟩ := hh
  obtain ⟨t₂, hl', hsame'⟩ := hs.lookup_sameOrder hk hl
  exact ⟨t₂, hl', hsame.trans hsame'⟩

/-- An inserted transfer is still there. -/
theorem runs_inserted (h : Runs E tl dl tr w) {t : Transfer} {evs : List Event}
    {auds : List AuditRecord} {i : Input}
    (ha : actEv cid (.store (.insertTransfer t evs auds)) i (.ok ()) ∈ tr) :
    Holds w.state.store t := by
  obtain ⟨t₁, t₂, rfl⟩ := List.append_of_mem ha
  obtain ⟨w₁, w₂, h₁, hstep, hrun, hrest⟩ := runs_at h
  refine runs_stable (P := fun s => Holds s t) (fun hr hh hs => hh.step (runs_keyed hr) hs)
    hrun hrest ?_
  rcases storeHandle_cases (step_store hstep) with ⟨-, e, he, -⟩ | hs
  · exact absurd he (by simp)
  · generalize w₂.state.store = s₂ at hs ⊢
    cases hs with
    | inserted hnew hidem => exact ⟨t, by simp, .refl t⟩

/-- What a lookup found is still there. -/
theorem runs_found (h : Runs E tl dl tr w) {tn key : GoString} {t : Transfer} {i : Input}
    (ha : actEv cid (.store (.findByIdempotency tn key)) i (.ok (some t)) ∈ tr) :
    w.state.store.idempotency.lookup (scopedKey tn key) = some t.id ∧
      Holds w.state.store t := by
  obtain ⟨t₁, t₂, rfl⟩ := List.append_of_mem ha
  obtain ⟨w₁, w₂, h₁, hstep, hrun, hrest⟩ := runs_at h
  refine runs_stable (P := fun s => s.idempotency.lookup (scopedKey tn key) = some t.id ∧
    Holds s t) (fun hr hp hs => ⟨hs.idempotency_mono (runs_filed hr) hp.1,
      hp.2.step (runs_keyed hr) hs⟩) hrun hrest ?_
  have hans := step_store hstep
  rw [storeHandle, Option.some.injEq, Prod.mk.injEq] at hans
  obtain ⟨hr, hst⟩ := hans
  rw [← hst]
  unfold MemoryStore.findByIdempotency at hr
  split at hr
  · exact absurd hr (by simp)
  · split at hr
    · exact absurd hr (by simp)
    · rename_i id hid
      rw [Except.ok.injEq] at hr
      obtain rfl := runs_keyed h₁ _ _ hr
      exact ⟨hid, t, hr, .refl t⟩

/-- A stored transfer was inserted. -/
theorem runs_origin (h : Runs E tl dl tr w) {id : GoString} {t : Transfer}
    (hl : w.state.store.transfers.lookup id = some t) :
    ∃ cid t₀ evs auds i, actEv cid (.store (.insertTransfer t₀ evs auds)) i (.ok ()) ∈ tr ∧
      SameOrder t₀ t := by
  refine store_invariant (I := fun tr s => ∀ id t, s.transfers.lookup id = some t →
    ∃ cid t₀ evs auds i, actEv cid (.store (.insertTransfer t₀ evs auds)) i (.ok ()) ∈ tr ∧
      SameOrder t₀ t) ?_ ?_ ?_ h id t hl
  · intro id t hl
    simp [newMemoryStore] at hl
  · intro tr w e w' _ hi _ _ _ id t hl
    obtain ⟨cid, t₀, evs, auds, i, ha, hsame⟩ := hi id t hl
    exact ⟨cid, t₀, evs, auds, i, List.mem_append_left _ ha, hsame⟩
  · intro tr w cid c call i r s' hrun hi _ _ hs id t hl
    rcases hs.lookup_inv (runs_keyed hrun) hl with hl | ⟨-, evs, auds, rfl⟩ | ⟨t₁, hl, hmv⟩
    · obtain ⟨cid, t₀, evs, auds, i, ha, hsame⟩ := hi id t hl
      exact ⟨cid, t₀, evs, auds, i, List.mem_append_left _ ha, hsame⟩
    · cases hs with
      | inserted hnew hidem => exact ⟨cid, t, evs, auds, i, by simp, .refl t⟩
    · obtain ⟨cid, t₀, evs, auds, i, ha, hsame⟩ := hi id t₁ hl
      exact ⟨cid, t₀, evs, auds, i, List.mem_append_left _ ha, hsame.trans hmv.sameOrder⟩

/-! ## The call behind an insert -/

/-- The order that an insert of the trace carries. -/
structure InsertedBy (L : Lib) (tr : Trace (switch E)) (cid : Nat) (t : Transfer) : Prop where
  spawn : ∃ req, spawnEv cid (.createTransfer req) ∈ tr ∧
    t.tenantID = trimSpace req.tenantID ∧ t.idempotencyKey = trimSpace req.idempotencyKey ∧
    t.requestHash = req.fingerprint L.digest
  drawn : ∃ i, actEv cid (.newID (go "pxt")) i t.id ∈ tr
  first : NoInsert (hist cid tr)

/-- Every insert belongs to a request and carries an id its call has drawn,
and it is the first insert of its call. -/
theorem insert_call {t₁ t₂ : Trace (switch E)} {t : Transfer} {evs : List Event}
    {auds : List AuditRecord} {i : Input} {r : Except Err Unit}
    (h : Runs E tl dl (t₁ ++ actEv cid (.store (.insertTransfer t evs auds)) i r :: t₂) w) :
    InsertedBy E.toLib t₁ cid t := by
  obtain ⟨c, hc, hallow⟩ := (contract E tl dl).allows_at h
  cases hallow with
  | insert hc' hvalid hstatus hfirst hid hfind ht hevs =>
    subst hc' ht
    obtain ⟨i', hi'⟩ := hid
    exact ⟨⟨_, hc, rfl, rfl, rfl⟩, ⟨i', mem_hist.mp hi'⟩, hfirst⟩

/-- With distinct generated ids, an insert finds its transfer id free: a call
inserts once, and no other call has drawn the id. -/
theorem insert_fresh (hids : (newIDs tr).Nodup) (h : Runs E tl dl tr w) {t : Transfer}
    (hins : InsertedBy E.toLib tr cid t) : w.state.store.transfers.lookup t.id = none := by
  cases hl : w.state.store.transfers.lookup t.id with
  | none => rfl
  | some t' =>
    obtain ⟨cid', t₀, evs, auds, i, ha, hsame⟩ := runs_origin h hl
    have hid : t₀.id = t.id := by rw [← hsame.id, runs_keyed h _ _ hl]
    obtain ⟨t₁, t₂, rfl⟩ := List.append_of_mem ha
    obtain ⟨j, hdrawn⟩ := hins.drawn
    obtain ⟨j', hdrawn'⟩ := (insert_call h).drawn
    rw [hid] at hdrawn'
    obtain rfl := drawn_unique hids hdrawn (List.mem_append_left _ hdrawn')
    exact absurd ⟨i, mem_hist.mpr ha⟩ (hins.first t₀ evs auds (.ok ()))

/-- The key that refused an insert is still there. -/
theorem runs_refused {t₁ t₂ : Trace (switch E)} {w₂ : World (switch E)} {t : Transfer}
    {evs : List Event} {auds : List AuditRecord} {i : Input} {e : Err}
    (hids : (newIDs t₁).Nodup)
    (h₁ : Runs E tl dl (t₁ ++ [actEv cid (.store (.insertTransfer t evs auds)) i (.error e)]) w)
    (h₂ : Run w t₂ w₂) : ∃ id, w₂.state.store.idempotency.lookup (idemKey t) = some id := by
  refine runs_stable (P := fun s => ∃ id, s.idempotency.lookup (idemKey t) = some id) ?_ h₁ h₂ ?_
  · rintro tr w i c s' r hr ⟨id, hl⟩ hs
    exact ⟨id, hs.idempotency_mono (runs_filed hr) hl⟩
  · obtain ⟨w₀, h₀, hstep⟩ := h₁.snoc_inv
    have hfree := insert_fresh hids h₀ (insert_call h₁)
    have hans := step_store hstep
    rw [storeHandle, Option.some.injEq, MemoryStore.insertTransfer] at hans
    split at hans
    · rename_i hused
      obtain ⟨id, hid, -⟩ := hused
      rw [← (Prod.mk.inj hans).2]
      exact ⟨id, hid⟩
    · rw [if_neg (Finmap.lookup_eq_none.mp hfree)] at hans
      exact absurd (congrArg Prod.fst hans) (by simp)

/-- A stored transfer carries the tenant, the key and the fingerprint of the
request of one call of the run. -/
theorem stored_request (h : Runs E tl dl tr w) {t : Transfer}
    (hl : w.state.store.transfers.lookup t.id = some t) :
    ∃ cid req, spawnEv cid (.createTransfer req) ∈ tr ∧ t.tenantID = trimSpace req.tenantID ∧
      t.idempotencyKey = trimSpace req.idempotencyKey ∧
      t.requestHash = req.fingerprint E.digest := by
  obtain ⟨cid, t₀, evs, auds, i, ha, hsame⟩ := runs_origin h hl
  obtain ⟨t₁, t₂, rfl⟩ := List.append_of_mem ha
  obtain ⟨req, hreq, htn, hkey, hhash⟩ := (insert_call h).spawn
  refine ⟨cid, req, List.mem_append_left _ hreq, ?_, ?_, ?_⟩
  · rw [hsame.tenantID, htn]
  · rw [hsame.idempotencyKey, hkey]
  · rw [hsame.requestHash, hhash]

end ledger

end PixRail.Idempotency
