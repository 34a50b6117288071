import PixRail.Ratelimit.Limiter
import PixRail.Idempotency.Ledger

/-!
# One tenant's part of the switch

`Part T s u` says that the state `u` is what the state `s` holds for tenant
`T`: its transfers, its entries in the idempotency and the callback maps, its
events, and its buckets in the two limiters.

An operation for another tenant leaves the part as it is
(`Part.handle_other`), because a tenant id without a colon is the prefix of
its own keys only.  An operation for `T` gets the same answer from the part
as from the whole (`Part.handle_mine`).
-/

namespace PixRail.Tenancy

open Go Rail Events Store Interleave Switcher Ratelimit

/-! ## Operations for a tenant -/

/-- The tenant that a store call names. -/
def tenantOf : StoreCall → Option GoString
  | .findByIdempotency tn _ => some tn
  | .insertTransfer t _ _ => some t.tenantID
  | .getTransfer tn _ => some tn
  | .claimSPISubmission tn _ _ _ => some tn
  | .recordSPISubmission tn _ _ _ _ _ => some tn
  | .releaseSPISubmission tn _ _ _ _ => some tn
  | .recordReviewDecision tn _ _ _ _ _ => some tn
  | .updateSettlement tn _ _ _ _ => some tn
  | _ => none

/-- The operation reads and writes the data of that tenant only. -/
def OpFor (tn : GoString) : Op → Prop
  | .store c => tenantOf c = some tn ∧ ∀ e ∈ c.outbox, e.tenantID = tn
  | .tenantAllow key => ∃ x, key = scopedKey tn x
  | .dictAllow key => ∃ x, key = scopedKey tn x
  | _ => True

section allows

variable {E : Env} {tl dl : Option E.Lim} {tr : Trace (switch E)} {w : World (switch E)}
  {cid : Nat} {c : Call} {tn : GoString}

theorem Batch.for_tenant {t : Transfer} {types : List EventType} {evs : List Event}
    (h : Batch t types evs) (htn : t.tenantID = tn) : ∀ e ∈ evs, e.tenantID = tn :=
  fun e he => (h.owned e he).1.trans htn

/-- The calls of a tenant perform operations for that tenant. -/
theorem allows_opFor (h : Runs E tl dl tr w) (hc : spawnEv cid c ∈ tr)
    (htn : c.tenant = some tn) {o : Op} (hallow : Allows E.toLib c (hist cid tr) o) :
    OpFor tn o := by
  have hget : ∀ {tn' id current}, Did (hist cid tr) (.store (.getTransfer tn' id)) (.ok current) →
      current.tenantID = tn' := by
    intro tn' id current hd
    obtain ⟨i, -, hens⟩ := ens_of_did h hd
    exact (hens current rfl).2
  have hclaimed : ∀ {tn' id tok u current}, Did (hist cid tr)
      (.store (.claimSPISubmission tn' id tok u)) (.ok (current, false)) →
      current.tenantID = tn' := by
    intro tn' id tok u current hd
    obtain ⟨i, -, hens⟩ := ens_of_did h hd
    exact (hens current rfl).2.1
  have hdrain : ∀ {n l tok u records}, ¬ Did (hist cid tr)
      (.store (.claimPendingOutbox n l tok u)) records := by
    intro n l tok u records hd
    obtain ⟨h₀, hall⟩ := allows_of_did h hc hd
    cases hall with
    | outboxClaim hcall => rw [hcall] at htn; exact absurd htn (by simp [Call.tenant])
  cases hallow with
  | tenantAllow hfor | dictAllow hfor =>
    obtain rfl := hfor tn htn
    exact ⟨_, rfl⟩
  | find hcall =>
    rw [hcall] at htn
    exact ⟨htn, by simp [findFor, StoreCall.outbox]⟩
  | insert hcall hvalid hstatus hfirst hid hfind ht hevs =>
    subst hcall ht
    obtain ⟨types, hbatch, -, -⟩ := hevs
    exact ⟨htn, Batch.for_tenant hbatch (Option.some.inj htn)⟩
  | getTransfer id hfor | claim hsub hfor hh | release e hfor hcl hnow =>
    obtain rfl := hfor tn htn
    exact ⟨rfl, by simp [StoreCall.outbox]⟩
  | record hfor hcl hsubmit hevs =>
    obtain rfl := hfor tn htn
    exact ⟨rfl, Batch.for_tenant hevs (hclaimed hcl)⟩
  | review hcall htn' hg hreview hstatus hevs =>
    subst hcall
    obtain rfl := htn'.trans (Option.some.inj htn)
    exact ⟨rfl, Batch.for_tenant hevs (hget hg)⟩
  | settle hcall htn' hid hne hg hspi hty hevs =>
    subst hcall
    obtain rfl := htn'.trans (Option.some.inj htn)
    exact ⟨rfl, Batch.for_tenant hevs (hget hg)⟩
  | pending now limit' hcall | outboxClaim hcall =>
    rw [hcall] at htn
    exact absurd htn (by simp [Call.tenant])
  | markPublished hcl hhand hh | markFailed _ hcl hhand hh => exact absurd hcl hdrain
  | _ => trivial

end allows

/-! ## The store -/

/-- The events of a tenant, in append order. -/
def eventsOf (tn : GoString) (s : MemoryStore) : List Event :=
  (s.events.map (·.event)).filter fun e => e.tenantID = tn

/-- The maps agree on the keys of a tenant. -/
def KeysPart (tn : GoString) (m m' : GoMap GoString GoString) : Prop :=
  ∀ key, m'.lookup (scopedKey tn key) = m.lookup (scopedKey tn key)

/-- The transfers of a tenant. -/
def TransfersPart (tn : GoString) (m m' : GoMap GoString Transfer) : Prop :=
  ∀ id t, m'.lookup id = some t ↔ m.lookup id = some t ∧ t.tenantID = tn

/-- The store `u` is what `s` holds for the tenant. -/
structure StorePart (tn : GoString) (s u : MemoryStore) : Prop where
  transfers : TransfersPart tn s.transfers u.transfers
  idempotency : KeysPart tn s.idempotency u.idempotency
  callbacks : KeysPart tn s.callbacks u.callbacks
  events : eventsOf tn u = eventsOf tn s

section store

variable {tn : GoString}

theorem KeysPart.insert {m m' : GoMap GoString GoString} (h : KeysPart tn m m')
    (k v : GoString) : KeysPart tn (m.insert k v) (m'.insert k v) := by
  intro key
  by_cases hk : scopedKey tn key = k
  · subst hk
    rw [Finmap.lookup_insert, Finmap.lookup_insert]
  · rw [Finmap.lookup_insert_of_ne _ hk, Finmap.lookup_insert_of_ne _ hk, h key]

theorem KeysPart.insert_other {m m' : GoMap GoString GoString} (h : KeysPart tn m m')
    {tn' : GoString} (hcolon : 58 ∉ tn) (hcolon' : 58 ∉ tn') (hne : tn' ≠ tn)
    (k v : GoString) : KeysPart tn (m.insert (scopedKey tn' k) v) m' := by
  intro key
  rw [Finmap.lookup_insert_of_ne, h key]
  intro he
  exact hne (scopedKey_inj hcolon hcolon' he).1.symm

theorem TransfersPart.insert {m m' : GoMap GoString Transfer} (h : TransfersPart tn m m')
    {t : Transfer} (ht : t.tenantID = tn) :
    TransfersPart tn (m.insert t.id t) (m'.insert t.id t) := by
  intro id t'
  rw [lookup_insert_eq_some, lookup_insert_eq_some, h id t']
  constructor
  · rintro (⟨rfl, rfl⟩ | ⟨hid, hl, htn⟩)
    · exact ⟨.inl ⟨rfl, rfl⟩, ht⟩
    · exact ⟨.inr ⟨hid, hl⟩, htn⟩
  · rintro ⟨⟨rfl, rfl⟩ | ⟨hid, hl⟩, htn⟩
    · exact .inl ⟨rfl, rfl⟩
    · exact .inr ⟨hid, hl, htn⟩

theorem TransfersPart.insert_other {m m' : GoMap GoString Transfer} (h : TransfersPart tn m m')
    {id : GoString} {t : Transfer} (ht : t.tenantID ≠ tn)
    (hold : ∀ t', m.lookup id = some t' → t'.tenantID ≠ tn) :
    TransfersPart tn (m.insert id t) m' := by
  intro id' t'
  rw [h id' t', lookup_insert_eq_some]
  constructor
  · rintro ⟨hl, htn⟩
    refine ⟨.inr ⟨?_, hl⟩, htn⟩
    rintro rfl
    exact hold t' hl htn
  · rintro ⟨⟨rfl, rfl⟩ | ⟨-, hl⟩, htn⟩
    · exact absurd htn ht
    · exact ⟨hl, htn⟩

variable {s u : MemoryStore}

theorem StorePart.owned_eq (hp : StorePart tn s u) (id : GoString) :
    u.owned tn id = s.owned tn id := by
  apply Option.ext
  intro t
  rw [MemoryStore.owned_eq_some, MemoryStore.owned_eq_some, hp.transfers id t, and_assoc,
    and_self]

theorem eventsOf_append {s' : MemoryStore} {evs : List Event}
    (h : s'.events.map (·.event) = s.events.map (·.event) ++ evs) :
    eventsOf tn s' = eventsOf tn s ++ evs.filter fun e => e.tenantID = tn := by
  rw [eventsOf, h, List.filter_append, eventsOf]

theorem eventsOf_write (s : MemoryStore) (t : Transfer) (evs : List Event)
    (auds : List AuditRecord) :
    eventsOf tn (s.write t evs auds) =
      eventsOf tn s ++ evs.filter fun e => e.tenantID = tn :=
  eventsOf_append (by simp)

theorem StorePart.put (hp : StorePart tn s u) {t : Transfer} (ht : t.tenantID = tn) :
    StorePart tn (s.putTransfer t) (u.putTransfer t) :=
  ⟨hp.transfers.insert ht, hp.idempotency, hp.callbacks, hp.events⟩

theorem StorePart.write (hp : StorePart tn s u) {t : Transfer} (ht : t.tenantID = tn)
    (evs : List Event) (auds : List AuditRecord) :
    StorePart tn (s.write t evs auds) (u.write t evs auds) := by
  refine ⟨?_, ?_, ?_, ?_⟩
  · rw [MemoryStore.write_transfers, MemoryStore.write_transfers]
    exact hp.transfers.insert ht
  · rw [MemoryStore.write_idempotency, MemoryStore.write_idempotency]
    exact hp.idempotency
  · rw [MemoryStore.write_callbacks, MemoryStore.write_callbacks]
    exact hp.callbacks
  · rw [eventsOf_write, eventsOf_write, hp.events]

/-! ### Calls of the tenant -/

/-- The two answers are the same, and the stores stay whole and part. -/
def Answers {α : Type} (tn : GoString) (a b : α × MemoryStore) : Prop :=
  b.1 = a.1 ∧ StorePart tn a.2 b.2

theorem StorePart.same {α : Type} (hp : StorePart tn s u) (r : α) :
    Answers tn (r, s) (r, u) :=
  ⟨rfl, hp⟩

/-- A transition keeps the tenant. -/
theorem owned_moves {i : Input} {c : StoreCall} {id : GoString} {t t' : Transfer}
    (hfind : s.owned tn id = some t) (hm : Moves i c t t') : t'.tenantID = tn :=
  hm.sameOrder.tenantID.trans (MemoryStore.owned_eq_some.mp hfind).2

theorem StorePart.findByIdempotency (hp : StorePart tn s u) (hf : u.Filed) (ctx : Ctx)
    (key : GoString) : u.findByIdempotency ctx tn key = s.findByIdempotency ctx tn key := by
  unfold MemoryStore.findByIdempotency
  rw [hp.idempotency key]
  split
  · rfl
  · split
    · rfl
    · rename_i id hid
      -- the entry leads to a transfer of the part, so of the tenant
      rw [← hp.idempotency key] at hid
      obtain ⟨t, hl, -⟩ := hf.entry _ _ hid
      rw [hl, ((hp.transfers id t).mp hl).1]

theorem StorePart.insertTransfer (hp : StorePart tn s u) {t : Transfer} (ht : t.tenantID = tn)
    (hnew : s.transfers.lookup t.id = none) (evs : List Event) (auds : List AuditRecord) :
    Answers tn (s.insertTransfer t evs auds) (u.insertTransfer t evs auds) := by
  have hkey : u.idempotency.lookup (idemKey t) = s.idempotency.lookup (idemKey t) := by
    rw [idemKey, ht]
    exact hp.idempotency t.idempotencyKey
  have hnew' : u.transfers.lookup t.id = none := by
    cases hl : u.transfers.lookup t.id with
    | none => rfl
    | some t' =>
      rw [((hp.transfers t.id t').mp hl).1] at hnew
      exact absurd hnew (by simp)
  unfold MemoryStore.insertTransfer
  rw [hkey]
  split
  · exact hp.same _
  · rw [if_neg (Finmap.lookup_eq_none.mp hnew), if_neg (Finmap.lookup_eq_none.mp hnew'),
      MemoryStore.insert_idempotency_write, MemoryStore.insert_idempotency_write]
    have hw := hp.write ht evs auds
    exact ⟨rfl, hw.transfers, hp.idempotency.insert _ _, hw.callbacks, hw.events⟩

theorem StorePart.getTransfer (hp : StorePart tn s u) (id : GoString) :
    u.getTransfer tn id = s.getTransfer tn id := by
  unfold MemoryStore.getTransfer
  rw [hp.owned_eq]

theorem StorePart.claimSPISubmission (hp : StorePart tn s u) (i : Input) (id tok : GoString)
    (until_ : Time) :
    Answers tn (s.claimSPISubmission i.ctx i.now tn id tok until_)
      (u.claimSPISubmission i.ctx i.now tn id tok until_) := by
  unfold MemoryStore.claimSPISubmission
  rw [hp.owned_eq]
  split
  · exact hp.same _
  · split
    · exact hp.same _
    · rename_i t hfind
      split
      · exact hp.same _
      · split
        · exact hp.same _
        · rename_i t' hclaim
          exact ⟨rfl, hp.put (owned_moves (i := i) hfind (.claim hclaim))⟩

theorem StorePart.recordSPISubmission (hp : StorePart tn s u) (i : Input) (id tok : GoString)
    (m : SPIMessage) (evs : List Event) (aud : AuditRecord) :
    Answers tn (s.recordSPISubmission i.ctx tn id tok m evs aud)
      (u.recordSPISubmission i.ctx tn id tok m evs aud) := by
  unfold MemoryStore.recordSPISubmission
  rw [hp.owned_eq]
  split
  · exact hp.same _
  · split
    · exact hp.same _
    · rename_i t hfind
      split
      · exact hp.same _
      · split
        · exact hp.same _
        · rename_i t' hrecord
          have hm : Moves i (.recordSPISubmission t.tenantID t.id tok m evs aud) t t' :=
            .record hrecord
          exact ⟨rfl, hp.write (owned_moves hfind hm) evs [aud]⟩

theorem StorePart.releaseSPISubmission (hp : StorePart tn s u) (i : Input)
    (id tok e : GoString) (retryAt : Time) :
    Answers tn (s.releaseSPISubmission i.ctx i.now tn id tok e retryAt)
      (u.releaseSPISubmission i.ctx i.now tn id tok e retryAt) := by
  unfold MemoryStore.releaseSPISubmission
  rw [hp.owned_eq]
  split
  · exact hp.same _
  · split
    · exact hp.same _
    · rename_i t hfind
      split
      · exact hp.same _
      · rename_i happ
        split
        · exact hp.same _
        · rename_i t' hrelease
          exact ⟨rfl, hp.put (owned_moves (i := i) hfind (.release happ hrelease))⟩

theorem StorePart.recordReviewDecision (hp : StorePart tn s u) (i : Input) (id : GoString)
    (st : TransferStatus) (reason : GoString) (evs : List Event) (aud : AuditRecord) :
    Answers tn (s.recordReviewDecision tn id st reason evs aud)
      (u.recordReviewDecision tn id st reason evs aud) := by
  unfold MemoryStore.recordReviewDecision
  rw [hp.owned_eq]
  split
  · exact hp.same _
  · rename_i t hfind
    split
    · exact hp.same _
    · rename_i t' hreview
      have hm : Moves i (.recordReviewDecision t.tenantID t.id st reason evs aud) t t' :=
        .review hreview
      exact ⟨rfl, hp.write (owned_moves hfind hm) evs [aud]⟩

theorem StorePart.updateSettlement (hp : StorePart tn s u) (H : Digest) (i : Input)
    (id : GoString) (cb : SettlementCallback) (evs : List Event) (aud : AuditRecord) :
    Answers tn (s.updateSettlement H tn id cb evs aud)
      (u.updateSettlement H tn id cb evs aud) := by
  unfold MemoryStore.updateSettlement
  rw [hp.owned_eq, hp.callbacks]
  split
  · exact hp.same _
  · rename_i t hfind
    split
    · split
      · exact hp.same _
      · exact hp.same _
    · split
      · exact hp.same _
      · rename_i t' hsettle
        have hm : Moves i (.updateSettlement t.tenantID t.id cb evs aud) t t' := .settle hsettle
        have hw := hp.write (owned_moves hfind hm) evs [aud]
        rw [MemoryStore.insert_callbacks_write, MemoryStore.insert_callbacks_write]
        exact ⟨rfl, hw.transfers, hw.idempotency, hp.callbacks.insert _ _, hw.events⟩

/-- A store call of the tenant gets the same answer from its part. -/
theorem StorePart.storeHandle_mine (hp : StorePart tn s u) (hf : u.Filed) {H : Digest}
    {c : StoreCall} (hc : tenantOf c = some tn) {i : Input} {r : c.Ret} {s' : MemoryStore}
    (hnew : ∀ t evs auds, c = .insertTransfer t evs auds → s.transfers.lookup t.id = none)
    (h : storeHandle H c i s = some (r, s')) :
    ∃ u', storeHandle H c i u = some (r, u') ∧ StorePart tn s' u' := by
  have hanswer : ∀ {α : Type} {a b : α × MemoryStore} {r : α} {s' : MemoryStore},
      Answers tn a b → some a = some (r, s') →
      ∃ u', some b = some (r, u') ∧ StorePart tn s' u' := by
    rintro α a b r s' ⟨hr, hpart⟩ ha
    obtain rfl := Option.some.inj ha
    have hr : b.1 = r := hr
    exact ⟨b.2, by rw [← hr], hpart⟩
  cases c with
  | findByIdempotency tn' key =>
    obtain rfl := Option.some.inj hc
    refine hanswer ⟨?_, hp⟩ h
    exact hp.findByIdempotency hf i.ctx key
  | insertTransfer t evs auds =>
    exact hanswer (hp.insertTransfer (Option.some.inj hc) (hnew _ _ _ rfl) evs auds) h
  | getTransfer tn' id =>
    obtain rfl := Option.some.inj hc
    refine hanswer ⟨?_, hp⟩ h
    exact hp.getTransfer id
  | claimSPISubmission tn' id tok until_ =>
    obtain rfl := Option.some.inj hc
    exact hanswer (hp.claimSPISubmission i id tok until_) h
  | recordSPISubmission tn' id tok m evs aud =>
    obtain rfl := Option.some.inj hc
    exact hanswer (hp.recordSPISubmission i id tok m evs aud) h
  | releaseSPISubmission tn' id tok e retryAt =>
    obtain rfl := Option.some.inj hc
    exact hanswer (hp.releaseSPISubmission i id tok e retryAt) h
  | recordReviewDecision tn' id st reason evs aud =>
    obtain rfl := Option.some.inj hc
    exact hanswer (hp.recordReviewDecision i id st reason evs aud) h
  | updateSettlement tn' id cb evs aud =>
    obtain rfl := Option.some.inj hc
    exact hanswer (hp.updateSettlement H i id cb evs aud) h
  | _ => exact absurd hc (by simp [tenantOf])

/-! ### Calls of other tenants -/

theorem moves_tenant {i : Input} {c : StoreCall} {t t' : Transfer} (hm : Moves i c t t') :
    tenantOf c = some t.tenantID := by
  cases hm <;> rfl

theorem StorePart.storeStep_other (hp : StorePart tn s u) (hk : s.Keyed) {tn' : GoString}
    (hcolon : 58 ∉ tn) (hcolon' : 58 ∉ tn') (hne : tn' ≠ tn) {H : Digest} {i : Input}
    {c : StoreCall} {r : c.Ret} {s' : MemoryStore} (hc : OpFor tn' (.store c))
    (hs : StoreStep H s i c r s') : StorePart tn s' u := by
  obtain ⟨hten, hevs⟩ := hc
  refine ⟨?_, ?_, ?_, ?_⟩
  · rcases hs.transfers_cases hk with
      ⟨he, -⟩ | ⟨t, evs, auds, hins, hnew, he⟩ | ⟨t, t', hl, hm, he⟩
    · rw [he]
      exact hp.transfers
    · rw [he]
      rw [hins] at hten
      obtain rfl := Option.some.inj hten
      exact hp.transfers.insert_other hne (by simp [hnew])
    · rw [he]
      obtain rfl := Option.some.inj ((moves_tenant hm).symm.trans hten)
      refine hp.transfers.insert_other (by rwa [hm.sameOrder.tenantID]) fun t₁ hl₁ => ?_
      rw [hl, Option.some.injEq] at hl₁
      rwa [← hl₁]
  · by_cases hins : ∃ t evs auds, c = .insertTransfer t evs auds
    · obtain ⟨t, evs, auds, rfl⟩ := hins
      obtain rfl := Option.some.inj hten
      cases hs with
      | inserted hnew hidem => exact hp.idempotency.insert_other hcolon hcolon' hne _ _
    · rw [hs.idempotency_eq fun t evs auds h => hins ⟨t, evs, auds, h⟩]
      exact hp.idempotency
  · rcases hs.callbacks_cases hk with ⟨he, -⟩ | ⟨t, t', cb, evs, aud, hset, -, -, -, -, he⟩
    · rw [he]
      exact hp.callbacks
    · rw [he]
      rw [hset] at hten
      obtain rfl := Option.some.inj hten
      exact hp.callbacks.insert_other hcolon hcolon' hne _ _
  · rw [eventsOf_append hs.events_eq, List.filter_eq_nil_iff.mpr, List.append_nil, hp.events]
    intro e he
    rw [decide_eq_true_eq, hevs e he]
    exact hne

end store

/-! ## The limiters -/

/-- A switch with token buckets. -/
@[reducible] def limited (L : Lib) : Env := { L with Lim := Limiter, allow := Limiter.allow }

/-- The limiters agree on the keys of a tenant. -/
def LimitPart (tn : GoString) : Option Limiter → Option Limiter → Prop
  | none, none => True
  | some l, some l' => ∀ x, Agrees l l' (scopedKey tn x)
  | _, _ => False

section limiters

variable {L : Lib} {tn : GoString} {l l' : Option Limiter}

theorem LimitPart.refl (tn : GoString) (l : Option Limiter) : LimitPart tn l l := by
  cases l with
  | none => trivial
  | some l => exact fun x => ⟨rfl, rfl⟩

theorem LimitPart.mine (hp : LimitPart tn l l') (now : Time) (x : GoString) :
    (allowed (limited L) l' now (scopedKey tn x)).1 =
        (allowed (limited L) l now (scopedKey tn x)).1 ∧
      LimitPart tn (allowed (limited L) l now (scopedKey tn x)).2
        (allowed (limited L) l' now (scopedKey tn x)).2 := by
  cases l with
  | none =>
    cases l' with
    | none => exact ⟨rfl, trivial⟩
    | some l' => exact absurd hp id
  | some l =>
    cases l' with
    | none => exact absurd hp id
    | some l' =>
      obtain ⟨hok, hsame⟩ := allow_answer (hp x) now
      refine ⟨hok.symm, fun y => ?_⟩
      by_cases hy : scopedKey tn y = scopedKey tn x
      · rw [hy]
        exact hsame
      · have hframe := allow_frame (l := l) hy now
        have hframe' := allow_frame (l := l') hy now
        exact ⟨(hframe.1.trans (hp y).1).trans hframe'.1.symm,
          (hframe.2.trans (hp y).2).trans hframe'.2.symm⟩

theorem LimitPart.other (hp : LimitPart tn l l') {tn' : GoString} (hcolon : 58 ∉ tn)
    (hcolon' : 58 ∉ tn') (hne : tn' ≠ tn) (now : Time) (x : GoString) :
    LimitPart tn (allowed (limited L) l now (scopedKey tn' x)).2 l' := by
  cases l with
  | none => exact hp
  | some l =>
    cases l' with
    | none => exact absurd hp id
    | some l' =>
      intro y
      have hy : scopedKey tn y ≠ scopedKey tn' x :=
        fun he => hne (scopedKey_inj hcolon hcolon' he).1.symm
      have hframe := allow_frame (l := l) hy now
      exact ⟨hframe.1.trans (hp y).1, hframe.2.trans (hp y).2⟩

end limiters

/-! ## The state -/

/-- The state `u` is what `s` holds for the tenant. -/
structure Part {L : Lib} (tn : GoString) (s u : State (limited L)) : Prop where
  store : StorePart tn s.store u.store
  tenantLimit : LimitPart tn s.tenantLimit u.tenantLimit
  dictLimit : LimitPart tn s.dictLimit u.dictLimit

section state

variable {L : Lib} {tn : GoString} {s u : State (limited L)}

theorem handle_tenantAllow (E : Env) (key : GoString) (i : Input) (s : State E) :
    handle E (.tenantAllow key) i s = some ((allowed E s.tenantLimit i.now key).1,
      { s with tenantLimit := (allowed E s.tenantLimit i.now key).2 }) := rfl

theorem handle_dictAllow (E : Env) (key : GoString) (i : Input) (s : State E) :
    handle E (.dictAllow key) i s = some ((allowed E s.dictLimit i.now key).1,
      { s with dictLimit := (allowed E s.dictLimit i.now key).2 }) := rfl

/-- An operation of the tenant gets the same answer from its part. -/
theorem Part.handle_mine (hp : Part tn s u) (hf : u.store.Filed) {o : Op} (ho : OpFor tn o)
    {i : Input} {r : o.Ret} {s' : State (limited L)}
    (hnew : ∀ t evs auds, o = .store (.insertTransfer t evs auds) →
      s.store.transfers.lookup t.id = none)
    (h : handle (limited L) o i s = some (r, s')) :
    ∃ u', handle (limited L) o i u = some (r, u') ∧ Part tn s' u' := by
  cases o with
  | tenantAllow key =>
    obtain ⟨x, rfl⟩ := ho
    rw [handle_tenantAllow, Option.some.injEq, Prod.mk.injEq] at h
    obtain ⟨rfl, rfl⟩ := h
    obtain ⟨hok, hpart⟩ := hp.tenantLimit.mine (L := L) i.now x
    refine ⟨{ u with tenantLimit := (allowed (limited L) u.tenantLimit i.now (scopedKey tn x)).2 }, ?_,
      hp.store, hpart, hp.dictLimit⟩
    rw [handle_tenantAllow, hok]
  | dictAllow key =>
    obtain ⟨x, rfl⟩ := ho
    rw [handle_dictAllow, Option.some.injEq, Prod.mk.injEq] at h
    obtain ⟨rfl, rfl⟩ := h
    obtain ⟨hok, hpart⟩ := hp.dictLimit.mine (L := L) i.now x
    refine ⟨{ u with dictLimit := (allowed (limited L) u.dictLimit i.now (scopedKey tn x)).2 }, ?_,
      hp.store, hp.tenantLimit, hpart⟩
    rw [handle_dictAllow, hok]
  | store c =>
    simp only [handle] at h ⊢
    split at h
    · rename_i r' store hstore
      obtain ⟨rfl, rfl⟩ := Prod.mk.inj (Option.some.inj h)
      obtain ⟨u', hu', hpart⟩ := hp.store.storeHandle_mine hf ho.1
        (fun t evs auds hc => hnew t evs auds (by rw [hc])) hstore
      exact ⟨{ u with store := u' }, by rw [hu'], hpart, hp.tenantLimit, hp.dictLimit⟩
    · exact absurd h (by simp)
  | now | health =>
    obtain ⟨rfl, rfl⟩ := Prod.mk.inj (Option.some.inj h)
    exact ⟨u, rfl, hp⟩
  | newID tag =>
    simp only [handle] at h ⊢
    split at h
    · split at h
      · obtain ⟨rfl, rfl⟩ := Prod.mk.inj (Option.some.inj h)
        rename_i hlen
        exact ⟨u, if_pos hlen, hp⟩
      · exact absurd h (by simp)
    · exact absurd h (by simp)
  | resolve tn key ty | score req dict | submit t | publish e =>
    simp only [handle] at h ⊢
    split at h
    · obtain ⟨rfl, rfl⟩ := Prod.mk.inj (Option.some.inj h)
      exact ⟨u, rfl, hp⟩
    · exact absurd h (by simp)

/-- An operation of another tenant leaves the part as it is. -/
theorem Part.handle_other (hp : Part tn s u) (hk : s.store.Keyed) {tn' : GoString}
    (hcolon : 58 ∉ tn) (hcolon' : 58 ∉ tn') (hne : tn' ≠ tn) {o : Op} (ho : OpFor tn' o)
    {i : Input} {r : o.Ret} {s' : State (limited L)}
    (h : handle (limited L) o i s = some (r, s')) : Part tn s' u := by
  cases o with
  | tenantAllow key =>
    obtain ⟨x, rfl⟩ := ho
    rw [handle_tenantAllow, Option.some.injEq, Prod.mk.injEq] at h
    obtain ⟨-, rfl⟩ := h
    exact ⟨hp.store, hp.tenantLimit.other (L := L) hcolon hcolon' hne i.now x, hp.dictLimit⟩
  | dictAllow key =>
    obtain ⟨x, rfl⟩ := ho
    rw [handle_dictAllow, Option.some.injEq, Prod.mk.injEq] at h
    obtain ⟨-, rfl⟩ := h
    exact ⟨hp.store, hp.tenantLimit, hp.dictLimit.other (L := L) hcolon hcolon' hne i.now x⟩
  | store c =>
    simp only [handle] at h
    split at h
    · rename_i r' store hstore
      obtain ⟨rfl, rfl⟩ := Prod.mk.inj (Option.some.inj h)
      refine ⟨?_, hp.tenantLimit, hp.dictLimit⟩
      rcases storeHandle_cases hstore with ⟨he, -⟩ | hs
      · rw [he]
        exact hp.store
      · exact hp.store.storeStep_other hk hcolon hcolon' hne ho hs
    · exact absurd h (by simp)
  | now | health =>
    obtain ⟨rfl, rfl⟩ := Prod.mk.inj (Option.some.inj h)
    exact hp
  | newID tag =>
    simp only [handle] at h
    split at h
    · split at h
      · obtain ⟨rfl, rfl⟩ := Prod.mk.inj (Option.some.inj h)
        exact hp
      · exact absurd h (by simp)
    · exact absurd h (by simp)
  | resolve tn key ty | score req dict | submit t | publish e =>
    simp only [handle] at h
    split at h
    · obtain ⟨rfl, rfl⟩ := Prod.mk.inj (Option.some.inj h)
      exact hp
    · exact absurd h (by simp)

end state

end PixRail.Tenancy
