import PixRail.Interleave.Purge
import PixRail.Lifecycle.Sound
import PixRail.Spi.Simulator
import PixRail.Switcher.Stamps

/-!
# The times of a transfer

Every write stamps the transfer with a time, and takes it from a different
place: the clock of the store, the request, or the message of the SPI.  This
module follows `UpdatedAt` and the times of the audit records along a run in
which the calls come one after the other (`Sequential`), the clock does not
go back (`Steady`) and the SPI is the shipped simulator (`Simulated`).

`Touch` says what one write does to the times of a transfer, and is closed
under the writes of one call (`Touch.trans`), so it also says what a whole
call does.  Every write takes a reading of its call, except the record of a
submission: the simulator dates its message back to the creation of the
transfer.  So time runs backwards on a transfer exactly when it is submitted
after something else has moved its `UpdatedAt` (`time_forward_iff`).
-/

namespace PixRail.Lifecycle

open Go Rail Events Store Interleave Switcher Spi

variable {E : Env} {tl dl : Option E.Lim}

/-! ## Readings of the clock -/

/-- The time that a request carries. -/
def carriedTime : Call → Option Time
  | .recordReview req => if req.reviewedAt = 0 then none else some req.reviewedAt
  | .recordSettlement cb => if cb.receivedAt = 0 then none else some cb.receivedAt
  | _ => none

/-- The clock reading of an entry: that of the operation, or the one that the
caller took for its request. -/
def reading : Ev (switch E) → Option Time
  | .spawn _ c => carriedTime c
  | .act _ a => some a.inp.now

def readings (tr : Trace (switch E)) : List Time := tr.filterMap reading

/-- The clock does not go back. -/
def Steady (tr : Trace (switch E)) : Prop := (readings tr).Pairwise (· ≤ ·)

instance (tr : Trace (switch E)) : Decidable (Steady tr) :=
  inferInstanceAs (Decidable ((readings tr).Pairwise (· ≤ ·)))

/-- Every answer of the SPI is the one of the simulator. -/
def Simulated (format : Time → GoString) (tr : Trace (switch E)) : Prop :=
  ∀ cid t i r, actEv cid (.submit t) i r ∈ tr → r = simulatorSubmit E.digest format t i.now

theorem readings_append (t₁ t₂ : Trace (switch E)) :
    readings (t₁ ++ t₂) = readings t₁ ++ readings t₂ :=
  List.filterMap_append

theorem mem_readings_of_act {tr : Trace (switch E)} {cid : Nat} {a : Action sig Input}
    (h : Ev.act cid a ∈ tr) : a.inp.now ∈ readings tr :=
  List.mem_filterMap.mpr ⟨_, h, rfl⟩

/-- A later reading is not before an earlier one. -/
theorem Steady.le {t₁ t₂ : Trace (switch E)} (h : Steady (t₁ ++ t₂)) {x y : Time}
    (hx : x ∈ readings t₁) (hy : y ∈ readings t₂) : x ≤ y := by
  unfold Steady at h
  rw [readings_append] at h
  exact (List.pairwise_append.mp h).2.2 x hx y hy

theorem Steady.of_append {t₁ t₂ : Trace (switch E)} (h : Steady (t₁ ++ t₂)) : Steady t₁ := by
  unfold Steady at h
  rw [readings_append] at h
  exact (List.pairwise_append.mp h).1

theorem Simulated.of_append {format : Time → GoString} {t₁ t₂ : Trace (switch E)}
    (h : Simulated format (t₁ ++ t₂)) : Simulated format t₁ :=
  fun cid t i r ha => h cid t i r (List.mem_append_left _ ha)

/-! ## The times of one transfer -/

/-- The times of the audit records of a transfer, in append order. -/
def auditTimes (s : MemoryStore) (id : GoString) : List Time :=
  (s.audit.filter (·.transferID = id)).map (·.createdAt)

/-- What the writes of the call `c` do to the times of a transfer, when `S`
are the readings of the call.  The last argument is the time of the audit
record that they append. -/
inductive Touch (c : Call) (S : List Time) (t t' : Transfer) : Option Time → Prop where
  | leased (hc : c.Submits) (hst : t.status = .accepted) (hst' : t'.status = .accepted)
      (hread : t'.updatedAt ∈ S) : Touch c S t t' none
  | submitted (hc : c.Submits) (hst : t.status = .accepted) (hst' : t'.status = .approved)
      (hdated : (t.createdAt ≠ 0 ∧ t'.updatedAt = t.createdAt) ∨
        (t.createdAt = 0 ∧ t'.updatedAt ∈ S)) : Touch c S t t' (some t'.updatedAt)
  | reviewed {req : ReviewDecisionRequest} (hc : c = .recordReview req)
      (hst : t.status = .review) (hst' : t'.status = .accepted ∨ t'.status = .blocked)
      (hread : t'.updatedAt ∈ S) : Touch c S t t' (some t'.updatedAt)
  | settled {cb : SettlementCallback} (hc : c = .recordSettlement cb)
      (hst : t.status = .approved) (hst' : t'.status = .settled ∨ t'.status = .rejected)
      (hread : t'.updatedAt ∈ S) : Touch c S t t' (some t'.updatedAt)

section touch

variable {c : Call} {S : List Time} {t t₁ t₂ : Transfer} {x y : Option Time}

theorem Touch.mono {S' : List Time} (h : Touch c S t t₁ x) (hS : S ⊆ S') : Touch c S' t t₁ x := by
  cases h with
  | leased hc hst hst' hread => exact .leased hc hst hst' (hS hread)
  | submitted hc hst hst' hdated =>
    exact .submitted hc hst hst' (hdated.imp_right fun hz => ⟨hz.1, hS hz.2⟩)
  | reviewed hc hst hst' hread => exact .reviewed hc hst hst' (hS hread)
  | settled hc hst hst' hread => exact .settled hc hst hst' (hS hread)

/-- After a claim or a release the call may do more, after any other write it
is done with the transfer. -/
theorem Touch.trans (h₁ : Touch c S t t₁ x) (h₂ : Touch c S t₁ t₂ y)
    (hcreated : t₁.createdAt = t.createdAt) : x = none ∧ Touch c S t t₂ y := by
  cases h₁ with
  | leased hc hst hst' hread =>
    refine ⟨rfl, ?_⟩
    cases h₂ with
    | leased _ _ hst₂ hread₂ => exact .leased hc hst hst₂ hread₂
    | submitted _ _ hst₂ hdated =>
      rw [hcreated] at hdated
      exact .submitted hc hst hst₂ hdated
    | reviewed _ hst₂ => exact absurd (hst'.symm.trans hst₂) (by decide)
    | settled _ hst₂ => exact absurd (hst'.symm.trans hst₂) (by decide)
  | submitted hc hst hst' hdated =>
    cases h₂ with
    | leased _ hst₂ => exact absurd (hst'.symm.trans hst₂) (by decide)
    | submitted _ hst₂ => exact absurd (hst'.symm.trans hst₂) (by decide)
    | reviewed _ hst₂ => exact absurd (hst'.symm.trans hst₂) (by decide)
    | settled hc₂ =>
      subst hc₂
      exact absurd hc id
  | reviewed hc hst hst' hread =>
    subst hc
    cases h₂ with
    | leased hc₂ => exact absurd hc₂ id
    | submitted hc₂ => exact absurd hc₂ id
    | reviewed _ hst₂ => rw [hst₂] at hst'; exact absurd hst' (by decide)
    | settled hc₂ => exact absurd hc₂ (by simp)
  | settled hc hst hst' hread =>
    subst hc
    cases h₂ with
    | leased hc₂ => exact absurd hc₂ id
    | submitted hc₂ => exact absurd hc₂ id
    | reviewed hc₂ => exact absurd hc₂ (by simp)
    | settled _ hst₂ => rw [hst₂] at hst'; exact absurd hst' (by decide)

/-- A call that creates a transfer makes no transition. -/
theorem not_touch_of_create (req : CreateTransferRequest) (S : List Time) (t t' : Transfer)
    (x : Option Time) : ¬ Touch (.createTransfer req) S t t' x := by
  intro h
  cases h with
  | leased hc => exact hc
  | submitted hc => exact hc
  | reviewed hc => exact absurd hc (by simp)
  | settled hc => exact absurd hc (by simp)

end touch

/-! ## The times of a store -/

/-- What the writes of the call `c` do to the transfer `id` between two
stores. -/
inductive Goes (c : Call) (S : List Time) (s s' : MemoryStore) (id : GoString) : Prop where
  | same (htransfer : s'.transfers.lookup id = s.transfers.lookup id)
      (haudit : auditTimes s' id = auditTimes s id)
  | created {req : CreateTransferRequest} {t : Transfer} (hc : c = .createTransfer req)
      (hnew : s.transfers.lookup id = none) (hl : s'.transfers.lookup id = some t)
      (hup : t.updatedAt = t.createdAt) (hread : t.createdAt ∈ S)
      (haudit : auditTimes s' id = auditTimes s id ++ [t.createdAt])
  | moved {t t' : Transfer} {x : Option Time} (hl : s.transfers.lookup id = some t)
      (hl' : s'.transfers.lookup id = some t') (hcreated : t'.createdAt = t.createdAt)
      (htouch : Touch c S t t' x) (haudit : auditTimes s' id = auditTimes s id ++ x.toList)

section goes

variable {c : Call} {S : List Time} {s s₁ s₂ : MemoryStore} {id : GoString}

theorem Goes.mono {S' : List Time} (h : Goes c S s s₁ id) (hS : S ⊆ S') : Goes c S' s s₁ id := by
  cases h with
  | same htransfer haudit => exact .same htransfer haudit
  | created hc hnew hl hup hread haudit => exact .created hc hnew hl hup (hS hread) haudit
  | moved hl hl' hcreated htouch haudit => exact .moved hl hl' hcreated (htouch.mono hS) haudit

theorem Goes.trans (h₁ : Goes c S s s₁ id) (h₂ : Goes c S s₁ s₂ id) : Goes c S s s₂ id := by
  cases h₂ with
  | same htransfer₂ haudit₂ =>
    cases h₁ with
    | same htransfer haudit => exact .same (htransfer₂.trans htransfer) (haudit₂.trans haudit)
    | created hc hnew hl hup hread haudit =>
      exact .created hc hnew (htransfer₂.trans hl) hup hread (haudit₂.trans haudit)
    | moved hl hl' hcreated htouch haudit =>
      exact .moved hl (htransfer₂.trans hl') hcreated htouch (haudit₂.trans haudit)
  | created hc₂ hnew₂ hl₂ hup₂ hread₂ haudit₂ =>
    cases h₁ with
    | same htransfer haudit =>
      exact .created hc₂ (htransfer.symm.trans hnew₂) hl₂ hup₂ hread₂ (by rw [haudit₂, haudit])
    | created _ _ hl => exact absurd (hl.symm.trans hnew₂) (by simp)
    | moved _ hl' => exact absurd (hl'.symm.trans hnew₂) (by simp)
  | moved hl₂ hl₂' hcreated₂ htouch₂ haudit₂ =>
    cases h₁ with
    | same htransfer haudit =>
      exact .moved (htransfer.symm.trans hl₂) hl₂' hcreated₂ htouch₂ (by rw [haudit₂, haudit])
    | created hc => exact absurd (hc ▸ htouch₂) (not_touch_of_create _ _ _ _ _)
    | moved hl hl' hcreated htouch haudit =>
      obtain rfl := Option.some.inj (hl'.symm.trans hl₂)
      obtain ⟨rfl, htouch'⟩ := htouch.trans htouch₂ hcreated
      refine .moved hl hl₂' (hcreated₂.trans hcreated) htouch' ?_
      rw [haudit₂, haudit, Option.toList_none, List.append_nil]

/-- An append of audit records for one transfer. -/
theorem auditTimes_append (id id' : GoString) {auds : List AuditRecord}
    (haudit : s₁.audit = s.audit ++ auds) (hname : ∀ a ∈ auds, a.transferID = id') :
    auditTimes s₁ id =
      auditTimes s id ++ if id = id' then auds.map (·.createdAt) else [] := by
  rw [auditTimes, haudit, List.filter_append, List.map_append, auditTimes]
  congr 1
  split
  · rename_i hid
    rw [List.filter_eq_self.mpr fun a ha => by simpa [hid] using hname a ha]
  · rename_i hid
    rw [List.filter_eq_nil_iff.mpr fun a ha => by simpa [hname a ha] using fun he => hid he.symm,
      List.map_nil]

/-- A transition of the transfer `t`.  The others keep their times. -/
theorem Goes.of_move (t t' : Transfer) (auds : List AuditRecord) {x : Option Time}
    (hl : s.transfers.lookup t.id = some t) (horder : SameOrder t t')
    (htransfers : s₁.transfers = s.transfers.insert t'.id t')
    (haudit : s₁.audit = s.audit ++ auds) (hname : ∀ a ∈ auds, a.transferID = t.id)
    (htouch : Touch c S t t' x) (hx : auds.map (·.createdAt) = x.toList) : Goes c S s s₁ id := by
  have htimes := auditTimes_append id t.id haudit hname
  rw [horder.id] at htransfers
  by_cases hid : id = t.id
  · subst hid
    rw [if_pos rfl, hx] at htimes
    exact .moved hl (by rw [htransfers, Finmap.lookup_insert]) horder.createdAt htouch htimes
  · rw [if_neg hid, List.append_nil] at htimes
    exact .same (by rw [htransfers, Finmap.lookup_insert_of_ne _ hid]) htimes

end goes

/-! ## One write -/

section write

variable {tr : Trace (switch E)} {w : World (switch E)} {format : Time → GoString} {cid : Nat}
  {c : Call} {S : List Time}

/-- The transfer that a call has claimed is still there, with its order. -/
theorem claimed_order (h : Runs E tl dl tr w) {tn id tok : GoString} {u : Time}
    {current : Transfer}
    (hclaim : Did (hist cid tr) (.store (.claimSPISubmission tn id tok u)) (.ok (current, false))) :
    ∃ t, w.state.store.transfers.lookup id = some t ∧ SameOrder current t := by
  obtain ⟨i, hmem, hens⟩ := ens_of_did h hclaim
  obtain ⟨t₁, t₂, rfl⟩ := List.append_of_mem hmem
  obtain ⟨w₁, w₂, h₁, hstep, h₂, hrest⟩ := runs_at h
  have hl : w₂.state.store.transfers.lookup id = some current := by
    rcases storeHandle_cases (step_store hstep) with ⟨-, hidle⟩ | hs
    · exact absurd rfl (hidle current)
    · generalize w₂.state.store = s₂ at hs ⊢
      cases hs with
      | claimed hctx hfind hcl =>
        rw [MemoryStore.putTransfer_transfers, (hens _ rfl).1, Finmap.lookup_insert]
  obtain ⟨t, hl', hfrozen⟩ := run_frozen h₂ hrest hl
  exact ⟨t, hl', hfrozen.order⟩

/-- A time that the call takes from its request or from the clock is one of
its readings. -/
theorem GivenOrNow.mem_readings (h : Runs E tl dl tr w)
    (hS : ∀ a ∈ hist cid tr, a.inp.now ∈ S) {given x : Time}
    (hgiven : given ≠ 0 → given ∈ S) (hx : GivenOrNow (hist cid tr) given x) : x ∈ S := by
  rcases hx with ⟨-, hnow⟩ | ⟨hne, rfl⟩
  · obtain ⟨i, hmem, hens⟩ := ens_of_did h hnow
    rw [show x = i.now from hens]
    exact hS _ (mem_hist.mpr hmem)
  · exact hgiven hne

/-- The time of the message that a call got for the transfer it has claimed. -/
theorem submitted_at (h : Runs E tl dl tr w) (hsim : Simulated format tr)
    (hS : ∀ a ∈ hist cid tr, a.inp.now ∈ S) {tn id tok : GoString} {u : Time}
    {current t : Transfer} {m : SPIMessage} (hl : w.state.store.transfers.lookup id = some t)
    (hclaim : Did (hist cid tr) (.store (.claimSPISubmission tn id tok u)) (.ok (current, false)))
    (hsubmit : Did (hist cid tr) (.submit current) (.ok m)) :
    (t.createdAt ≠ 0 ∧ m.submittedAt = t.createdAt) ∨
      (t.createdAt = 0 ∧ m.submittedAt ∈ S) := by
  obtain ⟨t₁, hl₁, horder⟩ := claimed_order h hclaim
  obtain rfl := Option.some.inj (hl₁.symm.trans hl)
  obtain ⟨i, hmem, -⟩ := ens_of_did h hsubmit
  have hdate := simulatorSubmit_eq_ok (hsim _ _ _ _ hmem).symm
  rw [← horder.createdAt] at hdate
  by_cases hz : t₁.createdAt = 0
  · rw [if_pos hz] at hdate
    refine .inr ⟨hz, ?_⟩
    rw [hdate]
    exact hS _ (mem_hist.mpr hmem)
  · rw [if_neg hz] at hdate
    exact .inl ⟨hz, hdate⟩

/-- What one write does to the times. -/
theorem write_goes (h : Runs E tl dl tr w) (hsim : Simulated format tr)
    (hspawn : spawnEv cid c ∈ tr) {call : StoreCall} {i : Input} {r : call.Ret}
    {s' : MemoryStore} (hallow : Allows E.toLib c (hist cid tr) (.store call))
    (hstamps : Stamps c (hist cid tr) (.store call))
    (hs : StoreStep E.digest w.state.store i call r s') (hi : i.now ∈ S)
    (hS : ∀ a ∈ hist cid tr, a.inp.now ∈ S) (hcarried : ∀ x ∈ carriedTime c, x ∈ S)
    (id : GoString) : Goes c S w.state.store s' id := by
  have hk := runs_keyed h
  have hsubmits : ∀ {tn id tok u r},
      Did (hist cid tr) (.store (.claimSPISubmission tn id tok u)) r →
      c.Submits := by
    intro tn id tok u r hd
    obtain ⟨h₀, hal⟩ := allows_of_did h hspawn hd
    cases hal with
    | claim hc => exact hc
  cases hs with
  | @inserted t evs auds hnew hidem =>
    cases hallow with
    | insert hc hvalid hstatus hfirst hid hfind ht hevs =>
      subst hc
      obtain ⟨hup, hnow⟩ := hstamps
      obtain ⟨i', hmem, hens⟩ := ens_of_did h hnow
      have hread : t.createdAt ∈ S := by
        rw [show t.createdAt = i'.now from hens]
        exact hS _ (mem_hist.mpr hmem)
      have htimes := auditTimes_append id t.id
        (MemoryStore.write_audit w.state.store t evs [creationAudit t]) (by simp [creationAudit])
      by_cases hid : id = t.id
      · subst hid
        rw [if_pos rfl] at htimes
        exact .created rfl hnew (by simp) hup hread htimes
      · rw [if_neg hid, List.append_nil] at htimes
        exact .same (by simp [Finmap.lookup_insert_of_ne _ hid]) htimes
  | @claimed tn id' tok u t t' hctx hfind hclaim =>
    obtain ⟨hl, -⟩ := MemoryStore.owned_eq_some.mp hfind
    obtain rfl := hk _ _ hl
    have horder := (Moves.claim hclaim).sameOrder
    obtain ⟨-, -, hst, -, ht'⟩ := Transfer.claimSPISubmission_eq_ok.mp hclaim
    cases hallow with
    | claim hc =>
      refine Goes.of_move t t' [] hl horder rfl (by simp) (by simp) (.leased hc hst ?_ ?_) rfl
      · rw [ht', hst]
      · rwa [ht']
  | @released tn id' tok e rt t t' hctx hfind happ hrel =>
    obtain ⟨hl, -⟩ := MemoryStore.owned_eq_some.mp hfind
    obtain rfl := hk _ _ hl
    have horder := (Moves.release happ hrel).sameOrder
    obtain ⟨htok, -, ht'⟩ := (Transfer.releaseSPISubmission_eq_ok happ).mp hrel
    have hst := ((runs_sound h hl).claimed htok).1
    generalize hr : rt = rt' at hallow
    cases hallow with
    | release e hfor hclaim hnow =>
      refine Goes.of_move t t' [] hl horder rfl (by simp) (by simp)
        (.leased (hsubmits hclaim) hst ?_ ?_) rfl
      · rw [ht', hst]
      · rwa [ht']
  | @recorded tn id' tok m evs aud t t' hctx hfind hrec =>
    obtain ⟨hl, -⟩ := MemoryStore.owned_eq_some.mp hfind
    obtain rfl := hk _ _ hl
    have hmove : Moves i (.recordSPISubmission t.tenantID t.id tok m evs aud) t t' := .record hrec
    obtain ⟨hst, -, -, -, -, ht'⟩ := Transfer.recordSPISubmission_eq_ok.mp hrec
    have hup : t'.updatedAt = m.submittedAt := by rw [ht']
    cases hallow with
    | @record _ _ _ cor u current _ _ hfor hclaim hsubmit hevs =>
      obtain ⟨_, -, hens⟩ := ens_of_did h hclaim
      refine Goes.of_move t t' [submissionAudit current cor m] (x := some t'.updatedAt) hl
        hmove.sameOrder (by simp) (by simp) ?_
        (.submitted (hsubmits hclaim) hst (by rw [ht']) ?_) ?_
      · simpa [submissionAudit] using (hens _ rfl).1
      · rw [hup]
        exact submitted_at h hsim hS hl hclaim hsubmit
      · rw [hup]
        rfl
  | @reviewed tn id' st reason evs aud t t' hfind hrev =>
    obtain ⟨hl, -⟩ := MemoryStore.owned_eq_some.mp hfind
    obtain rfl := hk _ _ hl
    have hmove : Moves i (.recordReviewDecision t.tenantID t.id st reason evs aud) t t' :=
      .review hrev
    obtain ⟨hst, hst', ht'⟩ := Transfer.recordReviewDecision_eq_ok.mp hrev
    have hup : t'.updatedAt = aud.createdAt := by rw [ht']
    cases hallow with
    | @review req _ _ cor _ at_ current _ _ hc htn hget hreview hstatus hevs =>
      subst hc
      obtain ⟨_, -, hens⟩ := ens_of_did h hget
      refine Goes.of_move t t' [reviewAudit current cor req.decision st at_]
        (x := some t'.updatedAt) hl hmove.sameOrder (by simp) (by simp) ?_
        (.reviewed rfl hst (by rw [ht']; exact hst') ?_) (by rw [hup]; rfl)
      · simpa [reviewAudit] using (hens _ rfl).1
      · rw [hup]
        exact GivenOrNow.mem_readings h hS
          (fun hne => hcarried _ (by simp [carriedTime, hne])) hstamps
  | @settled tn id' cb evs aud t t' hfind hnew hset =>
    obtain ⟨hl, -⟩ := MemoryStore.owned_eq_some.mp hfind
    obtain rfl := hk _ _ hl
    have hmove : Moves i (.updateSettlement t.tenantID t.id cb evs aud) t t' := .settle hset
    obtain ⟨-, -, hst, st, hst', ht'⟩ := Transfer.recordSettlement_eq_ok.mp hset
    have hup : t'.updatedAt = cb.receivedAt := by rw [ht']
    cases hallow with
    | @settle cb₀ _ _ at_ cor current ty _ hc htn hid hne hget hspi hty hevs =>
      subst hc
      obtain ⟨_, -, hens⟩ := ens_of_did h hget
      refine Goes.of_move t t' [settlementAudit current (received E.toLib cb₀ at_ cor)]
        (x := some t'.updatedAt) hl hmove.sameOrder (by simp) (by simp) ?_
        (.settled rfl hst (by rw [ht']; exact settles_cases hst') ?_) (by rw [hup]; rfl)
      · simpa [settlementAudit] using (hens _ rfl).1
      · rw [hup]
        exact GivenOrNow.mem_readings h hS
          (fun hne => hcarried _ (by simp [carriedTime, hne])) hstamps.1
  | outboxClaimed => exact .same rfl rfl
  | outboxPublished => exact .same rfl rfl
  | outboxFailed => exact .same rfl rfl

end write

/-! ## One call -/

/-- What a call that runs alone does to the times. -/
theorem call_goes {tr acts : Trace (switch E)} {w w' : World (switch E)}
    {format : Time → GoString} {cid : Nat} {c : Call} (h : Runs E tl dl tr w)
    (hrun : Run w (spawnEv cid c :: acts) w') (halone : ∀ e ∈ acts, e.cid = cid)
    (hsim : Simulated format (tr ++ spawnEv cid c :: acts)) (id : GoString) :
    Goes c (readings (spawnEv cid c :: acts)) w.state.store w'.state.store id := by
  induction acts using List.reverseRecOn generalizing w' with
  | nil =>
    have hrun : Run w ([] ++ [spawnEv cid c]) w' := hrun
    obtain ⟨w₁, h₁, hstep⟩ := hrun.snoc_inv
    obtain rfl := h₁.nil_inv
    cases hstep with
    | spawn c hfree => exact .same rfl rfl
  | append_singleton acts e ih =>
    rw [← List.cons_append] at hrun hsim ⊢
    rw [← List.append_assoc] at hsim
    obtain ⟨w₁, hrun₁, hstep⟩ := hrun.snoc_inv
    have hall := h.append hrun₁
    have hsub : readings (spawnEv cid c :: acts) ⊆ readings ((spawnEv cid c :: acts) ++ [e]) :=
      List.filterMap_subset _ (List.subset_append_left _ _)
    have hfirst := (ih hrun₁ (fun e he => halone e (List.mem_append_left _ he))
      hsim.of_append).mono hsub
    have hcid : e.cid = cid := halone e (List.mem_append_right _ List.mem_cons_self)
    refine hfirst.trans ?_
    cases hstep with
    | spawn c hfree => exact .same rfl rfl
    | @act cid' c' o k i r s' hthread hhandle =>
      obtain rfl : cid' = cid := hcid
      have hstep := Step.act hthread hhandle
      rw [World.put_state]
      rcases handle_store hhandle with ⟨-, he⟩ | ⟨call, r', ha, hcall⟩
      · rw [he]
        exact .same rfl rfl
      · rcases storeHandle_cases hcall with ⟨he, -⟩ | hs
        · rw [he]
          exact .same rfl rfl
        · have hspawn : spawnEv cid' c ∈ tr ++ spawnEv cid' c :: acts := by simp
          obtain ⟨c₁, hc₁, hallow⟩ := (contract E tl dl).allows_of_step hall hstep
          obtain rfl := hall.spawn_unique hspawn hc₁
          have hstamps := stamps_of_step hall hspawn hstep
          rw [ha] at hallow hstamps
          refine write_goes hall hsim.of_append hspawn hallow hstamps hs ?_ ?_ ?_ id
          · exact mem_readings_of_act (List.mem_append_right _ List.mem_cons_self)
          · intro a ha
            rw [hist_append, hall.hist_eq_nil_of_spawn List.mem_cons_self, List.nil_append,
              mem_hist] at ha
            exact mem_readings_of_act (List.mem_append_left _ ha)
          · intro x hx
            exact List.mem_filterMap.mpr ⟨spawnEv cid' c, by simp, hx⟩

/-! ## Sequential runs -/

/-- A completed call of a sequential run, with the worlds before and after
it. -/
structure Served (E : Env) where
  cid : Nat
  call : Call
  acts : Trace (switch E)
  outcome : Outcome
  before : World (switch E)
  after : World (switch E)

/-- The part of the trace that belongs to the call. -/
def Served.trace (o : Served E) : Trace (switch E) := spawnEv o.cid o.call :: o.acts

/-- The trace of a list of calls. -/
def traceOf (ops : List (Served E)) : Trace (switch E) := ops.flatMap Served.trace

/-- Calls from the start of the switch, each run to its end before the next
one starts. -/
inductive Sequential (E : Env) (tl dl : Option E.Lim) :
    List (Served E) → World (switch E) → Prop where
  | nil : Sequential E tl dl [] (.init (State.initial E tl dl))
  | snoc {ops : List (Served E)} {o : Served E} (h : Sequential E tl dl ops o.before)
      (hrun : Run o.before o.trace o.after) (halone : ∀ e ∈ o.acts, e.cid = o.cid)
      (hret : o.after.result o.cid = some o.outcome) :
      Sequential E tl dl (ops ++ [o]) o.after

theorem traceOf_snoc (ops : List (Served E)) (o : Served E) :
    traceOf (ops ++ [o]) = traceOf ops ++ o.trace := by
  simp [traceOf]

theorem Sequential.runs {ops : List (Served E)} {w : World (switch E)}
    (h : Sequential E tl dl ops w) : Runs E tl dl (traceOf ops) w := by
  induction h with
  | nil => exact .nil
  | snoc _ hrun _ _ ih =>
    rw [traceOf_snoc]
    exact ih.append hrun

/-- Time goes forward over the call. -/
structure Served.Forward (o : Served E) : Prop where
  updated : ∀ id t t', o.before.state.store.transfers.lookup id = some t →
    o.after.state.store.transfers.lookup id = some t' → t.updatedAt ≤ t'.updatedAt
  created : ∀ id t, o.after.state.store.transfers.lookup id = some t → t.createdAt ≤ t.updatedAt
  audit : ∀ id, (auditTimes o.after.state.store id).Pairwise (· ≤ ·)

/-- The transfers that the call submits have not been touched since they were
created: no review and no earlier claim has moved their `UpdatedAt`. -/
def Served.SubmitsUntouched (o : Served E) : Prop :=
  ∀ id t t', o.before.state.store.transfers.lookup id = some t →
    o.after.state.store.transfers.lookup id = some t' → t.status = .accepted →
    t'.status = .approved → t.createdAt = 0 ∨ t.updatedAt ≤ t.createdAt

instance (o : Served E) : Decidable o.SubmitsUntouched :=
  decidable_of_iff
    (∀ id ∈ o.before.state.store.transfers.keys,
      ∀ t ∈ o.before.state.store.transfers.lookup id,
      ∀ t' ∈ o.after.state.store.transfers.lookup id, t.status = .accepted →
      t'.status = .approved → t.createdAt = 0 ∨ t.updatedAt ≤ t.createdAt)
    ⟨fun h id t t' hl hl' =>
        h id (Finmap.mem_keys.mpr (Finmap.mem_of_lookup_eq_some hl)) t hl t' hl',
      fun h id _ t hl t' hl' => h id t t' hl hl'⟩

/-! ## Untouched transfers -/

/-- The times of a transfer after the trace `tr`. -/
structure InOrder (tr : Trace (switch E)) (t : Transfer) (times : List Time) : Prop where
  created : t.createdAt ≤ t.updatedAt
  read : ∃ x ∈ readings tr, t.updatedAt ≤ x
  audit : times.Pairwise (· ≤ ·)
  latest : ∀ x ∈ times, x ≤ t.updatedAt

/-- The times in a store after the trace `tr`. -/
structure Ordered (tr : Trace (switch E)) (s : MemoryStore) : Prop where
  absent : ∀ id, s.transfers.lookup id = none → auditTimes s id = []
  present : ∀ id t, s.transfers.lookup id = some t → InOrder tr t (auditTimes s id)

section order

variable {tr seg : Trace (switch E)} {c : Call} {t t' : Transfer} {x : Option Time}
  {times : List Time}

/-- A write takes a reading of its call, or the creation time of the transfer. -/
theorem Touch.updatedAt_cases {S : List Time} (h : Touch c S t t' x) :
    t'.updatedAt ∈ S ∨
      (t.status = .accepted ∧ t'.status = .approved ∧ t.createdAt ≠ 0 ∧
        t'.updatedAt = t.createdAt) := by
  cases h with
  | leased _ _ _ hread => exact .inl hread
  | submitted _ hst hst' hdated =>
    rcases hdated with ⟨hne, he⟩ | ⟨-, hread⟩
    · exact .inr ⟨hst, hst', hne, he⟩
    · exact .inl hread
  | reviewed _ _ _ hread => exact .inl hread
  | settled _ _ _ hread => exact .inl hread

/-- The audit record has the time of the transfer. -/
theorem Touch.audit {S : List Time} (h : Touch c S t t' x) : ∀ y ∈ x, y = t'.updatedAt := by
  intro y hy
  cases h with
  | leased => exact absurd hy (by simp)
  | submitted | reviewed | settled => exact (Option.some.inj hy).symm

theorem InOrder.mono (h : InOrder tr t times) : InOrder (tr ++ seg) t times := by
  obtain ⟨x, hx, hle⟩ := h.read
  refine ⟨h.created, ⟨x, ?_, hle⟩, h.audit, h.latest⟩
  rw [readings_append]
  exact List.mem_append_left _ hx

/-- A write to a transfer, unless it submits one that has been touched. -/
theorem InOrder.touch (h : InOrder tr t times) (hsteady : Steady (tr ++ seg))
    (htouch : Touch c (readings seg) t t' x) (hcreated : t'.createdAt = t.createdAt)
    (huntouched : t.status = .accepted → t'.status = .approved →
      t.createdAt = 0 ∨ t.updatedAt ≤ t.createdAt) :
    t.updatedAt ≤ t'.updatedAt ∧ InOrder (tr ++ seg) t' (times ++ x.toList) := by
  obtain ⟨y, hy, hle⟩ := h.read
  have hup : t.updatedAt ≤ t'.updatedAt ∧ ∃ z ∈ readings (tr ++ seg), t'.updatedAt ≤ z := by
    rw [readings_append]
    rcases htouch.updatedAt_cases with hread | ⟨hst, hst', hne, he⟩
    · exact ⟨hle.trans (hsteady.le hy hread), _, List.mem_append_right _ hread, le_refl _⟩
    · rw [he]
      exact ⟨(huntouched hst hst').resolve_left hne, y, List.mem_append_left _ hy,
        h.created.trans hle⟩
  refine ⟨hup.1, ?_, hup.2, ?_, ?_⟩
  · rw [hcreated]
    exact h.created.trans hup.1
  · refine List.pairwise_append.mpr ⟨h.audit, by cases x <;> simp, fun a ha b hb => ?_⟩
    rw [htouch.audit b (Option.mem_toList.mp hb)]
    exact (h.latest a ha).trans hup.1
  · intro a ha
    rcases List.mem_append.mp ha with ha | ha
    · exact (h.latest a ha).trans hup.1
    · exact le_of_eq (htouch.audit a (Option.mem_toList.mp ha))

/-- A call that submits no touched transfer keeps the order and goes
forward. -/
theorem Ordered.serve {o : Served E} (h : Ordered tr o.before.state.store)
    (hsteady : Steady (tr ++ o.trace)) (huntouched : o.SubmitsUntouched)
    (hgoes : ∀ id, Goes o.call (readings o.trace) o.before.state.store o.after.state.store id) :
    Ordered (tr ++ o.trace) o.after.state.store ∧ o.Forward := by
  have habsent : ∀ id, o.after.state.store.transfers.lookup id = none →
      auditTimes o.after.state.store id = [] := by
    intro id hnone
    cases hgoes id with
    | same htransfer haudit => rw [haudit, h.absent id (htransfer.symm.trans hnone)]
    | created _ _ hl => exact absurd (hl.symm.trans hnone) (by simp)
    | moved _ hl' => exact absurd (hl'.symm.trans hnone) (by simp)
  have hpresent : ∀ id t', o.after.state.store.transfers.lookup id = some t' →
      InOrder (tr ++ o.trace) t' (auditTimes o.after.state.store id) ∧
        ∀ t, o.before.state.store.transfers.lookup id = some t → t.updatedAt ≤ t'.updatedAt := by
    intro id t' hl'
    cases hgoes id with
    | same htransfer haudit =>
      have hl := htransfer.symm.trans hl'
      rw [haudit]
      refine ⟨(h.present id t' hl).mono, fun t ht => ?_⟩
      rw [Option.some.inj (ht.symm.trans hl)]
    | created _ hnew hl hup hread haudit =>
      obtain rfl := Option.some.inj (hl.symm.trans hl')
      rw [haudit, h.absent id hnew]
      refine ⟨⟨hup.ge, ⟨_, ?_, hup.le⟩, by simp, by simpa using hup.ge⟩, fun t ht => ?_⟩
      · rw [readings_append]
        exact List.mem_append_right _ hread
      · exact absurd (ht.symm.trans hnew) (by simp)
    | @moved t _ x hl hl₁ hcreated htouch haudit =>
      obtain rfl := Option.some.inj (hl₁.symm.trans hl')
      obtain ⟨hle, horder⟩ := (h.present id t hl).touch hsteady htouch hcreated
        (huntouched id t _ hl hl')
      rw [haudit]
      refine ⟨horder, fun t₁ ht₁ => ?_⟩
      rwa [Option.some.inj (ht₁.symm.trans hl)]
  refine ⟨⟨habsent, fun id t hl => (hpresent id t hl).1⟩, ?_⟩
  refine ⟨fun id t t' hl hl' => (hpresent id t' hl').2 t hl,
    fun id t hl => (hpresent id t hl).1.created, fun id => ?_⟩
  cases hl : o.after.state.store.transfers.lookup id with
  | none => simp [habsent id hl]
  | some t => exact (hpresent id t hl).1.audit

end order

/-! ## Runs -/

section run

variable {ops : List (Served E)} {w : World (switch E)} {format : Time → GoString}

theorem sequential_ordered (h : Sequential E tl dl ops w) (hsteady : Steady (traceOf ops))
    (hsim : Simulated format (traceOf ops)) (huntouched : ∀ o ∈ ops, o.SubmitsUntouched) :
    Ordered (traceOf ops) w.state.store ∧ ∀ o ∈ ops, o.Forward := by
  induction h with
  | nil => exact ⟨⟨fun _ _ => rfl, fun id t hl => absurd hl (by simp [World.init, State.initial,
      newMemoryStore])⟩, by simp⟩
  | @snoc ops o h hrun halone hret ih =>
    rw [traceOf_snoc] at hsteady hsim ⊢
    rw [List.forall_mem_append] at huntouched
    obtain ⟨hordered, hforward⟩ := ih hsteady.of_append hsim.of_append huntouched.1
    obtain ⟨hordered', hlast⟩ := hordered.serve hsteady (huntouched.2 o List.mem_cons_self)
      (call_goes h.runs hrun halone hsim)
    exact ⟨hordered', List.forall_mem_append.mpr ⟨hforward, by simpa using hlast⟩⟩

/-- A submission that goes forward finds its transfer untouched. -/
theorem sequential_untouched (h : Sequential E tl dl ops w) (hsim : Simulated format (traceOf ops))
    (hforward : ∀ o ∈ ops, o.Forward) : ∀ o ∈ ops, o.SubmitsUntouched := by
  induction h with
  | nil => simp
  | @snoc ops o h hrun halone hret ih =>
    rw [traceOf_snoc] at hsim
    rw [List.forall_mem_append] at hforward
    refine List.forall_mem_append.mpr ⟨ih hsim.of_append hforward.1, ?_⟩
    rw [List.forall_mem_singleton]
    intro id t t' hl hl' hst hst'
    have hle := (hforward.2 o List.mem_cons_self).updated id t t' hl hl'
    cases call_goes h.runs hrun halone hsim id with
    | same htransfer _ =>
      rw [Option.some.inj (hl'.symm.trans (htransfer.trans hl)), hst] at hst'
      exact absurd hst' (by decide)
    | created _ hnew => exact absurd (hl.symm.trans hnew) (by simp)
    | moved hl₁ hl₁' hcreated htouch _ =>
      obtain rfl := Option.some.inj (hl₁.symm.trans hl)
      obtain rfl := Option.some.inj (hl₁'.symm.trans hl')
      cases htouch with
      | leased _ _ hacc => exact absurd (hacc.symm.trans hst') (by decide)
      | submitted _ _ _ hdated =>
        rcases hdated with ⟨-, he⟩ | ⟨hz, -⟩
        · exact .inr (he ▸ hle)
        · exact .inl hz
      | reviewed _ hrev => exact absurd (hrev.symm.trans hst) (by decide)
      | settled _ happ => exact absurd (happ.symm.trans hst) (by decide)

/-- Time goes forward over every call of a sequential run exactly when no
call submits a transfer that has been touched since it was created. -/
theorem time_forward_iff (h : Sequential E tl dl ops w) (hsteady : Steady (traceOf ops))
    (hsim : Simulated format (traceOf ops)) :
    (∀ o ∈ ops, o.Forward) ↔ ∀ o ∈ ops, o.SubmitsUntouched :=
  ⟨sequential_untouched h hsim, fun huntouched =>
    (sequential_ordered h hsteady hsim huntouched).2⟩

end run

/-! ## Executing sequential runs -/

/-- Execute the schedule of one call to its end. -/
def serve (w : World (switch E)) (ls : List (Label (switch E))) : Option (Served E) :=
  match w.exec ls with
  | some (.spawn cid call :: acts, w') =>
    match w'.result cid with
    | some outcome =>
      if ∀ e ∈ acts, e.cid = cid then some ⟨cid, call, acts, outcome, w, w'⟩ else none
    | none => none
  | _ => none

/-- Execute the schedules of calls, one after the other. -/
def serveAll (w : World (switch E)) : List (List (Label (switch E))) →
    Option (List (Served E) × World (switch E))
  | [] => some ([], w)
  | ls :: calls =>
    match serve w ls with
    | none => none
    | some o =>
      match serveAll o.after calls with
      | none => none
      | some (ops, w') => some (o :: ops, w')

theorem sequential_of_serveAll {ops ops' : List (Served E)} {w w' : World (switch E)}
    {calls : List (List (Label (switch E)))} (h : Sequential E tl dl ops w)
    (hserve : serveAll w calls = some (ops', w')) : Sequential E tl dl (ops ++ ops') w' := by
  induction calls generalizing w ops ops' with
  | nil =>
    obtain ⟨rfl, rfl⟩ := Prod.mk.inj (Option.some.inj hserve)
    rwa [List.append_nil]
  | cons ls calls ih =>
    simp only [serveAll] at hserve
    split at hserve
    · exact absurd hserve (by simp)
    · rename_i o ho
      split at hserve
      · exact absurd hserve (by simp)
      · rename_i ops₁ w₁ hrest
        obtain ⟨rfl, rfl⟩ := Prod.mk.inj (Option.some.inj hserve)
        rw [List.append_cons]
        refine ih ?_ hrest
        unfold serve at ho
        split at ho
        · rename_i cid call acts w₂ hexec
          split at ho
          · rename_i outcome hresult
            obtain ⟨halone, ho⟩ := Option.ite_none_right_eq_some.mp ho
            obtain rfl := Option.some.inj ho
            exact .snoc h (World.run_of_exec hexec) halone hresult
          · exact absurd ho (by simp)
        · exact absurd ho (by simp)

/-- An answer of the SPI is the one of the simulator. -/
def simulatedEv (format : Time → GoString) : Ev (switch E) → Bool
  | .act _ ⟨.submit t, i, r⟩ => r = simulatorSubmit E.digest format t i.now
  | _ => true

theorem simulated_of_all {format : Time → GoString} {tr : Trace (switch E)}
    (h : tr.all (simulatedEv format) = true) : Simulated format tr := by
  intro cid t i r ha
  exact of_decide_eq_true (List.all_eq_true.mp h _ ha)

/-! ## A payment, with and without a review -/

/-- The digests of the sample request, of the identifiers that the simulator
gives the sample transfer, and of the callback with these identifiers. -/
def datedTable : List (GoString × GoString) :=
  sampleTable ++
    [(sampleID ++ go ":acct-1:maria@example.com",
      [0x68, 0xb4, 0x99, 0x90, 0x95, 0x12, 0x86, 0x89, 0xb3, 0x5a, 0x1a, 0xf4, 0x5a, 0xb9, 0x30,
        0x3c, 0xac, 0x01, 0xc9, 0xd6, 0x75, 0xb5, 0xcc, 0x93, 0x3c, 0x71, 0x6d, 0xd3, 0x26, 0xdf,
        0x5e, 0x08]),
    (join (SettlementCallback.fingerprintParts
        { sampleCallback with spiMessageID := go "spi_68b4999095128689" }) [0],
      [0x33, 0x80, 0x5d, 0xcc, 0x42, 0x86, 0xd9, 0x8c, 0xf7, 0x84, 0x75, 0xab, 0xc3, 0x86, 0x30,
        0xe3, 0xf0, 0x02, 0xfc, 0x0b, 0x90, 0x70, 0x37, 0x16, 0xd9, 0x56, 0x4a, 0x65, 0x0b, 0xaf,
        0xb2, 0x99])]

theorem datedTable_length : ∀ p ∈ datedTable, p.2.length = 32 := by
  decide +kernel

def datedEnv : Env := tableEnv datedTable datedTable_length

/-- `Time.Format` at the first second of the year. -/
def newYearFormat (_ : Time) : GoString := go "20260101000000"

/-- The answer of the simulator for the sample transfer. -/
def datedMessage : SPIMessage where
  messageID := go "spi_68b4999095128689"
  endToEndID := go "E2026010100000068b4999095128689"
  transferID := sampleID
  submittedAt := newYear

/-- `CreateTransfer` of the sample payment under a fraud decision, which
appends `events` records. -/
def createCall (fraud : FraudDecision) (events : Nat) : List (Label (switch datedEnv)) :=
  decideLabels 0 newYear sampleRequest sampleDict fraud ++ buildLabels 0 newYear 1 events ++
    [.step 0 (tick newYear)]

/-- `SubmitToSPI` of the sample transfer, `n` seconds into the year. -/
def submitCall (cid : Nat) (n : Int) : List (Label (switch datedEnv)) :=
  claimLabels cid (newYear + n * second) 7 (go "tenant-a") sampleID ++
    recordLabels cid (newYear + n * second) 8 datedMessage

/-- `RecordReview` that approves the sample transfer, `n` seconds into the
year. -/
def approveCall (cid : Nat) (n : Int) : List (Label (switch datedEnv)) :=
  [.spawn cid (.recordReview
      { tenantID := go "tenant-a", transferID := sampleID, decision := .approve }),
    .step cid (tick (newYear + n * second)), .step cid (tick (newYear + n * second)),
    .step cid (draw (newYear + n * second) 20), .step cid (draw (newYear + n * second) 21),
    .step cid (tick (newYear + n * second))]

/-- A payment that is accepted, submitted and settled. -/
def straightCalls : List (List (Label (switch datedEnv))) :=
  [createCall sampleFraud 5, submitCall 1 1,
    settleLabels 2 (newYear + 2 * second) 10
      { sampleCallback with spiMessageID := go "spi_68b4999095128689" }]

/-- A payment that is held for review, approved and submitted. -/
def heldCalls : List (List (Label (switch datedEnv))) :=
  [createCall { sampleFraud with status := .review } 4, approveCall 1 1, submitCall 2 2]

set_option maxRecDepth 20000 in
theorem straight_isSome :
    (serveAll (World.init (State.initial datedEnv none none)) straightCalls).isSome := by
  decide +kernel

/-- The calls of the accepted payment and the world after them. -/
def straight : List (Served datedEnv) × World (switch datedEnv) :=
  (serveAll _ straightCalls).get straight_isSome

theorem straight_sequential : Sequential datedEnv none none straight.1 straight.2 :=
  sequential_of_serveAll .nil (Option.some_get straight_isSome).symm

set_option maxRecDepth 20000 in
theorem straight_dated :
    Steady (traceOf straight.1) ∧ (traceOf straight.1).all (simulatedEv newYearFormat) = true ∧
      ∀ o ∈ straight.1, o.SubmitsUntouched := by
  decide +kernel

/-- A payment that is submitted as it was created and then settled. -/
theorem time_forward_straight :
    (∀ o ∈ straight.1, o.Forward) ∧
      auditTimes straight.2.state.store sampleID = [newYear, newYear, newYear + 2 * second] :=
  ⟨(time_forward_iff straight_sequential straight_dated.1
    (simulated_of_all straight_dated.2.1)).mpr straight_dated.2.2, by decide +kernel⟩

set_option maxRecDepth 20000 in
theorem held_isSome :
    (serveAll (World.init (State.initial datedEnv none none)) heldCalls).isSome := by
  decide +kernel

/-- The calls of the held payment and the world after them. -/
def held : List (Served datedEnv) × World (switch datedEnv) :=
  (serveAll _ heldCalls).get held_isSome

theorem held_sequential : Sequential datedEnv none none held.1 held.2 :=
  sequential_of_serveAll .nil (Option.some_get held_isSome).symm

set_option maxRecDepth 20000 in
theorem held_dated :
    Steady (traceOf held.1) ∧ (traceOf held.1).all (simulatedEv newYearFormat) = true ∧
      ¬ ∀ o ∈ held.1, o.SubmitsUntouched := by
  decide +kernel

/-- The submission of the held payment takes `UpdatedAt` back to the creation
of the transfer, and its audit record is dated before that of the review. -/
theorem held_time_goes_back :
    Sequential datedEnv none none held.1 held.2 ∧ Steady (traceOf held.1) ∧
      Simulated newYearFormat (traceOf held.1) ∧
      (held.1.map fun o => (o.after.state.store.transfers.lookup sampleID).map fun t =>
        (t.status, t.updatedAt)) =
        [some (.review, newYear), some (.accepted, newYear + second), some (.approved, newYear)] ∧
      auditTimes held.2.state.store sampleID = [newYear, newYear + second, newYear] ∧
      ¬ ∀ o ∈ held.1, o.Forward := by
  have hsim : Simulated newYearFormat (traceOf held.1) := simulated_of_all held_dated.2.1
  refine ⟨held_sequential, held_dated.1, hsim, ?_⟩
  rw [← and_assoc]
  refine ⟨by decide +kernel, fun hforward => ?_⟩
  exact held_dated.2.2 (sequential_untouched held_sequential hsim hforward)

end PixRail.Lifecycle
