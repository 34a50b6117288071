import PixRail.Api.Sample
import PixRail.Api.Served
import PixRail.Lifecycle.Sound

/-!
# Roles

Which key can do what, over whole runs of the server.  Every change of a
status is an arrow of the life of a transfer, and each arrow belongs to one
role: a tenant creates, a risk analyst reviews, a worker submits, and a
provider settles (`Licence`).  `status_changes_licensed`: a status changes
only for a key with that role and of the tenant of the transfer, or, for a
submission, in a batch of the worker.
-/

namespace PixRail.Api

open Go Config Rail Events Store Interleave Switcher

/-! ## Keys -/

/-- The keys of the configuration have clean tenants. -/
theorem parsed_clean {raw : GoString} {keys : GoMap GoString APIKey}
    (h : parseAPIKeys raw = .ok keys) {secret : GoString} {key : APIKey}
    (hl : keys.lookup secret = some key) : Clean key.tenantID := by
  obtain ⟨pair, hpair, hentry, -⟩ := (lookup_parsed h).mp hl
  obtain ⟨roles, hpiece, htenant, hne, -, -⟩ := parseEntry_eq_ok.mp hentry
  exact (hpiece.clean (comma_notMem_pieces hpair) htenant hne).1

/-- The call of an admitted request acts for the tenant of its key. -/
theorem Makes.tenant_eq {srv : Server} {L : ServerLib} {r : HttpRequest} {tn : GoString}
    {e : Endpoint} {c : Call} (h : Makes srv L r tn e c) (hclean : Clean tn) :
    c.tenant = some tn := by
  have htrim := trimSpace_eq_self hclean.trimmed
  rcases h.tenant with ht | ht
  · exact ht
  · rwa [htrim] at ht

/-- What comes in makes a call for a key, or for no tenant. -/
theorem Calls.cases {srv : Server} {L : ServerLib} {d : Incoming} {c : Call}
    (h : Calls srv L d c) :
    (∃ r e key, d = .request r ∧ Admitted srv r e key ∧ Makes srv L r key.tenantID e c) ∨
      (∃ limit, d = .submitPendingSPI limit ∧ c = .submitPendingSPI limit) ∨
      ∃ policy limit, d = .drain policy limit ∧ c = .drain policy limit := by
  cases d with
  | request r =>
    obtain ⟨e, key, hadm, hmakes⟩ := h
    exact .inl ⟨r, e, key, rfl, hadm, hmakes⟩
  | submitPendingSPI limit => exact .inr (.inl ⟨limit, rfl, h⟩)
  | drain policy limit => exact .inr (.inr ⟨policy, limit, rfl, h⟩)

/-! ## Arrows and roles -/

/-- The role that an arrow of the life of a transfer belongs to. -/
inductive Licence : Option TransferStatus → TransferStatus → APIKeyRole → Prop where
  | create {st : TransferStatus} (h : st = .accepted ∨ st = .review ∨ st = .blocked) :
      Licence none st roleTenant
  | review {st : TransferStatus} (h : st = .accepted ∨ st = .blocked) :
      Licence (some .review) st roleRisk
  | submit : Licence (some .accepted) .approved roleWorker
  | settle {st : TransferStatus} (h : st = .settled ∨ st = .rejected) :
      Licence (some .approved) st roleProvider

/-- The status under an id. -/
def statusAt (s : MemoryStore) (id : GoString) : Option TransferStatus :=
  (s.transfers.lookup id).map (·.status)

/-- The calls behind an arrow. -/
def CallFor (role : APIKeyRole) : Call → Prop
  | .createTransfer _ => role = roleTenant
  | .recordReview _ => role = roleRisk
  | .submitToSPI _ _ _ => role = roleWorker
  | .submitPendingSPI _ => role = roleWorker
  | .recordSettlement _ => role = roleProvider
  | _ => False

section switch

variable {E : Env} {tl dl : Option E.Lim} {tr : Trace (switch E)} {w w' : World (switch E)}
  {cid : Nat}

/-- Only a call that submits has claimed. -/
theorem submits_of_claim (h : Runs E tl dl tr w) {c : Call} (hc : spawnEv cid c ∈ tr)
    {tn id tok : GoString} {u : Time} {current : Transfer}
    (hclaim : Did (hist cid tr) (.store (.claimSPISubmission tn id tok u)) (.ok (current, false))) :
    c.Submits := by
  obtain ⟨h₀, hallow⟩ := allows_of_did h hc hclaim
  cases hallow with
  | claim hsub hfor hh => exact hsub

theorem Submits.callFor {c : Call} (h : c.Submits) : CallFor roleWorker c := by
  cases c with
  | submitToSPI tn id cor | submitPendingSPI limit => exact rfl
  | _ => exact h.elim

/-- A move that changes the status is an arrow, made by a call of its role
that acts for the tenant. -/
theorem moves_licensed (h : Runs E tl dl tr w) {c : Call} (hc : spawnEv cid c ∈ tr) {i : Input}
    {call : StoreCall} (hallow : Allows E.toLib c (hist cid tr) (.store call)) {t t' : Transfer}
    (hm : Moves i call t t') (hchange : t'.status ≠ t.status) :
    ∃ role, Licence (some t.status) t'.status role ∧ CallFor role c ∧ c.ActsFor t.tenantID := by
  cases hm with
  | claim hcl =>
    obtain ⟨-, -, -, -, rfl⟩ := Transfer.claimSPISubmission_eq_ok.mp hcl
    exact absurd rfl hchange
  | release happ hrel =>
    obtain ⟨-, -, rfl⟩ := (Transfer.releaseSPISubmission_eq_ok happ).mp hrel
    exact absurd rfl hchange
  | record hrec =>
    obtain ⟨hst, -, -, -, -, rfl⟩ := Transfer.recordSPISubmission_eq_ok.mp hrec
    cases hallow with
    | record hfor hclaim hsubmit hevs =>
      rw [hst]
      exact ⟨roleWorker, .submit, Submits.callFor (submits_of_claim h hc hclaim), hfor⟩
  | review hrev =>
    obtain ⟨hst, -, rfl⟩ := Transfer.recordReviewDecision_eq_ok.mp hrev
    cases hallow with
    | review hcall htn hget hreview hstatus hevs =>
      subst hcall
      rw [hst]
      refine ⟨roleRisk, .review hstatus, rfl, ?_⟩
      rw [htn]
      exact Call.actsFor_tenant rfl
  | settle hset =>
    obtain ⟨-, -, hst, st, hst', rfl⟩ := Transfer.recordSettlement_eq_ok.mp hset
    cases hallow with
    | settle hcall htn hid hne hget hspi hty hevs =>
      subst hcall
      rw [hst]
      refine ⟨roleProvider, .settle (Lifecycle.settles_cases hst'), rfl, ?_⟩
      rw [htn]
      exact Call.actsFor_tenant rfl

/-- A step that changes a status is an arrow, made by a call of its role that
acts for the tenant. -/
theorem step_licensed (h : Runs E tl dl tr w) {e : Ev (switch E)} (hstep : Step w e w')
    {id : GoString} (hchange : statusAt w'.state.store id ≠ statusAt w.state.store id) :
    ∃ cid a c t role, e = .act cid a ∧ spawnEv cid c ∈ tr ∧
      w'.state.store.transfers.lookup id = some t ∧
      Licence (statusAt w.state.store id) t.status role ∧ CallFor role c ∧
      c.ActsFor t.tenantID := by
  have hstep₀ := hstep
  cases hstep with
  | spawn c hfree => exact absurd rfl hchange
  | @act cid c o k i r s' hthread hhandle =>
    rcases handle_store hhandle with ⟨-, he⟩ | ⟨call, r', ha, hcall⟩
    · exact absurd (by rw [World.put_state, he]) hchange
    rcases storeHandle_cases hcall with ⟨he, -⟩ | hs
    · exact absurd (by rw [World.put_state, he]) hchange
    obtain ⟨c', hc', hallow⟩ := (contract E tl dl).allows_of_step h hstep₀
    rw [ha] at hallow
    rw [World.put_state] at hchange
    have hk := runs_keyed h
    refine ⟨cid, ⟨o, i, r⟩, c', ?_⟩
    cases hl : s'.store.transfers.lookup id with
    | none =>
      -- nothing is ever removed, so there was nothing
      cases hl₀ : w.state.store.transfers.lookup id with
      | none =>
        rw [statusAt, statusAt, hl, hl₀] at hchange
        exact absurd rfl hchange
      | some t₀ =>
        obtain ⟨t, ht, -⟩ := hs.lookup_mono hk hl₀
        rw [hl] at ht
        cases ht
    | some t =>
      rw [statusAt, hl, Option.map_some] at hchange
      rcases hs.lookup_inv hk hl with hsame | ⟨hnone, evs, auds, rfl⟩ | ⟨t₀, hl₀, hm⟩
      · rw [statusAt, hsame] at hchange
        exact absurd rfl hchange
      · cases hallow with
        | insert hcreate hvalid hstatus hfirst hid hfind ht hevs =>
          subst hcreate ht
          refine ⟨_, roleTenant, rfl, hc', hl, ?_, rfl, Call.actsFor_tenant rfl⟩
          rw [statusAt, hnone]
          exact .create hstatus
      · rw [statusAt, hl₀] at hchange
        have hne : t.status ≠ t₀.status := fun he => hchange (by rw [he]; rfl)
        obtain ⟨role, hlic, hfor, hacts⟩ := moves_licensed h hc' hallow hm hne
        refine ⟨t, role, rfl, hc', hl, ?_, hfor, ?_⟩
        · rw [statusAt, hl₀]
          exact hlic
        · rwa [hm.sameOrder.tenantID]

end switch

/-! ## Runs of the server -/

/-- A call of a role is made by a key with the role. -/
theorem Makes.hasRole {srv : Server} {L : ServerLib} {r : HttpRequest} {e : Endpoint}
    {key : APIKey} {c : Call} {role : APIKeyRole} (hadm : Admitted srv r e key)
    (h : Makes srv L r key.tenantID e c) (hfor : CallFor role c) : key.hasRole role = true := by
  obtain ⟨role', he, hrole⟩ := hadm.role
  cases h with
  | transfers cor at_ hpayload | spiSubmissions id cor | reviews id cor at_ hpayload
  | spiCallbacks id cor now at_ hcallback =>
    obtain rfl := Option.some.inj he
    obtain rfl := hfor
    exact hrole
  | transfer id => exact hfor.elim

section server

variable {E : Env} {srv : Server} {L : ServerLib} {tl dl : Option E.Lim} {t₀ : Time}
  {tr : Trace (server E srv L).system} {w w' : World (server E srv L).system}

/-- What the change of a status to that of `t` takes: a batch of the worker,
or a request with a key that has the role and is one of the tenant. -/
def Licensed (srv : Server) (role : APIKeyRole) (t : Transfer) (d : Incoming) : Prop :=
  (∃ limit, d = .submitPendingSPI limit ∧ role = roleWorker) ∨
    ∃ r key, d = .request r ∧ srv.keys.lookup r.token = some key ∧ key.hasRole role = true ∧
      key.tenantID = t.tenantID

/-- In every run of the server, a status changes along an arrow of the life of
a transfer, and only for a key that has the role of the arrow and belongs to
the tenant of the transfer, or in a batch of the worker. -/
theorem status_changes_licensed {raw : GoString} (hkeys : parseAPIKeys raw = .ok srv.keys)
    (h : ServerRuns E srv L tl dl t₀ tr w) {e : Ev (server E srv L).system} (hstep : Step w e w')
    (id : GoString)
    (hchange : statusAt w'.state.1.store id ≠ statusAt w.state.1.store id) :
    ∃ cid a d t role, e = .act cid a ∧ Ev.spawn cid d ∈ tr ∧
      w'.state.1.store.transfers.lookup id = some t ∧
      Licence (statusAt w.state.1.store id) t.status role ∧ Licensed srv role t d := by
  obtain ⟨v, hb⟩ := exists_below h
  obtain ⟨v', hb', hcases⟩ := hb.step h hstep
  rw [← hb.state, ← hb'.state] at hchange
  rw [← hb.state, ← hb'.state]
  rcases hcases with ⟨-, rfl⟩ | ⟨e', he, hstep'⟩
  · exact absurd rfl hchange
  obtain ⟨cid, a, c, t, role, rfl, hc, hl, hlic, hfor, hacts⟩ := step_licensed hb.run hstep' hchange
  obtain ⟨d, hd, hcalls⟩ := caller h hb hc
  obtain ⟨a', rfl⟩ := Layer.innerEv_act he
  refine ⟨cid, a', d, t, role, rfl, hd, hl, hlic, ?_⟩
  rcases hcalls.cases with ⟨r, e, key, rfl, hadm, hmakes⟩ | ⟨limit, rfl, rfl⟩ |
    ⟨policy, limit, rfl, rfl⟩
  · have htenant := hmakes.tenant_eq (parsed_clean hkeys hadm.lookup)
    exact .inr ⟨r, key, rfl, hadm.lookup, hmakes.hasRole hadm hfor, (hacts _ htenant).symm⟩
  · exact .inl ⟨limit, rfl, hfor⟩
  · exact hfor.elim

end server

/-- The sample request up to its insert. -/
def orderedLabels : List ServerLabel :=
  .spawn 0 (.request createRequest) :: localSteps 0 2 ++ postLabels.dropLast.map below

set_option maxRecDepth 20000 in
theorem ordered_isSome : (sampleStart.exec orderedLabels).isSome := by
  decide +kernel

/-- The trace and the world before the insert. -/
def ordered : Trace sampleLayer.system × World sampleLayer.system :=
  World.ran _ orderedLabels ordered_isSome

theorem ordered_runs :
    ServerRuns sampleEnv httpServer httpLib none none newYear ordered.1 ordered.2 :=
  World.run_ran _ _ _

set_option maxRecDepth 20000 in
theorem ordered_inserts : (ordered.2.next (.step 0 (.inl (tick newYear)))).any (fun p =>
    statusAt p.2.state.1.store sampleID ≠ statusAt ordered.2.state.1.store sampleID) = true := by
  decide +kernel

/-- The insert of the sample request is for the key of the tenant. -/
theorem status_changes_licensed_ordered :
    ∃ e w', Step ordered.2 e w' ∧ ∃ cid a d t role, e = .act cid a ∧
      Ev.spawn cid d ∈ ordered.1 ∧ w'.state.1.store.transfers.lookup sampleID = some t ∧
      Licence (statusAt ordered.2.state.1.store sampleID) t.status role ∧
      Licensed httpServer role t d := by
  have hchange := ordered_inserts
  cases hnext : ordered.2.next (.step 0 (.inl (tick newYear))) with
  | none =>
    rw [hnext] at hchange
    cases hchange
  | some p =>
    rw [hnext] at hchange
    have hstep := World.step_of_next hnext
    exact ⟨p.1, p.2, hstep, status_changes_licensed sampleKeys_parsed ordered_runs hstep sampleID
      (of_decide_eq_true hchange)⟩

end PixRail.Api
