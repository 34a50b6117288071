import PixRail.Switcher.Runs

/-!
# What a call has gone through

A second contract of the calls, beside the one of `Contract`.

* `Rests` says what lies behind an operation: the limiters that a DICT lookup
  has passed, the lookup and the score behind an insert, the claim behind a
  submission, the decision behind a review.
* `Yields` says what lies behind a result: the store call that gave the
  transfer, the writes of the call, of which there is one at most, and the
  source of an error (`Blame`).
-/

namespace PixRail.Switcher

open Go Rail Events Store Interleave Messaging

/-! ## Requests -/

/-- The key of a request in the limiter of the accounts. -/
def accountKey (req : CreateTransferRequest) : GoString :=
  scopedKey (trimSpace req.tenantID) (trimSpace req.accountID)

/-- The key of a request in the limiter of the lookups. -/
def lookupKey (req : CreateTransferRequest) : GoString :=
  scopedKey (trimSpace req.tenantID) (trimSpace req.receiverKey)

/-- The DICT lookup of a request. -/
def lookupOf (req : CreateTransferRequest) : Op :=
  .resolve (trimSpace req.tenantID) (trimSpace req.receiverKey) req.receiverKeyType

/-- The status that a review leads to, `none` for an unsupported decision. -/
def reviewStatus : ReviewDecision → Option TransferStatus
  | .approve => some .accepted
  | .block => some .blocked
  | .other _ _ => none

/-! ## Answers -/

/-- The kinds of error that `rail` declares, in the order in which the API
asks for them. -/
def railKinds : List ErrKind :=
  [.validation, .unauthorized, .rateLimited, .notFound, .conflict, .dependencyFailed]

/-- The error wraps one of the errors of `rail`. -/
def Known (e : Err) : Prop := ∃ k ∈ railKinds, e.is k

theorem known_err {k : ErrKind} (h : k ∈ railKinds) : Known k.err := ⟨k, h, by simp⟩

theorem known_wrap {k : ErrKind} (h : k ∈ railKinds) (detail : GoString) :
    Known (k.wrap detail) :=
  ⟨k, h, by simp⟩

/-- The transfer in an answer of the store.  An insert gives back its own. -/
def givenBy : (c : StoreCall) → c.Ret → Option Transfer
  | .findByIdempotency _ _, .ok found => found
  | .insertTransfer t _ _, .ok () => some t
  | .getTransfer _ _, .ok t => some t
  | .claimSPISubmission _ _ _ _, .ok (t, _) => some t
  | .recordSPISubmission _ _ _ _ _ _, .ok (t, _) => some t
  | .recordReviewDecision _ _ _ _ _ _, .ok t => some t
  | .updateSettlement _ _ _ _ _, .ok (t, _) => some t
  | _, _ => none

/-- The error is one of `rail`, or the error of the context. -/
def Expected (i : Input) (e : Err) : Prop := Known e ∨ ∃ err, i.ctx = some err ∧ e = err.err

/-- What a call may rely on for the errors of the store.  The answer of a
release is dropped, and the marks belong to the relay. -/
def Assures : (o : Op) → Input → o.Ret → Prop
  | .store (.findByIdempotency _ _), i, .error e => Expected i e
  | .store (.insertTransfer _ _ _), i, .error e => Expected i e
  | .store (.getTransfer _ _), i, .error e => Expected i e
  | .store (.claimSPISubmission _ _ _ _), i, .error e => Expected i e
  | .store (.recordSPISubmission _ _ _ _ _ _), i, .error e => Expected i e
  | .store (.recordReviewDecision _ _ _ _ _ _), i, .error e => Expected i e
  | .store (.updateSettlement _ _ _ _ _), i, .error e => Expected i e
  | _, _, _ => True

section store

variable {H : Digest} {s s' : MemoryStore} {i : Input} {t : Transfer} {e : Err}

theorem claimSPISubmission_known {tok : GoString} {u now : Time}
    (h : t.claimSPISubmission tok u now = .error e) : Known e := by
  unfold Transfer.claimSPISubmission at h
  split_ifs at h
  · cases h
    exact known_wrap (by decide) _
  · cases h
    exact known_wrap (by decide) _
  · cases h
    exact known_wrap (by decide) _

theorem recordSPISubmission_known {tok : GoString} {m : SPIMessage}
    (h : t.recordSPISubmission tok m = .error e) : Known e := by
  unfold Transfer.recordSPISubmission at h
  split_ifs at h
  · cases h
    exact known_wrap (by decide) _
  · cases h
    exact known_wrap (by decide) _
  · cases h
    exact known_wrap (by decide) _

theorem recordReviewDecision_known {st : TransferStatus} {reason : GoString} {at_ : Time}
    (h : t.recordReviewDecision st reason at_ = .error e) : Known e := by
  unfold Transfer.recordReviewDecision at h
  split_ifs at h
  · cases h
    exact known_wrap (by decide) _
  · cases h
    exact known_wrap (by decide) _

theorem recordSettlement_known {cb : SettlementCallback}
    (h : t.recordSettlement cb = .error e) : Known e := by
  unfold Transfer.recordSettlement at h
  split_ifs at h
  · cases h
    exact known_wrap (by decide) _
  · cases h
    exact known_wrap (by decide) _
  · cases h
    exact known_wrap (by decide) _
  · split at h
    · cases h
      exact known_wrap (by decide) _
    · cases h

private theorem answer_eq {α β : Type} {x : α × β} {a : α} {b : β} (h : some x = some (a, b)) :
    a = x.1 := by
  cases h
  rfl

theorem storeHandle_assures {c : StoreCall} {r : c.Ret}
    (h : storeHandle H c i s = some (r, s')) : Assures (.store c) i r := by
  cases c with
  | findByIdempotency tn key =>
    obtain ⟨rfl, -⟩ := Prod.mk.inj (Option.some.inj h)
    unfold MemoryStore.findByIdempotency
    split
    · exact .inr ⟨_, ‹_›, rfl⟩
    · split <;> trivial
  | insertTransfer t evs auds =>
    rw [answer_eq (x := s.insertTransfer t evs auds) h]
    unfold MemoryStore.insertTransfer
    split_ifs
    · exact .inl (known_wrap (by decide) _)
    · exact .inl (known_wrap (by decide) _)
    · trivial
  | getTransfer tn id =>
    obtain ⟨rfl, -⟩ := Prod.mk.inj (Option.some.inj h)
    unfold MemoryStore.getTransfer
    split
    · exact .inl (known_err (by decide))
    · trivial
  | claimSPISubmission tn id tok u =>
    rw [answer_eq (x := s.claimSPISubmission i.ctx i.now tn id tok u) h]
    unfold MemoryStore.claimSPISubmission
    split
    · exact .inr ⟨_, ‹_›, rfl⟩
    · split
      · exact .inl (known_err (by decide))
      · split
        · trivial
        · split
          · exact .inl (claimSPISubmission_known ‹_›)
          · trivial
  | recordSPISubmission tn id tok m evs aud =>
    rw [answer_eq (x := s.recordSPISubmission i.ctx tn id tok m evs aud) h]
    unfold MemoryStore.recordSPISubmission
    split
    · exact .inr ⟨_, ‹_›, rfl⟩
    · split
      · exact .inl (known_err (by decide))
      · split
        · trivial
        · split
          · exact .inl (recordSPISubmission_known ‹_›)
          · trivial
  | recordReviewDecision tn id st reason evs aud =>
    rw [answer_eq (x := s.recordReviewDecision tn id st reason evs aud) h]
    unfold MemoryStore.recordReviewDecision
    split
    · exact .inl (known_err (by decide))
    · split
      · exact .inl (recordReviewDecision_known ‹_›)
      · trivial
  | updateSettlement tn id cb evs aud =>
    rw [answer_eq (x := s.updateSettlement H tn id cb evs aud) h]
    unfold MemoryStore.updateSettlement
    split
    · exact .inl (known_err (by decide))
    · split
      · split
        · trivial
        · exact .inl (known_wrap (by decide) _)
      · split
        · exact .inl (recordSettlement_known ‹_›)
        · trivial
  | _ => trivial

theorem owned_stored (hk : s.Keyed) {tn id : GoString} (h : s.owned tn id = some t) :
    s.transfers.lookup t.id = some t := by
  obtain ⟨hl, -⟩ := MemoryStore.owned_eq_some.mp h
  rwa [hk _ _ hl]

/-- The tenant and the transfer that a store call asks for. -/
def askedFor : StoreCall → Option (GoString × GoString)
  | .getTransfer tn id => some (tn, id)
  | .claimSPISubmission tn id _ _ => some (tn, id)
  | .recordSPISubmission tn id _ _ _ _ => some (tn, id)
  | .releaseSPISubmission tn id _ _ _ => some (tn, id)
  | .recordReviewDecision tn id _ _ _ _ => some (tn, id)
  | .updateSettlement tn id _ _ _ => some (tn, id)
  | _ => none

/-- A transfer in an answer that changed nothing is the one asked for, or one
found under an idempotency key. -/
theorem idle_given {c : StoreCall} {r : c.Ret} (h : storeHandle H c i s = some (r, s'))
    (hidle : Idle c r) (hg : givenBy c r = some t) :
    (∃ tn id, askedFor c = some (tn, id) ∧ s.owned tn id = some t) ∨
      ∃ tn key id, c = .findByIdempotency tn key ∧ s.transfers.lookup id = some t := by
  cases c with
  | findByIdempotency tn key =>
    have hr : r = s.findByIdempotency i.ctx tn key := answer_eq h
    unfold MemoryStore.findByIdempotency at hr
    split at hr
    · subst hr
      cases hg
    · split at hr
      · subst hr
        cases hg
      · subst hr
        exact .inr ⟨tn, key, _, rfl, hg⟩
  | insertTransfer t' evs auds =>
    obtain ⟨e, rfl, -⟩ := hidle
    cases hg
  | getTransfer tn id =>
    have hr : r = s.getTransfer tn id := answer_eq h
    unfold MemoryStore.getTransfer at hr
    split at hr
    · subst hr
      cases hg
    · subst hr
      cases hg
      exact .inl ⟨tn, id, rfl, ‹_›⟩
  | claimSPISubmission tn id tok u =>
    have hr : r = (s.claimSPISubmission i.ctx i.now tn id tok u).1 := answer_eq h
    unfold MemoryStore.claimSPISubmission at hr
    split at hr
    · subst hr
      cases hg
    · split at hr
      · subst hr
        cases hg
      · split at hr
        · subst hr
          cases hg
          exact .inl ⟨tn, id, rfl, ‹_›⟩
        · split at hr
          · subst hr
            cases hg
          · exact absurd hr (hidle _)
  | recordSPISubmission tn id tok m evs aud =>
    have hr : r = (s.recordSPISubmission i.ctx tn id tok m evs aud).1 := answer_eq h
    unfold MemoryStore.recordSPISubmission at hr
    split at hr
    · subst hr
      cases hg
    · split at hr
      · subst hr
        cases hg
      · split at hr
        · subst hr
          cases hg
          exact .inl ⟨tn, id, rfl, ‹_›⟩
        · split at hr
          · subst hr
            cases hg
          · exact absurd hr (hidle _)
  | recordReviewDecision tn id st reason evs aud =>
    cases r with
    | error e => cases hg
    | ok t' => exact absurd rfl (hidle t')
  | updateSettlement tn id cb evs aud =>
    have hr : r = (s.updateSettlement H tn id cb evs aud).1 := answer_eq h
    unfold MemoryStore.updateSettlement at hr
    split at hr
    · subst hr
      cases hg
    · split at hr
      · split at hr
        · subst hr
          cases hg
          exact .inl ⟨tn, id, rfl, ‹_›⟩
        · subst hr
          cases hg
      · split at hr
        · subst hr
          cases hg
        · exact absurd hr (hidle _)
  | _ => cases hg

theorem storeStep_given {c : StoreCall} {r : c.Ret} (hs : StoreStep H s i c r s')
    (hg : givenBy c r = some t) : s'.transfers.lookup t.id = some t := by
  cases hs with
  | inserted _ _ | claimed _ _ _ | recorded _ _ _ | reviewed _ _ | settled _ _ _ =>
    cases hg
    simp
  | _ => cases hg

/-- A transfer in an answer is stored when the call is over. -/
theorem storeHandle_given (hk : s.Keyed) {c : StoreCall} {r : c.Ret}
    (h : storeHandle H c i s = some (r, s')) (hg : givenBy c r = some t) :
    s'.transfers.lookup t.id = some t := by
  rcases storeHandle_cases h with ⟨rfl, hidle⟩ | hs
  · rcases idle_given h hidle hg with ⟨tn, id, -, howned⟩ | ⟨tn, key, id, -, hl⟩
    · exact owned_stored hk howned
    · rwa [hk _ _ hl]
  · exact storeStep_given hs hg

/-- A transfer in an answer belongs to the tenant that the call asks for. -/
theorem storeHandle_tenant {c : StoreCall} {r : c.Ret} (h : storeHandle H c i s = some (r, s'))
    (hg : givenBy c r = some t) {tn id : GoString} (hasked : askedFor c = some (tn, id)) :
    t.tenantID = tn := by
  rcases storeHandle_cases h with ⟨rfl, hidle⟩ | hs
  · rcases idle_given h hidle hg with ⟨tn', id', hasked', howned⟩ | ⟨tn', key, id', rfl, -⟩
    · obtain ⟨rfl, -⟩ := Prod.mk.inj (Option.some.inj (hasked.symm.trans hasked'))
      exact (MemoryStore.owned_eq_some.mp howned).2
    · cases hasked
  · cases hs with
    | inserted _ _ => cases hasked
    | claimed hctx hfind hclaim =>
      cases hg
      cases hasked
      obtain ⟨-, -, -, -, rfl⟩ := Transfer.claimSPISubmission_eq_ok.mp hclaim
      exact (MemoryStore.owned_eq_some.mp hfind).2
    | recorded hctx hfind hrecord =>
      cases hg
      cases hasked
      obtain ⟨-, -, -, -, -, rfl⟩ := Transfer.recordSPISubmission_eq_ok.mp hrecord
      exact (MemoryStore.owned_eq_some.mp hfind).2
    | reviewed hfind hreview =>
      cases hg
      cases hasked
      obtain ⟨-, -, rfl⟩ := Transfer.recordReviewDecision_eq_ok.mp hreview
      exact (MemoryStore.owned_eq_some.mp hfind).2
    | settled hfind hnew hsettle =>
      cases hg
      cases hasked
      obtain ⟨-, -, -, _, -, rfl⟩ := Transfer.recordSettlement_eq_ok.mp hsettle
      exact (MemoryStore.owned_eq_some.mp hfind).2
    | _ => cases hg

theorem handle_assures {E : Env} {o : Op} {i : Input} {s s' : State E} {r : o.Ret}
    (h : handle E o i s = some (r, s')) : Assures o i r := by
  cases o with
  | store c =>
    simp only [handle] at h
    split at h
    · rename_i r' store hstore
      obtain ⟨rfl, rfl⟩ := Prod.mk.inj (Option.some.inj h)
      exact storeHandle_assures hstore
    · exact absurd h (by simp)
  | _ => trivial

end store

/-! ## The contract -/

/-- The operations that need no ground. -/
def Routine : Op → Prop
  | .tenantAllow _ => False
  | .dictAllow _ => False
  | .resolve _ _ _ => False
  | .score _ _ => False
  | .submit _ => False
  | .store (.insertTransfer _ _ _) => False
  | .store (.recordReviewDecision _ _ _ _ _ _) => False
  | _ => True

/-- No DICT lookup was made in `h`. -/
def Unresolved (h : History) : Prop := ∀ tn key ty r, ¬ Did h (.resolve tn key ty) r

/-- What an operation of a call rests on, after its history `h`. -/
inductive Rests (L : Lib) (c : Call) (h : History) : Op → Prop where
  | routine {o : Op} (ho : Routine o) : Rests L c h o
  | tenantAllow {req : CreateTransferRequest} (hc : c = .createTransfer req) :
      Rests L c h (.tenantAllow (accountKey req))
  | dictAllow {req : CreateTransferRequest} (hc : c = .createTransfer req)
      (hallow : Did h (.tenantAllow (accountKey req)) true) :
      Rests L c h (.dictAllow (lookupKey req))
  | resolve {req : CreateTransferRequest} (hc : c = .createTransfer req)
      (hallow : Did h (.dictAllow (lookupKey req)) true) (hfirst : Unresolved h) :
      Rests L c h (lookupOf req)
  | score {req : CreateTransferRequest} {at_ : Time} {dict : DictEntry}
      (hc : c = .createTransfer req) (hdict : Did h (lookupOf req) (.ok dict)) :
      Rests L c h (.score (normalize req at_) dict)
  | insert {req : CreateTransferRequest} {at_ now : Time} {id : GoString} {dict : DictEntry}
      {decision : FraudDecision} {t : Transfer} {evs : List Event} {auds : List AuditRecord}
      (hc : c = .createTransfer req) (hdict : Did h (lookupOf req) (.ok dict))
      (hscore : Did h (.score (normalize req at_) dict) (.ok decision)) (hnow : Did h .now now)
      (ht : t = newTransfer id now (normalize req at_) (req.fingerprint L.digest) dict decision) :
      Rests L c h (.store (.insertTransfer t evs auds))
  | submit {tn id tok : GoString} {u : Time} {current : Transfer}
      (hclaim : Last h (.store (.claimSPISubmission tn id tok u)) (.ok (current, false))) :
      Rests L c h (.submit current)
  | review {req : ReviewDecisionRequest} {tn id reason : GoString} {status : TransferStatus}
      {evs : List Event} {aud : AuditRecord} (hc : c = .recordReview req)
      (htn : tn = trimSpace req.tenantID) (hid : id = trimSpace req.transferID)
      (hstatus : reviewStatus req.decision = some status) :
      Rests L c h (.store (.recordReviewDecision tn id status reason evs aud))

/-- The store call of an operation that wrote. -/
def wroteCalls : Action sig Input → List StoreCall
  | ⟨.store c, _, r⟩ => if c.wrote r then [c] else []
  | _ => []

/-- The operations of `h` made the writes `l`. -/
def Wrote (l : List StoreCall) (h : History) : Prop := h.flatMap wroteCalls = l

/-- Where an error of a call comes from. -/
inductive Blame (L : Lib) (h : History) (e : Err) : Prop where
  | rail (hk : Known e)
  | context {a : Action sig Input} (ha : a ∈ h) {err : CtxErr} (hctx : a.inp.ctx = some err)
      (he : e = err.err)
  | dict {tn key : GoString} {ty : DictKeyType} (hdict : Did h (.resolve tn key ty) (.error e))
      (hin : ¬ (e.is .deadlineExceeded ∨ e.is .canceled))
  | fraud {req : CreateTransferRequest} {dict : DictEntry}
      (hfraud : Did h (.score req dict) (.error e))
  | spi {t : Transfer} (hspi : Did h (.submit t) (.error e))
  | marshal (hm : ¬ L.Marshals)

/-- What lies behind a result: the last store call gave the transfer, and it
wrote exactly if the result is not a replay. -/
def Sourced (L : Lib) (h : History) : Except Err Result → Prop
  | .ok res => ∃ call r, Last h (.store call) r ∧ givenBy call r = some res.transfer ∧
      call.wrote r = !res.idempotentReplay
  | .error e => Blame L h e

/-- A result reports the events of the writes.  A replay and an error go with
no write, any other result with one. -/
def Reported (calls : List StoreCall) : Except Err Result → Prop
  | .ok res => calls.flatMap StoreCall.outbox = res.events ∧
      calls.length = if res.idempotentReplay then 0 else 1
  | .error _ => calls = []

/-- What holds of the result of a call that started after the writes `l`. -/
structure Yields (L : Lib) (l : List StoreCall) (h : History) (r : Except Err Result) : Prop where
  source : Sourced L h r
  writes : ∃ calls, Wrote (l ++ calls) h ∧ Reported calls r

/-! ## Rules -/

/-- The program `p` of the call `c` keeps the contract after the history `h`,
and returns only what `Q` allows. -/
abbrev Goes (L : Lib) (c : Call) {α : Type} (Q : History → α → Prop) (h : History)
    (p : Code α) : Prop :=
  Prog.Obeys Assures (Rests L c) Q h p

variable {L : Lib} {c : Call} {h : History} {l : List StoreCall}

section rules

variable {α : Type} {Q : History → α → Prop}

theorem goes_perform {o : Op} {f : o.Ret → Code α} (ha : Rests L c h o)
    (hf : ∀ i r, Assures o i r → Goes L c Q (h ++ [⟨o, i, r⟩]) (f r)) :
    Goes L c Q h (perform o >>= f) :=
  ⟨ha, hf⟩

theorem goes_storeCall {s : StoreCall} {f : s.Ret → Code α} (ha : Rests L c h (.store s))
    (hf : ∀ i r, Assures (.store s) i r → Goes L c Q (h ++ [⟨.store s, i, r⟩]) (f r)) :
    Goes L c Q h (storeCall s >>= f) :=
  ⟨ha, hf⟩

end rules

theorem wrote_nil : Wrote [] [] := rfl

theorem Wrote.snoc (hw : Wrote l h) {a : Action sig Input} (ha : wroteCalls a = []) :
    Wrote l (h ++ [a]) := by
  rw [Wrote, List.flatMap_append, hw]
  simp [ha]

theorem Unresolved.snoc (hu : Unresolved h) {a : Action sig Input}
    (ha : ∀ tn key ty, a.op ≠ .resolve tn key ty) : Unresolved (h ++ [a]) := by
  intro tn key ty r ⟨i, hi⟩
  rcases List.mem_append.mp hi with hi | hi
  · exact hu tn key ty r ⟨i, hi⟩
  · rw [List.mem_singleton] at hi
    subst hi
    exact ha tn key ty rfl

/-- An error that nothing was written for. -/
theorem Yields.error {e : Err} (hw : Wrote l h) (hb : Blame L h e) : Yields L l h (.error e) :=
  ⟨hb, [], by rwa [List.append_nil], rfl⟩

section results

variable {s : StoreCall} {i : Input} {r : s.Ret} {res : Result}

/-- The result of a write. -/
theorem Yields.wrote (hw : Wrote l h) (hg : givenBy s r = some res.transfer)
    (hs : s.wrote r = true) (hev : s.outbox = res.events) (hnew : res.idempotentReplay = false) :
    Yields L l (h ++ [⟨.store s, i, r⟩]) (.ok res) := by
  refine ⟨⟨s, r, last_snoc, hg, by rw [hs, hnew]; rfl⟩, [s], ?_, ?_, by rw [hnew]; rfl⟩
  · rw [Wrote, List.flatMap_append, hw]
    simp [wroteCalls, hs]
  · simpa using hev

/-- The result of a replay. -/
theorem Yields.replay (hw : Wrote l h) (hg : givenBy s r = some res.transfer)
    (hs : s.wrote r = false) (hev : res.events = []) (hrep : res.idempotentReplay = true) :
    Yields L l (h ++ [⟨.store s, i, r⟩]) (.ok res) := by
  refine ⟨⟨s, r, last_snoc, hg, by rw [hs, hrep]; rfl⟩, [], ?_, hev.symm, by rw [hrep]; rfl⟩
  rw [List.append_nil]
  exact hw.snoc (by simp [wroteCalls, hs])

end results

/-- An error of the last store call. -/
theorem Blame.expected {o : Op} {i : Input} {r : o.Ret} {e : Err} (he : Expected i e) :
    Blame L (h ++ [⟨o, i, r⟩]) e := by
  rcases he with hk | ⟨err, hctx, he⟩
  · exact .rail hk
  · exact .context (List.mem_append_right _ List.mem_cons_self) hctx he

theorem Blame.unmarshalled {id ty tn acct tid cor : GoString} {at_ : Time} {p : Payload} {e : Err}
    (he : newEvent L.marshal id ty tn acct tid cor at_ p = .error e) : Blame L h e := by
  refine .marshal fun hm => ?_
  obtain ⟨ev, hev⟩ := newEvent_ok hm id ty tn acct tid cor at_ p
  rw [hev] at he
  exact absurd he (by simp)

theorem orNow_goes (hw : Wrote l h) (t : Time) :
    Goes L c (fun h' _ => Wrote l h' ∧ (Unresolved h → Unresolved h')) h (orNow t) := by
  unfold orNow
  split
  · exact ⟨.routine trivial, fun i r _ => ⟨hw.snoc rfl, fun hu => hu.snoc (by simp)⟩⟩
  · exact ⟨hw, id⟩

/-! ## `CreateTransfer` -/

theorem addEvent_goes (hw : Wrote l h) (t : Transfer) (outbox : List Event) (ty : EventType)
    (p : Payload) : Goes L c (fun h' _ => Wrote l h') h (addEvent L t outbox ty p) := by
  refine goes_perform (.routine trivial) fun i id _ => ?_
  refine goes_perform (.routine trivial) fun i' at_ _ => ?_
  split <;> exact (hw.snoc rfl).snoc rfl

theorem creationEvents_goes (hw : Wrote l h) (t : Transfer) (dict : DictEntry)
    (decision : FraudDecision) (hash : GoString) :
    Goes L c (fun h' _ => Wrote l h') h (creationEvents L t dict decision hash) := by
  refine (addEvent_goes hw _ _ _ _).bind fun h₁ o₁ _ hw₁ => ?_
  refine (addEvent_goes hw₁ _ _ _ _).bind fun h₂ o₂ _ hw₂ => ?_
  refine (addEvent_goes hw₂ _ _ _ _).bind fun h₃ o₃ _ hw₃ => ?_
  split
  · refine (addEvent_goes hw₃ _ _ _ _).bind fun h₄ o₄ _ hw₄ => ?_
    exact addEvent_goes hw₄ _ _ _ _
  · split
    · exact addEvent_goes hw₃ _ _ _ _
    · split
      · exact addEvent_goes hw₃ _ _ _ _
      · exact hw₃

/-- A transfer found under the key of a request. -/
theorem replayOf_yields {tn key hash : GoString} {i : Input} {t : Transfer} (hw : Wrote l h) :
    Yields L l (h ++ [⟨.store (.findByIdempotency tn key), i, .ok (some t)⟩])
      (replayOf hash t) := by
  unfold replayOf
  split
  · exact .error (hw.snoc rfl) (.rail (known_wrap (by decide) _))
  · exact .replay hw rfl rfl rfl rfl

theorem persist_goes {req : CreateTransferRequest} {at_ : Time} {dict : DictEntry}
    {decision : FraudDecision} (hc : c = .createTransfer req) (hw : Wrote l h)
    (hdict : Did h (lookupOf req) (.ok dict))
    (hscore : Did h (.score (normalize req at_) dict) (.ok decision)) :
    Goes L c (Yields L l) h
      (persist L (normalize req at_) (req.fingerprint L.digest) dict decision) := by
  refine goes_perform (.routine trivial) fun i now _ => ?_
  refine goes_perform (.routine trivial) fun i' id _ => ?_
  refine (creationEvents_goes ((hw.snoc rfl).snoc rfl) _ dict decision _).bind
    fun h₁ evs hh₁ hw₁ => ?_
  have hnow : Did h₁ .now now := (did_last.snoc _).mono hh₁
  refine goes_storeCall (.insert hc (((hdict.snoc _).snoc _).mono hh₁)
    (((hscore.snoc _).snoc _).mono hh₁) hnow rfl) fun i₂ r hr => ?_
  split
  · exact .wrote hw₁ rfl rfl rfl rfl
  · split
    · refine goes_storeCall (.routine trivial) fun i₃ r₃ hr₃ => ?_
      split
      · exact .error ((hw₁.snoc rfl).snoc rfl) (.expected hr₃)
      · exact replayOf_yields (hw₁.snoc rfl)
      · exact .error ((hw₁.snoc rfl).snoc rfl) (.rail ⟨.conflict, by decide, ‹_›⟩)
    · exact .error (hw₁.snoc rfl) (.expected hr)

theorem decideTransfer_goes {req : CreateTransferRequest} {at_ : Time}
    (hc : c = .createTransfer req) (hw : Wrote l h) (hu : Unresolved h) :
    Goes L c (Yields L l) h
      (decideTransfer L (normalize req at_) (req.fingerprint L.digest)) := by
  refine goes_perform (.tenantAllow hc) fun i₁ r₁ _ => ?_
  have hw₁ := hw.snoc (a := ⟨.tenantAllow (accountKey req), i₁, r₁⟩) rfl
  split
  · exact .error hw₁ (.rail (known_wrap (by decide) _))
  · rename_i h₁
    obtain rfl : r₁ = true := by simpa using h₁
    refine goes_perform (.dictAllow hc did_last) fun i₂ r₂ _ => ?_
    have hw₂ := hw₁.snoc (a := ⟨.dictAllow (lookupKey req), i₂, r₂⟩) rfl
    split
    · exact .error hw₂ (.rail (known_wrap (by decide) _))
    · rename_i h₂
      obtain rfl : r₂ = true := by simpa using h₂
      refine goes_perform (.resolve hc did_last ((hu.snoc (by simp)).snoc (by simp)))
        fun i₃ r₃ _ => ?_
      have hw₃ := hw₂.snoc (a := ⟨lookupOf req, i₃, r₃⟩) rfl
      split
      · split
        · exact .error hw₃ (.rail (known_wrap (by decide) _))
        · exact .error hw₃ (.dict did_last ‹_›)
      · rename_i dict
        refine goes_perform (.score hc did_last) fun i₄ r₄ _ => ?_
        split
        · exact .error (hw₃.snoc rfl) (.fraud did_last)
        · split
          · exact persist_goes hc (hw₃.snoc rfl) (did_last.snoc _) did_last
          · exact .error (hw₃.snoc rfl) (.rail (known_wrap (by decide) _))

theorem createTransfer_goes (req : CreateTransferRequest) :
    Goes L (.createTransfer req) (Yields L []) [] (createTransfer L req) := by
  refine (orNow_goes wrote_nil _).bind fun h₁ at_ _ hs => ?_
  dsimp only
  split
  · rename_i e he
    refine .error hs.1 (.rail ?_)
    simp only [CreateTransferRequest.validate] at he
    split at he
    · exact absurd he (by simp)
    · rw [Except.error.injEq] at he
      rw [← he]
      exact known_wrap (by decide) _
  · rw [fingerprint_normalize]
    refine goes_storeCall (.routine trivial) fun i r hr => ?_
    split
    · exact .error (hs.1.snoc rfl) (.expected hr)
    · exact replayOf_yields hs.1
    · refine decideTransfer_goes rfl (hs.1.snoc rfl) ((hs.2 ?_).snoc (by simp))
      simp [Unresolved, Did]

/-! ## `SubmitToSPI` -/

section submit

variable {tn id tok cor : GoString}

theorem releaseAndFail_goes (hw : Wrote l h) (e : Err)
    (hb : ∀ h', h <+: h' → Blame L h' e) :
    Goes L c (Yields L l) h (releaseAndFail tn id tok e) := by
  refine goes_perform (.routine trivial) fun i now _ => ?_
  refine goes_storeCall (.routine trivial) fun i₂ r _ => ?_
  refine .error ((hw.snoc rfl).snoc ?_) (hb _ ?_)
  · rfl
  · rw [List.append_assoc]
    exact List.prefix_append h _

theorem spiEvent_goes (hw : Wrote l h) (current : Transfer) (ty : EventType) (p : Payload) :
    Goes L c (fun h' r => Wrote l h' ∧ ∀ e, r = .error e → ∀ h'', Blame L h'' e) h
      (spiEvent L current cor ty p) := by
  refine goes_perform (.routine trivial) fun i id _ => ?_
  refine goes_perform (.routine trivial) fun i' at_ _ => ?_
  exact ⟨(hw.snoc rfl).snoc rfl, fun e he h'' => .unmarshalled he⟩

theorem submitClaimed_goes {u : Time} {current : Transfer} (hw : Wrote l h)
    (hclaim : Last h (.store (.claimSPISubmission tn id tok u)) (.ok (current, false))) :
    Goes L c (Yields L l) h (submitClaimed L tn id tok cor current) := by
  refine goes_perform (.submit hclaim) fun i r _ => ?_
  have hw₁ := hw.snoc (a := ⟨.submit current, i, r⟩) rfl
  cases r with
  | error e => exact releaseAndFail_goes hw₁ e fun _ hh => .spi (did_last.mono hh)
  | ok message =>
    refine (spiEvent_goes hw₁ _ _ _).bind fun h₂ r₂ _ hs₂ => ?_
    cases r₂ with
    | error e => exact releaseAndFail_goes hs₂.1 e fun h' _ => hs₂.2 e rfl h'
    | ok created =>
      refine (spiEvent_goes hs₂.1 _ _ _).bind fun h₃ r₃ _ hs₃ => ?_
      cases r₃ with
      | error e => exact releaseAndFail_goes hs₃.1 e fun h' _ => hs₃.2 e rfl h'
      | ok approved =>
        refine goes_storeCall (.routine trivial) fun i₄ r₄ hr₄ => ?_
        split
        · exact .error (hs₃.1.snoc rfl) (.expected hr₄)
        · exact .replay hs₃.1 rfl rfl rfl rfl
        · exact .wrote hs₃.1 rfl rfl rfl rfl

theorem submitToSPI_goes (hw : Wrote l h) (tn id cor : GoString) :
    Goes L c (Yields L l) h (submitToSPI L tn id cor) := by
  dsimp only [submitToSPI]
  split
  · exact .error hw (.rail (known_wrap (by decide) _))
  · refine goes_perform (.routine trivial) fun i tok _ => ?_
    refine goes_perform (.routine trivial) fun i' now _ => ?_
    refine goes_storeCall (.routine trivial) fun i₂ r hr => ?_
    have hw₂ := (hw.snoc (a := ⟨.newID (go "spiclaim"), i, tok⟩) rfl).snoc
      (a := ⟨.now, i', now⟩) rfl
    split
    · exact .error (hw₂.snoc rfl) (.expected hr)
    · exact .replay hw₂ rfl rfl rfl rfl
    · exact submitClaimed_goes (hw₂.snoc rfl) last_snoc

theorem submitLoop_goes (result : SPIBatchResult) (pending : List Transfer) :
    Goes L c (fun _ _ => True) h (submitLoop L result pending) := by
  induction pending generalizing h result with
  | nil => trivial
  | cons t pending ih =>
    refine (submitToSPI_goes rfl _ _ _).bind fun h₁ r _ _ => ?_
    split
    · split
      · exact ih _
      · trivial
    · split <;> exact ih _

theorem submitPendingSPI_goes (limit : Int) :
    Goes L c (fun _ _ => True) h (submitPendingSPI L limit) := by
  refine goes_perform (.routine trivial) fun i r _ => ?_
  cases r with
  | some e => trivial
  | none =>
    refine goes_perform (.routine trivial) fun i₁ now _ => ?_
    refine goes_storeCall (.routine trivial) fun i₂ pending _ => ?_
    exact submitLoop_goes _ _

end submit

/-! ## `RecordReview` and `RecordSettlement` -/

theorem reviewEvent_goes (hw : Wrote l h) (current : Transfer) (cor : GoString) (at_ : Time)
    (ty : EventType) (p : Payload) :
    Goes L c (fun h' r => Wrote l h' ∧ ∀ e, r = .error e → Blame L h' e) h
      (reviewEvent L current cor at_ ty p) := by
  refine goes_perform (.routine trivial) fun i id _ => ?_
  exact ⟨hw.snoc rfl, fun e he => .unmarshalled he⟩

theorem writeReview_goes {req : ReviewDecisionRequest} {cor reason : GoString} {at_ : Time}
    {current : Transfer} {status : TransferStatus} {ty next : EventType} {p : Payload}
    (hc : c = .recordReview req) (hw : Wrote l h)
    (hstatus : reviewStatus req.decision = some status) :
    Goes L c (Yields L l) h
      (writeReview L (trimSpace req.tenantID) (trimSpace req.transferID) cor reason at_
        req.decision current status ty next p) := by
  refine (reviewEvent_goes hw _ _ _ _ _).bind fun h₁ r₁ _ hs₁ => ?_
  split
  · exact .error hs₁.1 (hs₁.2 _ rfl)
  · refine (reviewEvent_goes hs₁.1 _ _ _ _ _).bind fun h₂ r₂ _ hs₂ => ?_
    split
    · exact .error hs₂.1 (hs₂.2 _ rfl)
    · refine goes_storeCall (.review hc rfl rfl hstatus) fun i₃ r₃ hr₃ => ?_
      split
      · exact .error (hs₂.1.snoc rfl) (.expected hr₃)
      · exact .wrote hs₂.1 rfl rfl rfl rfl

theorem recordReview_goes (req : ReviewDecisionRequest) :
    Goes L (.recordReview req) (Yields L []) [] (recordReview L req) := by
  refine (orNow_goes wrote_nil _).bind fun h₁ at_ _ hs => ?_
  dsimp only
  split
  · exact .error hs.1 (.rail (known_wrap (by decide) _))
  · refine goes_storeCall (.routine trivial) fun i r hr => ?_
    have hw := hs.1.snoc (a := ⟨.store (.getTransfer (trimSpace req.tenantID)
      (trimSpace req.transferID)), i, r⟩) rfl
    split
    · exact .error hw (.expected hr)
    · split
      · exact .error hw (.rail (known_wrap (by decide) _))
      · split
        · rename_i hdecision
          exact writeReview_goes rfl hw (by rw [hdecision]; rfl)
        · rename_i hdecision
          exact writeReview_goes rfl hw (by rw [hdecision]; rfl)
        · exact .error hw (.rail (known_wrap (by decide) _))

theorem settle_goes (hw : Wrote l h) (cb : SettlementCallback) :
    Goes L c (Yields L l) h (settle L cb) := by
  refine goes_storeCall (.routine trivial) fun i r hr => ?_
  have hw₁ := hw.snoc (a := ⟨.store (.getTransfer cb.tenantID cb.transferID), i, r⟩) rfl
  split
  · exact .error hw₁ (.expected hr)
  · split
    · exact .error hw₁ (.rail (known_wrap (by decide) _))
    · split
      · exact .error hw₁ (.rail (known_wrap (by decide) _))
      · refine goes_perform (.routine trivial) fun i₂ id _ => ?_
        split
        · exact .error (hw₁.snoc rfl) (.unmarshalled ‹_›)
        · refine goes_storeCall (.routine trivial) fun i₃ r₃ hr₃ => ?_
          split
          · exact .error ((hw₁.snoc rfl).snoc rfl) (.expected hr₃)
          · exact .replay (hw₁.snoc rfl) rfl rfl rfl rfl
          · exact .wrote (hw₁.snoc rfl) rfl rfl rfl rfl

theorem recordSettlement_goes (cb : SettlementCallback) :
    Goes L c (Yields L []) [] (recordSettlement L cb) := by
  refine (orNow_goes wrote_nil _).bind fun h₁ at_ _ hs => ?_
  have hid : Goes L c (fun h' _ => Wrote [] h') h₁ (orNewID cb.correlationID (go "corr")) := by
    unfold orNewID
    split
    · exact ⟨.routine trivial, fun i r _ => hs.1.snoc rfl⟩
    · exact hs.1
  refine hid.bind fun h₂ cor _ hw => ?_
  dsimp only
  split
  · exact .error hw (.rail (known_wrap (by decide) _))
  · exact settle_goes hw _

/-! ## `Drain` -/

theorem drainLoop_goes (policy : RetryPolicy) (tok : GoString) (stats : RelayStats)
    (records : List OutboxRecord) :
    Goes L c (fun _ _ => True) h (drainLoop policy tok stats records) := by
  induction records generalizing h stats with
  | nil => trivial
  | cons record records ih =>
    refine goes_perform (.routine trivial) fun i r _ => ?_
    cases r with
    | error e =>
      refine goes_perform (.routine trivial) fun i₂ at_ _ => ?_
      refine goes_storeCall (.routine trivial) fun i₃ r₃ _ => ?_
      cases r₃ with
      | error e => trivial
      | ok _ => exact ih _
    | ok _ =>
      refine goes_perform (.routine trivial) fun i₂ at_ _ => ?_
      refine goes_storeCall (.routine trivial) fun i₃ r₃ _ => ?_
      cases r₃ with
      | error e => trivial
      | ok _ => exact ih _

theorem drain_goes (policy : RetryPolicy) (limit : Int) :
    Goes L c (fun _ _ => True) h (drain policy limit) := by
  refine goes_perform (.routine trivial) fun i₁ tok _ => ?_
  refine goes_perform (.routine trivial) fun i₂ at_ _ => ?_
  refine goes_perform (.routine trivial) fun i₃ r _ => ?_
  cases r with
  | some e => trivial
  | none =>
    refine goes_perform (.routine trivial) fun i₄ checkedAt _ => ?_
    dsimp only [Prog.bind]
    split
    · trivial
    · refine goes_perform (.routine trivial) fun i₅ now _ => ?_
      refine goes_storeCall (.routine trivial) fun i₆ records _ => ?_
      exact drainLoop_goes _ _ _ _

/-! ## All calls -/

/-- What lies behind the outcome of a call. -/
def Reports (L : Lib) (h : History) (out : Outcome) : Prop :=
  ∀ r, out = .result r → Yields L [] h r

theorem body_goes (c : Call) : Goes L c (Reports L) [] (body L c) := by
  have hresult : ∀ {p : Code (Except Err Result)}, Goes L c (Yields L []) [] p →
      Goes L c (Reports L) [] (Outcome.result <$> p) := by
    intro p hp
    refine Prog.Obeys.map (hp.mono fun h r _ hr r' hr' => ?_)
    rwa [← Outcome.result.inj hr']
  cases c with
  | createTransfer req => exact hresult (createTransfer_goes req)
  | getTransfer tn id => exact ⟨.routine trivial, fun i r _ r' hr' => nomatch hr'⟩
  | submitToSPI tn id cor => exact hresult (submitToSPI_goes wrote_nil tn id cor)
  | submitPendingSPI limit =>
    exact ((submitPendingSPI_goes limit).mono fun _ _ _ _ _ hr => nomatch hr).map
  | recordReview req => exact hresult (recordReview_goes req)
  | recordSettlement cb => exact hresult (recordSettlement_goes cb)
  | drain policy limit => exact ((drain_goes policy limit).mono fun _ _ _ _ _ hr => nomatch hr).map

/-- The second contract of the switch. -/
def grounds (E : Env) (tl dl : Option E.Lim) : Contract (switch E) (State.initial E tl dl) where
  ens := Assures
  allows := Rests E.toLib
  returns := fun _ => Reports E.toLib
  obeys := body_goes
  sound := fun _ => handle_assures

section runs

variable {E : Env} {tl dl : Option E.Lim} {tr : Trace (switch E)} {w : World (switch E)}
  {cid : Nat}

/-- What an operation in the history of a call rests on. -/
theorem rests_of_did (h : Runs E tl dl tr w) {o : Op} {r : o.Ret} (hd : Did (hist cid tr) o r) :
    ∃ c t₁ t₂ i, tr = t₁ ++ actEv cid o i r :: t₂ ∧ spawnEv cid c ∈ t₁ ∧
      Rests E.toLib c (hist cid t₁) o := by
  obtain ⟨i, hi⟩ := hd
  obtain ⟨t₁, t₂, rfl⟩ := List.append_of_mem (mem_hist.mp hi)
  obtain ⟨c, hc, hrests⟩ := (grounds E tl dl).allows_at h
  exact ⟨c, t₁, t₂, i, rfl, hc, hrests⟩

/-- A transfer that a call once saw is still stored, with its order. -/
theorem given_order (h : Runs E tl dl tr w) {call : StoreCall} {r : call.Ret} {t : Transfer}
    (hd : Did (hist cid tr) (.store call) r) (hg : givenBy call r = some t) :
    ∃ t', w.state.store.transfers.lookup t.id = some t' ∧ SameOrder t t' := by
  obtain ⟨i, hi⟩ := hd
  obtain ⟨t₁, t₂, rfl⟩ := List.append_of_mem (mem_hist.mp hi)
  obtain ⟨w₁, w₂, h₁, hstep, hrun, hrest⟩ := runs_at h
  refine runs_stable (P := fun s => ∃ t', s.transfers.lookup t.id = some t' ∧ SameOrder t t') ?_
    hrun hrest ⟨t, storeHandle_given (runs_keyed h₁) (step_store hstep) hg, .refl t⟩
  rintro tr w i c s' r hr ⟨t', hl, hsame⟩ hs
  obtain ⟨t'', hl', hsame'⟩ := hs.lookup_sameOrder (runs_keyed hr) hl
  exact ⟨t'', hl', hsame.trans hsame'⟩

end runs

end PixRail.Switcher
