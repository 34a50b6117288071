import PixRail.Switcher.Contract

/-!
# The programs keep their contract

One lemma for each program of the service and of the relay: from which
history on it keeps the contract, and what holds of its result.
`SubmitToSPI` is proved from an arbitrary history on, because
`SubmitPendingSPI` runs it many times in one call.
-/

namespace PixRail.Switcher

open Go Rail Events Store Interleave Messaging

/-- The program `p` of the call `c` keeps the contract after the history `h`,
and returns only what `Q` allows. -/
abbrev Does (L : Lib) (c : Call) {α : Type} (Q : History → α → Prop) (h : History)
    (p : Code α) : Prop :=
  Prog.Obeys Ens (Allows L c) Q h p

variable {L : Lib} {c : Call} {h : History}

section rules

variable {α : Type} {Q : History → α → Prop}

theorem does_perform {o : Op} {f : o.Ret → Code α} (ha : Allows L c h o)
    (hf : ∀ i r, Ens o i r → Does L c Q (h ++ [⟨o, i, r⟩]) (f r)) :
    Does L c Q h (perform o >>= f) :=
  ⟨ha, hf⟩

theorem does_storeCall {s : StoreCall} {f : s.Ret → Code α} (ha : Allows L c h (.store s))
    (hf : ∀ i r, Ens (.store s) i r → Does L c Q (h ++ [⟨.store s, i, r⟩]) (f r)) :
    Does L c Q h (storeCall s >>= f) :=
  ⟨ha, hf⟩

end rules

theorem did_last {o : Op} {i : Input} {r : o.Ret} :
    Did (S := sig) (h ++ [⟨o, i, r⟩]) o r :=
  Did.last h o i r

theorem last_snoc {o : Op} {i : Input} {r : o.Ret} :
    Last (S := sig) (h ++ [⟨o, i, r⟩]) o r :=
  ⟨h, i, rfl⟩

theorem noInsert_nil : NoInsert [] := by
  simp [NoInsert, Did]

theorem NoInsert.snoc (hn : NoInsert h) {a : Action sig Input}
    (ha : ∀ t evs auds, a.op ≠ .store (.insertTransfer t evs auds)) : NoInsert (h ++ [a]) := by
  intro t evs auds r ⟨i, hi⟩
  rcases List.mem_append.mp hi with hi | hi
  · exact hn t evs auds r ⟨i, hi⟩
  · rw [List.mem_singleton] at hi
    subst hi
    exact ha t evs auds rfl

theorem orNow_does (t : Time) : Does L c (fun h' _ => NoInsert h → NoInsert h') h (orNow t) := by
  unfold orNow
  split
  · exact ⟨.now, fun i r _ hn => hn.snoc (by simp)⟩
  · exact id

theorem orNewID_does (id tag : GoString) : Does L c (fun _ _ => True) h (orNewID id tag) := by
  unfold orNewID
  split
  · exact ⟨.newID tag, fun _ _ _ => trivial⟩
  · trivial

/-! ## `CreateTransfer` -/

theorem addEvent_does {full : List EventType} {t : Transfer} {outbox : List Event}
    (hn : NoInsert h) (hcr : Created L full t outbox) (ty : EventType) (p : Payload) :
    Does L c (fun h' out => NoInsert h' ∧ Created L (full ++ [ty]) t out) h
      (addEvent L t outbox ty p) := by
  obtain ⟨types, hb, hsub, hm⟩ := hcr
  refine does_perform (.newID _) fun i id _ => does_perform .now fun i' at_ _ => ?_
  have hn' := (hn.snoc (a := ⟨.newID (go "evt"), i, id⟩) (by simp)).snoc
    (a := ⟨.now, i', at_⟩) (by simp)
  split
  · rename_i err herr
    refine ⟨hn', types, hb, hsub.trans (List.sublist_append_left _ _), fun hmar => ?_⟩
    obtain ⟨e, he⟩ := newEvent_ok hmar id ty.name t.tenantID t.accountID t.id t.correlationID
      at_ p
    rw [he] at herr
    exact absurd herr (by simp)
  · rename_i event hev
    refine ⟨hn', types ++ [ty], hb.append (newEvent_batch hev), hsub.append_right _,
      fun hmar => ?_⟩
    rw [hm hmar]

theorem creationEvents_does (hn : NoInsert h) (t : Transfer) (dict : DictEntry)
    (decision : FraudDecision) (hash : GoString) :
    Does L c (fun h' out => NoInsert h' ∧ Created L (creationTypes decision.status) t out) h
      (creationEvents L t dict decision hash) := by
  refine (addEvent_does hn (Created.nil L t) _ _).bind fun h₁ o₁ _ hc₁ => ?_
  refine (addEvent_does hc₁.1 hc₁.2 _ _).bind fun h₂ o₂ _ hc₂ => ?_
  refine (addEvent_does hc₂.1 hc₂.2 _ _).bind fun h₃ o₃ _ hc₃ => ?_
  unfold creationTypes
  split
  · refine (addEvent_does hc₃.1 hc₃.2 _ _).bind fun h₄ o₄ _ hc₄ => ?_
    exact addEvent_does hc₄.1 hc₄.2 _ _
  · split
    · exact addEvent_does hc₃.1 hc₃.2 _ _
    · split
      · exact addEvent_does hc₃.1 hc₃.2 _ _
      · exact hc₃

theorem persist_does {req : CreateTransferRequest} {at_ : Time} {dict : DictEntry}
    {decision : FraudDecision} (hc : c = .createTransfer req)
    (hvalid : (normalize req at_).validate = .ok ())
    (hstatus : decision.status = .accepted ∨ decision.status = .review ∨
      decision.status = .blocked)
    (hn : NoInsert h) (hfind : Did h (.store (findFor req)) (.ok none)) :
    Does L c (CreateReturns L req) h
      (persist L (normalize req at_) (req.fingerprint L.digest) dict decision) := by
  refine does_perform .now fun i now _ => does_perform (.newID _) fun i' id _ => ?_
  have hn' := (hn.snoc (a := ⟨.now, i, now⟩) (by simp)).snoc
    (a := ⟨.newID (go "pxt"), i', id⟩) (by simp)
  refine (creationEvents_does hn' _ dict decision _).bind fun h₁ evs hh₁ hevs => ?_
  have hid : Did h₁ (.newID (go "pxt")) id := did_last.mono hh₁
  have hfind₁ := ((hfind.snoc _).snoc _).mono hh₁
  refine does_storeCall (.insert hc hvalid hstatus hevs.1 hid hfind₁ rfl hevs.2) fun i₂ r _ => ?_
  split
  · exact .created did_last
  · rename_i e
    split
    · refine does_storeCall (.find hc) fun i₃ r₃ hr₃ => ?_
      split
      · exact .failed (hr₃ _ rfl)
      · exact .replayed did_last
      · exact .lost (List.append_assoc h₁ _ _)
    · exact .failed ‹_›

theorem decideTransfer_does {req : CreateTransferRequest} {at_ : Time}
    (hc : c = .createTransfer req) (hvalid : (normalize req at_).validate = .ok ())
    (hn : NoInsert h) (hfind : Did h (.store (findFor req)) (.ok none)) :
    Does L c (CreateReturns L req) h
      (decideTransfer L (normalize req at_) (req.fingerprint L.digest)) := by
  have hfor : c.ActsFor (trimSpace req.tenantID) := Call.actsFor_tenant (hc ▸ rfl)
  refine does_perform (.tenantAllow hfor) fun i₁ r₁ _ => ?_
  split
  · exact .failed (by simp)
  · refine does_perform (.dictAllow hfor) fun i₂ r₂ _ => ?_
    split
    · exact .failed (by simp)
    · refine does_perform (.resolve _ _ _) fun i₃ r₃ _ => ?_
      split
      · split
        · exact .failed (by simp)
        · exact .dict did_last
      · rename_i dict
        refine does_perform (.score _ _) fun i₄ r₄ _ => ?_
        split
        · exact .fraud did_last
        · split
          · rename_i hstatus
            exact persist_does hc hvalid hstatus
              ((((hn.snoc (by simp)).snoc (by simp)).snoc (by simp)).snoc (by simp))
              ((((hfind.snoc _).snoc _).snoc _).snoc _)
          · exact .failed (by simp)

theorem createTransfer_does (req : CreateTransferRequest) :
    Does L (.createTransfer req) (CreateReturns L req) [] (createTransfer L req) := by
  refine (orNow_does _).bind fun h₁ at_ _ hn => ?_
  dsimp only
  split
  · rename_i e he
    refine .failed ?_
    simp only [CreateTransferRequest.validate] at he
    split at he
    · exact absurd he (by simp)
    · rw [Except.error.injEq] at he
      simp [← he]
  · rename_i hvalid
    rw [fingerprint_normalize]
    refine does_storeCall (.find rfl) fun i r hr => ?_
    split
    · exact .failed (hr _ rfl)
    · exact .replayed did_last
    · exact decideTransfer_does rfl hvalid ((hn noInsert_nil).snoc (by simp)) did_last

/-! ## `SubmitToSPI` -/

section submit

variable {tn id tok cor : GoString} {u : Time} {current : Transfer}

theorem releaseAndFail_does {Q : History → Except Err Result → Prop} (hfor : c.ActsFor tn)
    (hclaim : Did h (.store (.claimSPISubmission tn id tok u)) (.ok (current, false)))
    (e : Err) (hq : ∀ h', h <+: h' → Q h' (.error e)) :
    Does L c Q h (releaseAndFail tn id tok e) := by
  refine does_perform .now fun i now _ => ?_
  refine does_storeCall (.release _ hfor (hclaim.snoc _) did_last) fun i₂ r _ => ?_
  exact hq _ (by rw [List.append_assoc]; exact List.prefix_append h _)

theorem spiEvent_does (current : Transfer) (cor : GoString) (ty : EventType) (p : Payload) :
    Does L c (fun _ r => ∀ e, r = .ok e → Batch current [ty] [e]) h
      (spiEvent L current cor ty p) := by
  refine does_perform (.newID _) fun i id _ => does_perform .now fun i' at_ _ => ?_
  intro e he
  exact newEvent_batch he

theorem submitClaimed_does (hfor : c.ActsFor tn)
    (hclaim : Did h (.store (.claimSPISubmission tn id tok u)) (.ok (current, false))) :
    Does L c (fun _ _ => True) h (submitClaimed L tn id tok cor current) := by
  refine does_perform (.submit hclaim) fun i r _ => ?_
  have hclaim₁ := hclaim.snoc (⟨.submit current, i, r⟩ : Action sig Input)
  cases r with
  | error e => exact releaseAndFail_does hfor hclaim₁ e fun _ _ => trivial
  | ok message =>
    refine (spiEvent_does _ _ _ _).bind fun h₂ r₂ hh₂ hb₂ => ?_
    cases r₂ with
    | error e => exact releaseAndFail_does hfor (hclaim₁.mono hh₂) e fun _ _ => trivial
    | ok created =>
      refine (spiEvent_does _ _ _ _).bind fun h₃ r₃ hh₃ hb₃ => ?_
      have hh := hh₂.trans hh₃
      cases r₃ with
      | error e => exact releaseAndFail_does hfor (hclaim₁.mono hh) e fun _ _ => trivial
      | ok approved =>
        have hevs : Batch current submissionTypes [created, approved] :=
          (hb₂ _ rfl).append (hb₃ _ rfl)
        refine does_storeCall (.record hfor (hclaim₁.mono hh) (did_last.mono hh) hevs)
          fun i₄ r₄ _ => ?_
        split <;> trivial

end submit

theorem submitToSPI_does {tn : GoString} (hc : c.Submits) (hfor : c.ActsFor (trimSpace tn))
    (id cor : GoString) :
    Does L c (fun _ _ => True) h (submitToSPI L tn id cor) := by
  dsimp only [submitToSPI]
  split
  · trivial
  · refine does_perform (.newID _) fun i tok _ => does_perform .now fun i' now _ => ?_
    refine does_storeCall (.claim hc hfor (List.append_assoc h _ _)) fun i₂ r _ => ?_
    split
    · trivial
    · trivial
    · exact submitClaimed_does hfor did_last

theorem submitLoop_does (hc : c.Submits) (hfor : ∀ tn, c.ActsFor tn) (result : SPIBatchResult)
    (pending : List Transfer) :
    Does L c (fun _ _ => True) h (submitLoop L result pending) := by
  induction pending generalizing h result with
  | nil => trivial
  | cons t pending ih =>
    refine (submitToSPI_does hc (hfor _) _ _).bind fun h₁ r _ _ => ?_
    split
    · split
      · exact ih _
      · trivial
    · split <;> exact ih _

theorem submitPendingSPI_does (limit : Int) :
    Does L (.submitPendingSPI limit) (fun _ _ => True) h (submitPendingSPI L limit) := by
  have hfor : ∀ tn, (Call.submitPendingSPI limit).ActsFor tn := by
    intro tn tn' htn
    exact absurd htn (by simp [Call.tenant])
  refine does_perform .health fun i r _ => ?_
  cases r with
  | some e => trivial
  | none =>
    refine does_perform .now fun i₁ now _ => ?_
    refine does_storeCall (.pending now limit rfl) fun i₂ pending _ => ?_
    exact submitLoop_does (c := .submitPendingSPI limit) trivial hfor _ _

/-! ## `RecordReview` -/

theorem reviewEvent_does (current : Transfer) (cor : GoString) (at_ : Time) (ty : EventType)
    (p : Payload) :
    Does L c (fun _ r => ∀ e, r = .ok e → Batch current [ty] [e]) h
      (reviewEvent L current cor at_ ty p) := by
  refine does_perform (.newID _) fun i id _ => ?_
  intro e he
  exact newEvent_batch he

theorem writeReview_does {req : ReviewDecisionRequest} {tn id cor reason : GoString}
    {at_ : Time} {current : Transfer} {status : TransferStatus} {ty next : EventType}
    {p : Payload} (hc : c = .recordReview req) (htn : tn = trimSpace req.tenantID)
    (hget : Did h (.store (.getTransfer tn id)) (.ok current))
    (hreview : current.status = .review) (hstatus : status = .accepted ∨ status = .blocked)
    (hty : reviewTypes status = [ty, next]) :
    Does L c (fun _ _ => True) h
      (writeReview L tn id cor reason at_ req.decision current status ty next p) := by
  refine (reviewEvent_does _ _ _ _ _).bind fun h₁ r₁ hh₁ hb₁ => ?_
  split
  · trivial
  · rename_i event
    refine (reviewEvent_does _ _ _ _ _).bind fun h₂ r₂ hh₂ hb₂ => ?_
    split
    · trivial
    · rename_i event₂
      have hevs : Batch current (reviewTypes status) [event, event₂] := by
        rw [hty]
        exact (hb₁ _ rfl).append (hb₂ _ rfl)
      refine does_storeCall (.review hc htn (hget.mono (hh₁.trans hh₂)) hreview hstatus hevs)
        fun i₃ r₃ _ => ?_
      split <;> trivial

theorem recordReview_does (req : ReviewDecisionRequest) :
    Does L (.recordReview req) (fun _ _ => True) h (recordReview L req) := by
  have hfor : (Call.recordReview req).ActsFor (trimSpace req.tenantID) :=
    Call.actsFor_tenant rfl
  refine (orNow_does _).bind fun h₁ at_ _ _ => ?_
  dsimp only
  split
  · trivial
  · refine does_storeCall (.getTransfer _ hfor) fun i r _ => ?_
    cases r with
    | error e => trivial
    | ok current =>
      by_cases hreview : current.status = .review
      · simp only [hreview, ne_eq, not_true_eq_false, if_false]
        split
        · exact writeReview_does rfl rfl did_last hreview (.inr rfl) rfl
        · exact writeReview_does rfl rfl did_last hreview (.inl rfl) rfl
        · trivial
      · simp only [hreview, ne_eq, not_false_eq_true, if_true]
        trivial

/-! ## `RecordSettlement` -/

theorem settle_does {cb : SettlementCallback} {at_ : Time} {cor : GoString}
    (hc : c = .recordSettlement cb) (hne : cb.spiMessageID ≠ []) :
    Does L c (SettleReturns L cb) h (settle L (received L cb at_ cor)) := by
  have hfor : c.ActsFor cb.tenantID := Call.actsFor_tenant (hc ▸ rfl)
  refine does_storeCall (.getTransfer _ hfor) fun i r _ => ?_
  cases r with
  | error e => exact .unread last_snoc
  | ok current =>
    by_cases hspi : current.spiMessageID = cb.spiMessageID
    · have hok : ¬ (current.spiMessageID = [] ∨ current.spiMessageID ≠
          (received L cb at_ cor).spiMessageID) := by
        rw [hspi]
        exact fun h => h.elim hne fun h => h rfl
      simp only [if_neg hok]
      cases hty : settlementEvent cb.status with
      | none =>
        rw [show settlementEvent (received L cb at_ cor).status = none from hty]
        exact .unsupported last_snoc hspi hty
      | some ty =>
        rw [show settlementEvent (received L cb at_ cor).status = some ty from hty]
        refine does_perform (.newID _) fun i₂ id _ => ?_
        split
        · rename_i e he
          refine .unmarshalled fun hm => ?_
          obtain ⟨ev, hev⟩ := newEvent_ok hm id ty.name current.tenantID current.accountID
            current.id (received L cb at_ cor).correlationID (received L cb at_ cor).receivedAt
            _
          rw [hev] at he
          exact absurd he (by simp)
        · rename_i event hev
          refine does_storeCall (.settle hc rfl rfl hne (did_last.snoc _) hspi hty
            (newEvent_batch hev)) fun i₃ r₃ _ => ?_
          split
          · exact .refused last_snoc
          · exact .replayed last_snoc
          · exact .recorded last_snoc
    · have hbad : current.spiMessageID = [] ∨ current.spiMessageID ≠
          (received L cb at_ cor).spiMessageID := .inr hspi
      simp only [if_pos hbad]
      exact .mismatch last_snoc hbad

theorem recordSettlement_does (cb : SettlementCallback) :
    Does L (.recordSettlement cb) (SettleReturns L cb) h (recordSettlement L cb) := by
  refine (orNow_does _).bind fun h₁ at_ _ _ => ?_
  refine (orNewID_does _ _).bind fun h₂ cor _ _ => ?_
  dsimp only
  split
  · exact .invalid ‹_›
  · rename_i hne
    rw [not_or, not_or] at hne
    exact settle_does rfl hne.2.2

/-! ## `Drain` -/

theorem drainLoop_does {policy : RetryPolicy} {tok : GoString} {now u : Time}
    {limit limit' : Int} {records : List OutboxRecord} (hc : c = .drain policy limit')
    (stats : RelayStats) (done todo : List OutboxRecord)
    (hclaim : Did h (.store (.claimPendingOutbox now limit tok u)) records)
    (hbatch : h.flatMap batchOf = done ++ todo) (hcount : h.countP isPublish = done.length) :
    Does L c (fun _ _ => True) h (drainLoop policy.normalize tok stats todo) := by
  induction todo generalizing h stats done with
  | nil => trivial
  | cons record todo ih =>
    have hhand : inHand h = some record := by simp [inHand, hbatch, hcount]
    -- after the publish, the clock and the mark the next record is in hand
    have hrest : ∀ a₁ a₂ a₃, batchOf a₁ = [] → batchOf a₂ = [] → batchOf a₃ = [] →
        isPublish a₁ = true → isPublish a₂ = false → isPublish a₃ = false → ∀ stats,
        Does L c (fun _ _ => True) (h ++ [a₁] ++ [a₂] ++ [a₃])
          (drainLoop policy.normalize tok stats todo) := by
      intro a₁ a₂ a₃ h₁ h₂ h₃ p₁ p₂ p₃ stats
      refine ih stats (done ++ [record]) (((hclaim.snoc _).snoc _).snoc _) ?_ ?_
      · simp [h₁, h₂, h₃, hbatch]
      · simp [p₁, p₂, p₃, hcount]
    refine does_perform (.publish hhand) fun i r _ => ?_
    cases r with
    | error e =>
      refine does_perform .now fun i₂ at_ _ => ?_
      refine does_storeCall (.markFailed hc ((hclaim.snoc _).snoc _) hhand (List.append_assoc _ _ _))
        fun i₃ r₃ _ => ?_
      cases r₃ with
      | error e => trivial
      | ok _ => exact hrest _ _ _ rfl rfl rfl rfl rfl rfl _
    | ok _ =>
      refine does_perform .now fun i₂ at_ _ => ?_
      refine does_storeCall (.markPublished ((hclaim.snoc _).snoc _) hhand (List.append_assoc _ _ _))
        fun i₃ r₃ _ => ?_
      cases r₃ with
      | error e => trivial
      | ok _ => exact hrest _ _ _ rfl rfl rfl rfl rfl rfl _

theorem drain_does (policy : RetryPolicy) (limit : Int) :
    Does L (.drain policy limit) (fun _ _ => True) [] (drain policy limit) := by
  refine does_perform (.newID _) fun i₁ tok _ => does_perform .now fun i₂ at_ _ => ?_
  refine does_perform .health fun i₃ r _ => ?_
  cases r with
  | some e => trivial
  | none =>
    refine does_perform .now fun i₄ checkedAt _ => ?_
    dsimp only [Prog.bind]
    split
    · trivial
    · refine does_perform .now fun i₅ now _ => ?_
      refine does_storeCall (.outboxClaim rfl (by simp [Did]) ((((did_last.snoc _).snoc _).snoc _).snoc _)
        did_last (((did_last.snoc _).snoc _).snoc _)) fun i₆ records _ => ?_
      exact drainLoop_does rfl _ [] records did_last (by simp [batchOf]) (by simp [isPublish])

/-! ## All calls -/

theorem body_does (c : Call) : Does L c (Returns L c) [] (body L c) := by
  cases c with
  | createTransfer req =>
    exact ((createTransfer_does req).mono fun _ r _ hr => ⟨r, rfl, hr⟩).map
  | getTransfer tn id =>
    refine ⟨.getTransfer _ (Call.actsFor_tenant rfl), fun i r _ => ?_⟩
    exact ⟨r, rfl, did_last⟩
  | submitToSPI tn id cor =>
    exact (submitToSPI_does (c := .submitToSPI tn id cor) trivial (Call.actsFor_tenant rfl) id
      cor).map
  | submitPendingSPI limit => exact (submitPendingSPI_does limit).map
  | recordReview req => exact (recordReview_does req).map
  | recordSettlement cb =>
    exact ((recordSettlement_does cb).mono fun _ r _ hr => ⟨r, rfl, hr⟩).map
  | drain policy limit => exact (drain_does policy limit).map

end PixRail.Switcher
