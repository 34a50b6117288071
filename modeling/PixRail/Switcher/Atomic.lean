import PixRail.Interleave.Purge
import PixRail.Switcher.Programs
import PixRail.Switcher.Sample

/-!
# Calls that fail leave no trace

What a call of the service leaves in the store when it returns an error or an
idempotent replay.  `log` is the list of the operations of a history that can
change the store.  One lemma for each program says what its log is on a
failure: nothing, except that `SubmitToSPI` may leave its claim and the
release of it (`SubmitLog`).  A call that runs alone changes the store by its
log, and by nothing else (`alone_log`).
-/

namespace PixRail.Switcher

open Go Rail Events Store Interleave

/-! ## The log of a history -/

/-- The operation was answered in a way that can change the store. -/
def writes : Action sig Input → Bool
  | ⟨.store (.insertTransfer _ _ _), _, .ok ()⟩ => true
  | ⟨.store (.claimSPISubmission _ _ _ _), _, .ok (_, false)⟩ => true
  | ⟨.store (.recordSPISubmission _ _ _ _ _ _), _, .ok (_, false)⟩ => true
  | ⟨.store (.releaseSPISubmission _ _ _ _ _), _, .ok ()⟩ => true
  | ⟨.store (.recordReviewDecision _ _ _ _ _ _), _, .ok _⟩ => true
  | ⟨.store (.updateSettlement _ _ _ _ _), _, .ok (_, false)⟩ => true
  | ⟨.store (.claimPendingOutbox _ _ _ _), _, _⟩ => true
  | ⟨.store (.markOutboxPublished _ _ _), _, .ok ()⟩ => true
  | ⟨.store (.markOutboxFailed _ _ _ _), _, .ok ()⟩ => true
  | _ => false

/-- The operations of a history that can change the store. -/
def log (h : History) : History := h.filter writes

theorem log_quiet {a : Action sig Input} (ha : writes a = false) (h : History) :
    log (h ++ [a]) = log h := by
  simp [log, ha]

theorem log_write {a : Action sig Input} (ha : writes a = true) (h : History) :
    log (h ++ [a]) = log h ++ [a] := by
  simp [log, ha]

/-- The result is an error or an idempotent replay. -/
def Failed : Except Err Result → Prop
  | .error _ => True
  | .ok res => res.idempotentReplay = true

/-! ## The log of a program -/

/-- The program `p`, started after the history `h`, ends with a history and a
result that `Q` allows. -/
abbrev Leaves {α : Type} (Q : History → α → Prop) (h : History) (p : Code α) : Prop :=
  Prog.Obeys (fun _ _ _ => True) (fun _ _ => True) Q h p

/-- The log is still `l`. -/
abbrev Keeps (l : History) {α : Type} (h : History) (_ : α) : Prop := log h = l

/-- The log is still `l`, unless the result is a success. -/
abbrev KeepsOnFailure (l h : History) (r : Except Err Result) : Prop := Failed r → log h = l

variable {L : Lib} {h l : History}

section rules

variable {α : Type} {Q : History → α → Prop}

theorem leaves_perform {o : Op} {f : o.Ret → Code α}
    (hf : ∀ i r, Leaves Q (h ++ [⟨o, i, r⟩]) (f r)) : Leaves Q h (perform o >>= f) :=
  ⟨trivial, fun i r _ => hf i r⟩

theorem leaves_storeCall {s : StoreCall} {f : s.Ret → Code α}
    (hf : ∀ i r, Leaves Q (h ++ [⟨.store s, i, r⟩]) (f r)) : Leaves Q h (storeCall s >>= f) :=
  ⟨trivial, fun i r _ => hf i r⟩

/-- An operation that writes nothing, whatever its answer is. -/
theorem leaves_quiet {o : Op} {f : o.Ret → Code α} (hlog : log h = l)
    (ho : ∀ i r, writes ⟨o, i, r⟩ = false) (hf : ∀ h' r, log h' = l → Leaves Q h' (f r)) :
    Leaves Q h (perform o >>= f) :=
  leaves_perform fun i r => hf _ r ((log_quiet (ho i r) h).trans hlog)

end rules

theorem orNow_keeps (hlog : log h = l) (t : Time) : Leaves (Keeps l) h (orNow t) := by
  unfold orNow
  split
  · exact ⟨trivial, fun _ _ _ => (log_quiet rfl h).trans hlog⟩
  · exact hlog

theorem orNewID_keeps (hlog : log h = l) (id tag : GoString) :
    Leaves (Keeps l) h (orNewID id tag) := by
  unfold orNewID
  split
  · exact ⟨trivial, fun _ _ _ => (log_quiet rfl h).trans hlog⟩
  · exact hlog

/-! ## `CreateTransfer` -/

theorem addEvent_keeps (hlog : log h = l) (t : Transfer) (outbox : List Event) (ty : EventType)
    (p : Payload) : Leaves (Keeps l) h (addEvent L t outbox ty p) := by
  refine leaves_quiet hlog (fun _ _ => rfl) fun h₁ id hlog₁ => ?_
  refine leaves_quiet hlog₁ (fun _ _ => rfl) fun h₂ at_ hlog₂ => ?_
  split <;> exact hlog₂

theorem creationEvents_keeps (hlog : log h = l) (t : Transfer) (dict : DictEntry)
    (decision : FraudDecision) (hash : GoString) :
    Leaves (Keeps l) h (creationEvents L t dict decision hash) := by
  refine (addEvent_keeps hlog _ _ _ _).bind fun h₁ o₁ _ hlog₁ => ?_
  refine (addEvent_keeps hlog₁ _ _ _ _).bind fun h₂ o₂ _ hlog₂ => ?_
  refine (addEvent_keeps hlog₂ _ _ _ _).bind fun h₃ o₃ _ hlog₃ => ?_
  split
  · refine (addEvent_keeps hlog₃ _ _ _ _).bind fun h₄ o₄ _ hlog₄ => ?_
    exact addEvent_keeps hlog₄ _ _ _ _
  · split
    · exact addEvent_keeps hlog₃ _ _ _ _
    · split
      · exact addEvent_keeps hlog₃ _ _ _ _
      · exact hlog₃

theorem persist_keeps (hlog : log h = l) (req : CreateTransferRequest) (hash : GoString)
    (dict : DictEntry) (decision : FraudDecision) :
    Leaves (KeepsOnFailure l) h (persist L req hash dict decision) := by
  refine leaves_quiet hlog (fun _ _ => rfl) fun h₁ now hlog₁ => ?_
  refine leaves_quiet hlog₁ (fun _ _ => rfl) fun h₂ id hlog₂ => ?_
  refine (creationEvents_keeps hlog₂ _ dict decision _).bind fun h₃ evs _ hlog₃ => ?_
  refine leaves_storeCall fun i r => ?_
  split
  · exact fun hf => absurd hf Bool.false_ne_true
  · split
    · refine leaves_quiet ((log_quiet rfl h₃).trans hlog₃) (fun _ _ => rfl) fun h₄ r₄ hlog₄ => ?_
      split <;> exact fun _ => hlog₄
    · exact fun _ => (log_quiet rfl h₃).trans hlog₃

theorem decideTransfer_keeps (hlog : log h = l) (req : CreateTransferRequest) (hash : GoString) :
    Leaves (KeepsOnFailure l) h (decideTransfer L req hash) := by
  refine leaves_quiet hlog (fun _ _ => rfl) fun h₁ r₁ hlog₁ => ?_
  split
  · exact fun _ => hlog₁
  · refine leaves_quiet hlog₁ (fun _ _ => rfl) fun h₂ r₂ hlog₂ => ?_
    split
    · exact fun _ => hlog₂
    · refine leaves_quiet hlog₂ (fun _ _ => rfl) fun h₃ r₃ hlog₃ => ?_
      split
      · split <;> exact fun _ => hlog₃
      · refine leaves_quiet hlog₃ (fun _ _ => rfl) fun h₄ r₄ hlog₄ => ?_
        split
        · exact fun _ => hlog₄
        · split
          · exact persist_keeps hlog₄ _ _ _ _
          · exact fun _ => hlog₄

theorem createTransfer_keeps (hlog : log h = l) (req : CreateTransferRequest) :
    Leaves (KeepsOnFailure l) h (createTransfer L req) := by
  refine (orNow_keeps hlog _).bind fun h₁ at_ _ hlog₁ => ?_
  dsimp only
  split
  · exact fun _ => hlog₁
  · refine leaves_quiet hlog₁ (fun _ _ => rfl) fun h₂ r₂ hlog₂ => ?_
    split
    · exact fun _ => hlog₂
    · exact fun _ => hlog₂
    · exact decideTransfer_keeps hlog₂ _ _

/-! ## `RecordReview` and `RecordSettlement` -/

theorem reviewEvent_keeps (hlog : log h = l) (current : Transfer) (cor : GoString) (at_ : Time)
    (ty : EventType) (p : Payload) :
    Leaves (Keeps l) h (reviewEvent L current cor at_ ty p) :=
  leaves_quiet hlog (fun _ _ => rfl) fun _ _ hlog₁ => hlog₁

theorem writeReview_keeps (hlog : log h = l) (tn id cor reason : GoString) (at_ : Time)
    (decision : ReviewDecision) (current : Transfer) (status : TransferStatus)
    (ty next : EventType) (p : Payload) :
    Leaves (KeepsOnFailure l) h
      (writeReview L tn id cor reason at_ decision current status ty next p) := by
  refine (reviewEvent_keeps hlog _ _ _ _ _).bind fun h₁ r₁ _ hlog₁ => ?_
  split
  · exact fun _ => hlog₁
  · refine (reviewEvent_keeps hlog₁ _ _ _ _ _).bind fun h₂ r₂ _ hlog₂ => ?_
    split
    · exact fun _ => hlog₂
    · refine leaves_storeCall fun i r => ?_
      split
      · exact fun _ => (log_quiet rfl h₂).trans hlog₂
      · exact fun hf => absurd hf Bool.false_ne_true

theorem recordReview_keeps (hlog : log h = l) (req : ReviewDecisionRequest) :
    Leaves (KeepsOnFailure l) h (recordReview L req) := by
  refine (orNow_keeps hlog _).bind fun h₁ at_ _ hlog₁ => ?_
  split
  · exact fun _ => hlog₁
  · refine leaves_quiet hlog₁ (fun _ _ => rfl) fun h₂ r₂ hlog₂ => ?_
    split
    · exact fun _ => hlog₂
    · split
      · exact fun _ => hlog₂
      · dsimp only
        split
        · exact writeReview_keeps hlog₂ _ _ _ _ _ _ _ _ _ _ _
        · exact writeReview_keeps hlog₂ _ _ _ _ _ _ _ _ _ _ _
        · exact fun _ => hlog₂

theorem settle_keeps (hlog : log h = l) (callback : SettlementCallback) :
    Leaves (KeepsOnFailure l) h (settle L callback) := by
  refine leaves_quiet hlog (fun _ _ => rfl) fun h₁ r₁ hlog₁ => ?_
  split
  · exact fun _ => hlog₁
  · split
    · exact fun _ => hlog₁
    · split
      · exact fun _ => hlog₁
      · refine leaves_quiet hlog₁ (fun _ _ => rfl) fun h₂ id hlog₂ => ?_
        split
        · exact fun _ => hlog₂
        · refine leaves_storeCall fun i r => ?_
          split
          · exact fun _ => (log_quiet rfl h₂).trans hlog₂
          · exact fun _ => (log_quiet rfl h₂).trans hlog₂
          · exact fun hf => absurd hf Bool.false_ne_true

theorem recordSettlement_keeps (hlog : log h = l) (callback : SettlementCallback) :
    Leaves (KeepsOnFailure l) h (recordSettlement L callback) := by
  refine (orNow_keeps hlog _).bind fun h₁ at_ _ hlog₁ => ?_
  refine (orNewID_keeps hlog₁ _ _).bind fun h₂ cor _ hlog₂ => ?_
  dsimp only
  split
  · exact fun _ => hlog₂
  · exact settle_keeps hlog₂ _

/-! ## `SubmitToSPI` -/

/-- What a failed `SubmitToSPI` leaves in the log: nothing, its claim, or the
claim and the release.  The expiry of the claim is thirty seconds after a
clock reading of the call, the retry one second after one. -/
inductive SubmitLog (tn id : GoString) (l h : History) : Prop where
  | quiet (hlog : log h = l)
  | claimed {tok : GoString} {at_ : Time} {i : Input} {current : Transfer}
      (hnow : Did h .now at_)
      (hlog : log h = l ++ [⟨.store (.claimSPISubmission tn id tok (at_ + spiClaimTTL)), i,
        .ok (current, false)⟩])
  | released {tok e : GoString} {at_ at_' : Time} {i i' : Input} {current : Transfer}
      (hnow : Did h .now at_) (hnow' : Did h .now at_')
      (hlog : log h = l ++ [⟨.store (.claimSPISubmission tn id tok (at_ + spiClaimTTL)), i,
        .ok (current, false)⟩, ⟨.store (.releaseSPISubmission tn id tok e (at_' + second)), i',
        .ok ()⟩])

section submit

variable {tn id tok : GoString} {at_ : Time} {i : Input} {current : Transfer}

/-- The claim of the call is the only entry after `l`. -/
structure HoldsClaim (tn id tok : GoString) (at_ : Time) (i : Input) (current : Transfer)
    (l h : History) : Prop where
  now : Did h .now at_
  log : log h = l ++ [⟨.store (.claimSPISubmission tn id tok (at_ + spiClaimTTL)), i,
    .ok (current, false)⟩]

theorem HoldsClaim.snoc (hc : HoldsClaim tn id tok at_ i current l h) {a : Action sig Input}
    (ha : writes a = false) : HoldsClaim tn id tok at_ i current l (h ++ [a]) :=
  ⟨hc.now.snoc a, (log_quiet ha h).trans hc.log⟩

theorem releaseAndFail_keeps (hc : HoldsClaim tn id tok at_ i current l h) (err : Err) :
    Leaves (fun h' r => Failed r → SubmitLog tn id l h') h (releaseAndFail tn id tok err) := by
  refine leaves_perform fun i₁ now => ?_
  have hc₁ := hc.snoc (a := ⟨.now, i₁, now⟩) rfl
  refine leaves_storeCall fun i₂ r _ => ?_
  rcases r with e | ⟨⟩
  · have hc₂ := hc₁.snoc (a := ⟨.store (.releaseSPISubmission tn id tok err.text (now + second)),
      i₂, .error e⟩) rfl
    exact .claimed hc₂.now hc₂.log
  · have hlog := log_write (a := ⟨.store (.releaseSPISubmission tn id tok err.text (now + second)),
      i₂, .ok ()⟩) rfl (h ++ [⟨.now, i₁, now⟩])
    rw [hc₁.log, List.append_assoc l] at hlog
    exact .released (hc₁.now.snoc _) (did_last.snoc _) hlog

theorem spiEvent_keeps (hc : HoldsClaim tn id tok at_ i current l h) (cor : GoString)
    (ty : EventType) (p : Payload) :
    Leaves (fun h' _ => HoldsClaim tn id tok at_ i current l h') h
      (spiEvent L current cor ty p) :=
  leaves_perform fun _ _ => leaves_perform fun _ _ => (hc.snoc rfl).snoc rfl

theorem submitClaimed_keeps (hc : HoldsClaim tn id tok at_ i current l h) (cor : GoString) :
    Leaves (fun h' r => Failed r → SubmitLog tn id l h') h
      (submitClaimed L tn id tok cor current) := by
  refine leaves_perform fun i₁ r₁ => ?_
  split
  · exact releaseAndFail_keeps (hc.snoc rfl) _
  · refine (spiEvent_keeps (hc.snoc rfl) _ _ _).bind fun h₂ r₂ _ hc₂ => ?_
    split
    · exact releaseAndFail_keeps hc₂ _
    · refine (spiEvent_keeps hc₂ _ _ _).bind fun h₃ r₃ _ hc₃ => ?_
      split
      · exact releaseAndFail_keeps hc₃ _
      · refine leaves_storeCall fun i₄ r₄ => ?_
        split
        · exact fun _ => .claimed (hc₃.now.snoc _) ((log_quiet rfl h₃).trans hc₃.log)
        · exact fun _ => .claimed (hc₃.now.snoc _) ((log_quiet rfl h₃).trans hc₃.log)
        · exact fun hf => absurd hf Bool.false_ne_true

end submit

theorem submitToSPI_keeps (hlog : log h = l) (tn id cor : GoString) :
    Leaves (fun h' r => Failed r → SubmitLog (trimSpace tn) (trimSpace id) l h') h
      (submitToSPI L tn id cor) := by
  unfold submitToSPI
  dsimp only
  split
  · exact fun _ => .quiet hlog
  · refine leaves_quiet hlog (fun _ _ => rfl) fun h₁ tok hlog₁ => ?_
    refine leaves_perform fun i₂ now => leaves_storeCall fun i₃ r₃ => ?_
    have hlog₂ : log (h₁ ++ [⟨.now, i₂, now⟩]) = l := (log_quiet rfl h₁).trans hlog₁
    split
    · exact fun _ => .quiet ((log_quiet rfl _).trans hlog₂)
    · exact fun _ => .quiet ((log_quiet rfl _).trans hlog₂)
    · rename_i current
      have hlog₃ := log_write (a := ⟨.store (.claimSPISubmission (trimSpace tn) (trimSpace id) tok
        (now + spiClaimTTL)), i₃, .ok (current, false)⟩) rfl (h₁ ++ [⟨.now, i₂, now⟩])
      rw [hlog₂] at hlog₃
      exact submitClaimed_keeps ⟨did_last.snoc _, hlog₃⟩ _

/-! ## Calls that run alone -/

/-- The calls of a log, one after the other. -/
inductive StoreRun (H : Digest) (s : MemoryStore) : History → MemoryStore → Prop where
  | nil : StoreRun H s [] s
  | snoc {h : History} {s₁ s₂ : MemoryStore} {c : StoreCall} {i : Input} {r : c.Ret}
      (hrun : StoreRun H s h s₁) (hstep : storeHandle H c i s₁ = some (r, s₂)) :
      StoreRun H s (h ++ [⟨.store c, i, r⟩]) s₂

theorem StoreRun.nil_inv {H : Digest} {s s' : MemoryStore} (h : StoreRun H s [] s') : s' = s := by
  generalize hx : ([] : History) = x at h
  cases h with
  | nil => rfl
  | snoc hrun hstep => exact absurd hx (by simp)

theorem StoreRun.snoc_inv {H : Digest} {s s' : MemoryStore} {h : History} {c : StoreCall}
    {i : Input} {r : c.Ret} (hrun : StoreRun H s (h ++ [⟨.store c, i, r⟩]) s') :
    ∃ s₁, StoreRun H s h s₁ ∧ storeHandle H c i s₁ = some (r, s') := by
  generalize hx : h ++ [(⟨.store c, i, r⟩ : Action sig Input)] = x at hrun
  cases hrun with
  | nil => exact absurd hx (by simp)
  | snoc hrun hstep =>
    obtain ⟨rfl, hlast⟩ := List.append_inj' hx rfl
    cases List.singleton_inj.mp hlast
    exact ⟨_, hrun, hstep⟩

/-- An operation that changes the store is in the log. -/
theorem writes_of_storeStep {H : Digest} {s s' : MemoryStore} {i : Input} {c : StoreCall} {r : c.Ret}
    (hs : StoreStep H s i c r s') : writes ⟨.store c, i, r⟩ = true := by
  cases hs <;> rfl

variable {E : Env} {tl dl : Option E.Lim} {tr acts : Trace (switch E)} {w w' : World (switch E)}
  {cid : Nat}

/-- When only one call takes steps, the store changes by its log. -/
theorem alone_log {t : Trace (switch E)} (hrun : Run w t w') (halone : ∀ e ∈ t, e.cid = cid) :
    StoreRun E.digest w.state.store (log (hist cid t)) w'.state.store := by
  induction hrun with
  | nil => exact .nil
  | @snoc acts w₁ w₂ e hrun hstep ih =>
    have ih := ih fun e he => halone e (List.mem_append_left _ he)
    have hcid : e.cid = cid := halone e (List.mem_append_right _ List.mem_cons_self)
    cases hstep with
    | spawn c hfree =>
      rw [hist_snoc_spawn]
      exact ih
    | @act cid' c o k i r s' hthread hhandle =>
      obtain rfl : cid' = cid := hcid
      rw [hist_snoc_act_self]
      rcases handle_store hhandle with ⟨hne, he⟩ | ⟨call, r', ha, hcall⟩
      · have hquiet : writes ⟨o, i, r⟩ = false := by
          cases o with
          | store c => exact absurd rfl (hne c)
          | _ => rfl
        rw [log_quiet hquiet, World.put_state, he]
        exact ih
      · rw [ha]
        by_cases hwr : writes ⟨.store call, i, r'⟩ = true
        · rw [log_write hwr]
          exact ih.snoc hcall
        · rw [log_quiet (by simpa using hwr)]
          rcases storeHandle_cases hcall with ⟨he, -⟩ | hs
          · rw [World.put_state, he]
            exact ih
          · exact absurd (writes_of_storeStep hs) hwr

/-- What a failed `SubmitToSPI` with the history `h` leaves of its claim: the
claimed transfer `t` is `t'` now, which is accepted and can be claimed again
once the claim has run out. -/
structure ClaimLeft (h : History) (tn id : GoString) (s s' : MemoryStore) (t t' : Transfer) :
    Prop where
  found : s.transfers.lookup id = some t
  store : s' = { s with transfers := s.transfers.insert id t' }
  fields : t' = { t with
    spiClaimToken := t'.spiClaimToken
    spiClaimedUntil := t'.spiClaimedUntil
    spiSubmissionAttempts := t'.spiSubmissionAttempts
    spiLastError := t'.spiLastError
    updatedAt := t'.updatedAt }
  status : t'.status = .accepted
  expiry : ∃ tok at_ current,
    Did h .now at_ ∧
    Did h (.store (.claimSPISubmission tn id tok (at_ + 30 * second))) (.ok (current, false)) ∧
    (t'.spiClaimedUntil = some (at_ + 30 * second) ∨
      ∃ e at_', Did h .now at_' ∧
        Did h (.store (.releaseSPISubmission tn id tok e (at_' + second))) (.ok ()) ∧
        t'.spiClaimedUntil = some (at_' + second))
  claimable : ∀ until_ ∈ t'.spiClaimedUntil, ∀ tok u now, trimSpace tok ≠ [] → now < u →
    until_ ≤ now → ∃ t'', t'.claimSPISubmission tok u now = .ok t''

/-- What a failed call with the history `h` does to the store. -/
def LeftBy (h : History) : Call → MemoryStore → MemoryStore → Prop
  | .createTransfer _, s, s' => s' = s
  | .recordReview _, s, s' => s' = s
  | .recordSettlement _, s, s' => s' = s
  | .submitToSPI tn id _, s, s' =>
    s' = s ∨ ∃ t t', ClaimLeft h (trimSpace tn) (trimSpace id) s s' t t'
  | _, _, _ => True

/-- The log of a failed call. -/
def FailureLog (h : History) : Call → Prop
  | .createTransfer _ => log h = []
  | .recordReview _ => log h = []
  | .recordSettlement _ => log h = []
  | .submitToSPI tn id _ => SubmitLog (trimSpace tn) (trimSpace id) [] h
  | _ => True

theorem body_leaves (L : Lib) (c : Call) :
    Leaves (fun h out => ∀ r, out = .result r → Failed r → FailureLog h c) [] (body L c) := by
  have hmap : ∀ {p : Code (Except Err Result)} {P : History → Prop},
      Leaves (fun h r => Failed r → P h) [] p →
        Leaves (fun h out => ∀ r, out = Outcome.result r → Failed r → P h) [] (Outcome.result <$> p) := by
    intro p P hp
    refine Prog.Obeys.map (hp.mono fun h r _ hq r' hr' hf => hq ?_)
    rwa [Outcome.result.inj hr']
  cases c with
  | createTransfer req => exact hmap (createTransfer_keeps (h := []) (l := []) rfl req)
  | recordReview req => exact hmap (recordReview_keeps (h := []) (l := []) rfl req)
  | recordSettlement cb => exact hmap (recordSettlement_keeps (h := []) (l := []) rfl cb)
  | submitToSPI tn id cor => exact hmap (submitToSPI_keeps (h := []) (l := []) rfl tn id cor)
  | getTransfer _ _ | submitPendingSPI _ | drain _ _ =>
    exact .of_forall (fun _ _ => trivial) (fun _ _ _ _ _ => trivial) _ _

/-- An accepted transfer can be claimed once its claim has run out. -/
theorem claimable_again {t : Transfer} (hst : t.status = .accepted) :
    ∀ until_ ∈ t.spiClaimedUntil, ∀ tok u now, trimSpace tok ≠ [] → now < u → until_ ≤ now →
      ∃ t', t.claimSPISubmission tok u now = .ok t' := by
  intro until_ huntil tok u now htok hu hle
  refine ⟨_, Transfer.claimSPISubmission_eq_ok.mpr ⟨htok, hu, hst, ?_, rfl⟩⟩
  intro v hv
  obtain rfl := Option.some.inj (huntil.symm.trans hv)
  exact hle

/-- A transfer after a claim. -/
theorem claim_left {H : Digest} {s s' : MemoryStore} (hk : s.Keyed) {h : History}
    {tn id tok : GoString} {at_ : Time} {i : Input} {current : Transfer}
    (hnow : Did h .now at_)
    (hdid : Did h (.store (.claimSPISubmission tn id tok (at_ + 30 * second))) (.ok (current, false)))
    (hstep : storeHandle H (.claimSPISubmission tn id tok (at_ + 30 * second)) i s =
      some (.ok (current, false), s')) :
    ∃ t, ClaimLeft h tn id s s' t current := by
  rcases storeHandle_cases hstep with ⟨-, hidle⟩ | hs
  · exact absurd rfl (hidle current)
  · cases hs with
    | @claimed _ _ _ _ t _ hctx hfind hclaim =>
      obtain ⟨hl, -⟩ := MemoryStore.owned_eq_some.mp hfind
      obtain ⟨-, -, hst, -, rfl⟩ := Transfer.claimSPISubmission_eq_ok.mp hclaim
      obtain rfl : t.id = id := hk _ _ hl
      exact ⟨t, hl, rfl, rfl, hst, ⟨tok, at_, _, hnow, hdid, .inl rfl⟩, claimable_again hst⟩

/-- A transfer after the release of its claim, successful or not. -/
theorem release_left {H : Digest} {s s₁ s' : MemoryStore} (hk : s.Keyed) {h : History}
    {tn id tok e : GoString} {at_ at_' : Time} {i : Input} {t current : Transfer}
    (hleft : ClaimLeft h tn id s s₁ t current)
    (hclaim : Did h (.store (.claimSPISubmission tn id tok (at_ + 30 * second)))
      (.ok (current, false)))
    (hnow : Did h .now at_) (hnow' : Did h .now at_')
    (hrelease : Did h (.store (.releaseSPISubmission tn id tok e (at_' + second))) (.ok ()))
    (hstep : storeHandle H (.releaseSPISubmission tn id tok e (at_' + second)) i s₁ =
      some (.ok (), s')) : ∃ t', ClaimLeft h tn id s s' t t' := by
  rcases storeHandle_cases hstep with ⟨rfl, -⟩ | hs
  · exact ⟨current, hleft⟩
  · have hid : current.id = id := (congrArg Transfer.id hleft.fields).trans
      (hk id t hleft.found)
    generalize hr : at_' + second = retryAt at hs
    cases hs with
    | @released _ _ _ _ _ t₁ t' hctx hfind happ hrel =>
      obtain ⟨hl₁, -⟩ := MemoryStore.owned_eq_some.mp hfind
      rw [hleft.store, Finmap.lookup_insert] at hl₁
      obtain rfl := Option.some.inj hl₁
      obtain ⟨-, -, ht'⟩ := (Transfer.releaseSPISubmission_eq_ok happ).mp hrel
      have hst : t'.status = .accepted := by
        rw [ht']
        exact hleft.status
      have huntil : t'.spiClaimedUntil = some (at_' + second) := by
        rw [ht', hr]
      refine ⟨t', hleft.found, ?_, ?_, hst, ⟨tok, at_, current, hnow, hclaim, .inr
        ⟨e, at_', hnow', hrelease, huntil⟩⟩, claimable_again hst⟩
      · rw [ht']
        show ({ s₁ with transfers := s₁.transfers.insert current.id _ } : MemoryStore) = _
        rw [hid, hleft.store]
        simp only [Finmap.insert_insert]
      · rw [ht', hleft.fields]

/-- A call of the service that runs alone from a reachable state, and returns
an error or a replay, leaves the store as it was; `SubmitToSPI` may leave its
claim. -/
theorem failed_call_atomic (h : Runs E tl dl tr w) {c : Call}
    (hrun : Run w (spawnEv cid c :: acts) w') (halone : ∀ e ∈ acts, e.cid = cid)
    {r : Except Err Result} (hret : Returned w' cid c (.result r)) (hfail : Failed r) :
    LeftBy (hist cid acts) c w.state.store w'.state.store := by
  have hall := h.append hrun
  have hhist : hist cid (tr ++ spawnEv cid c :: acts) = hist cid acts := by
    rw [hist_append, hall.hist_eq_nil_of_spawn List.mem_cons_self]
    rfl
  have hlog : FailureLog (hist cid acts) c := by
    have hob := hall.obeys_thread hret (body_leaves E.toLib c) fun _ _ => trivial
    rw [hhist] at hob
    exact hob r rfl hfail
  have hstore : StoreRun E.digest w.state.store (log (hist cid acts)) w'.state.store :=
    alone_log (t := spawnEv cid c :: acts) hrun (List.forall_mem_cons.mpr ⟨rfl, halone⟩)
  cases c with
  | createTransfer req | recordReview req | recordSettlement cb =>
    rw [show log _ = [] from hlog] at hstore
    exact hstore.nil_inv
  | getTransfer _ _ | submitPendingSPI _ | drain _ _ => trivial
  | submitToSPI tn id cor =>
    have hk := runs_keyed h
    have hmem : ∀ a ∈ log (hist cid acts), a ∈ hist cid acts := fun a => List.mem_of_mem_filter
    cases hlog with
    | quiet hlog =>
      rw [hlog] at hstore
      exact .inl hstore.nil_inv
    | @claimed tok at_ i current hnow hlog =>
      rw [hlog] at hstore hmem
      obtain ⟨s₁, hs₁, hstep⟩ := hstore.snoc_inv
      obtain rfl := hs₁.nil_inv
      obtain ⟨t, hleft⟩ := claim_left hk hnow ⟨i, hmem _ List.mem_cons_self⟩ hstep
      exact .inr ⟨t, current, hleft⟩
    | @released tok e at_ at_' i i' current hnow hnow' hlog =>
      rw [hlog] at hstore hmem
      have hdid : Did (hist cid acts) (.store (.claimSPISubmission (trimSpace tn) (trimSpace id) tok
          (at_ + 30 * second))) (.ok (current, false)) := ⟨i, hmem _ List.mem_cons_self⟩
      obtain ⟨s₂, hs₂, hrelease⟩ := StoreRun.snoc_inv (h := [_]) hstore
      obtain ⟨s₁, hs₁, hclaim⟩ := StoreRun.snoc_inv (h := []) hs₂
      obtain rfl := hs₁.nil_inv
      obtain ⟨t, hleft⟩ := claim_left hk hnow hdid hclaim
      exact .inr ⟨t, release_left hk hleft hdid hnow hnow'
        ⟨i', hmem _ (List.mem_cons_of_mem _ List.mem_cons_self)⟩ hrelease⟩

/-! ## A submission that the SPI refuses -/

set_option maxRecDepth 20000 in
theorem created_isSome :
    ((World.init (State.initial sampleEnv none none)).exec createLabels).isSome := by
  decide +kernel

/-- The trace and the world after the sample request. -/
def created : Trace (switch sampleEnv) × World (switch sampleEnv) :=
  World.ran _ createLabels created_isSome

/-- The submission of the sample transfer. -/
def sampleSubmit : Call := .submitToSPI (go "tenant-a") sampleID []

/-- The world in which the submission has started. -/
def submitting : World (switch sampleEnv) :=
  created.2.put created.2.state 1 ⟨sampleSubmit, body sampleEnv.toLib sampleSubmit⟩

/-- The SPI is down.  The claim is given back two seconds later. -/
def refusedLabels : List (Label (switch sampleEnv)) :=
  [.step 1 (draw newYear 7), .step 1 (tick newYear), .step 1 (tick newYear),
    .step 1 { now := newYear, answer := .spi (.error ⟨[], go "spi down"⟩) },
    .step 1 (tick (newYear + 2 * second)), .step 1 (tick (newYear + 2 * second))]

set_option maxRecDepth 20000 in
theorem refused_isSome : (submitting.exec refusedLabels).isSome := by
  decide +kernel

/-- The trace and the world of the refused submission. -/
def refused : Trace (switch sampleEnv) × World (switch sampleEnv) :=
  submitting.ran refusedLabels refused_isSome

/-- The refused submission leaves the transfer accepted, unclaimed, and due
for a retry one second after the release. -/
theorem failed_call_atomic_refused :
    (refused.2.result 1).bind failure = some ⟨[], go "spi down"⟩ ∧
      (refused.2.state.store.transfers.lookup sampleID).map
          (fun t => (t.status, t.spiClaimToken, t.spiClaimedUntil, t.spiLastError)) =
        some (.accepted, [], some (newYear + 3 * second), go "spi down") ∧
      LeftBy (hist 1 refused.1) sampleSubmit created.2.state.store refused.2.state.store := by
  have hfailure : (refused.2.result 1).bind failure = some ⟨[], go "spi down"⟩ := by
    decide +kernel
  refine ⟨hfailure, by decide +kernel, ?_⟩
  have hruns : Runs sampleEnv none none created.1 created.2 := World.run_ran _ _ _
  have hfree : created.2.threads 1 = none := Option.isNone_iff_eq_none.mp (by decide +kernel)
  have hspawn : Step created.2 (spawnEv 1 sampleSubmit) submitting := .spawn sampleSubmit hfree
  have hrun : Run created.2 (spawnEv 1 sampleSubmit :: refused.1) refused.2 :=
    (Run.nil.snoc hspawn).append (World.run_ran submitting refusedLabels refused_isSome)
  obtain ⟨out, hout, hfail⟩ := Option.bind_eq_some_iff.mp hfailure
  obtain ⟨c, hth⟩ := World.result_eq_some hout
  obtain ⟨p, hp⟩ := (hruns.append hrun).thread_of_spawn (c := sampleSubmit)
    (List.mem_append_right _ List.mem_cons_self)
  obtain rfl : sampleSubmit = c := congrArg Thread.call (Option.some.inj (hp.symm.trans hth))
  rcases out with (err | res) | _ | _ | _
  · exact failed_call_atomic hruns hrun (by decide +kernel) hth trivial
  all_goals exact absurd hfail (by simp [failure])

end PixRail.Switcher
