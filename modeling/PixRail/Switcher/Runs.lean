import PixRail.Store.Writes
import PixRail.Switcher.Programs

/-!
# Runs of the switch

The contract of the switch (`contract`) and the rule by which every
invariant of the store is proved (`store_invariant`): the invariant holds of
the empty store, it does not depend on what leaves the store as it is, and
every allowed write keeps it.
-/

namespace PixRail.Switcher

open Go Rail Events Store Interleave

/-! ## Answers -/

theorem getTransfer_ens {s : MemoryStore} (hk : s.Keyed) {tn id : GoString} {t : Transfer}
    (h : s.getTransfer tn id = .ok t) : t.id = id ∧ t.tenantID = tn := by
  unfold MemoryStore.getTransfer at h
  split at h
  · exact absurd h (by simp)
  · rename_i t' hfind
    obtain ⟨hl, hten⟩ := MemoryStore.owned_eq_some.mp hfind
    rw [Except.ok.injEq] at h
    subst h
    exact ⟨hk _ _ hl, hten⟩

theorem findByIdempotency_ens {s : MemoryStore} {ctx : Ctx} {tn key : GoString} {e : Err}
    (h : s.findByIdempotency ctx tn key = .error e) : ¬ e.is .conflict := by
  unfold MemoryStore.findByIdempotency at h
  split at h
  · rename_i err
    rw [Except.error.injEq] at h
    rw [← h]
    exact err.not_conflict
  · split at h <;> exact absurd h (by simp)

theorem claimLoop_token (now : Time) (tok : GoString) (u : Time) (left : Nat)
    (l : List OutboxRecord) :
    ∀ rec ∈ (MemoryStore.claimLoop now tok u left l).2, rec.claimToken = tok := by
  induction l generalizing left with
  | nil => simp [MemoryStore.claimLoop]
  | cons rec l ih =>
    simp only [MemoryStore.claimLoop]
    split
    · split
      · simp
      · intro rec' hrec'
        rcases List.mem_cons.mp hrec' with rfl | hrec'
        · rfl
        · exact ih _ rec' hrec'
    · exact ih _

theorem claimSPISubmission_ens {H : Digest} {s s' : MemoryStore} {i : Input} (hk : s.Keyed)
    {tn id tok : GoString} {u : Time} {t : Transfer}
    (h : storeHandle H (.claimSPISubmission tn id tok u) i s = some (.ok (t, false), s')) :
    t.id = id ∧ t.tenantID = tn ∧ t.spiClaimToken = tok ∧ t.status = .accepted := by
  rcases storeHandle_cases h with ⟨-, hidle⟩ | hstep
  · exact absurd rfl (hidle t)
  · cases hstep with
    | claimed hctx hfind hclaim =>
      obtain ⟨hl, hten⟩ := MemoryStore.owned_eq_some.mp hfind
      have hid := hk _ _ hl
      obtain ⟨-, -, hst, -, rfl⟩ := Transfer.claimSPISubmission_eq_ok.mp hclaim
      exact ⟨hid, hten, rfl, hst⟩

theorem storeHandle_ens {H : Digest} {s s' : MemoryStore} {i : Input} (hk : s.Keyed)
    {c : StoreCall} {r : c.Ret} (h : storeHandle H c i s = some (r, s')) :
    Ens (.store c) i r := by
  cases c with
  | findByIdempotency tn key =>
    obtain ⟨rfl, rfl⟩ := Prod.mk.inj (Option.some.inj h)
    exact fun e he => findByIdempotency_ens he
  | getTransfer tn id =>
    obtain ⟨rfl, rfl⟩ := Prod.mk.inj (Option.some.inj h)
    exact fun t ht => getTransfer_ens hk ht
  | claimSPISubmission tn id tok u =>
    intro t ht
    subst ht
    exact claimSPISubmission_ens hk h
  | claimPendingOutbox now limit tok u =>
    obtain ⟨rfl, rfl⟩ := Prod.mk.inj (Option.some.inj h)
    intro rec hrec
    exact claimLoop_token now tok u _ s.events rec ((List.mem_insertionSort _).mp hrec)
  | _ => trivial

/-- What an operation does to the store: nothing, or what the store call
does. -/
theorem handle_store {E : Env} {o : Op} {i : Input} {s s' : State E} {r : o.Ret}
    (h : handle E o i s = some (r, s')) :
    ((∀ c, o ≠ .store c) ∧ s'.store = s.store) ∨
      ∃ c r', (⟨o, i, r⟩ : Action sig Input) = ⟨.store c, i, r'⟩ ∧
        storeHandle E.digest c i s.store = some (r', s'.store) := by
  cases o with
  | store c =>
    right
    simp only [handle] at h
    split at h
    · rename_i r' store hstore
      obtain ⟨rfl, rfl⟩ := Prod.mk.inj (Option.some.inj h)
      exact ⟨c, r', rfl, hstore⟩
    · exact absurd h (by simp)
  | newID tag =>
    left
    simp only [handle] at h
    split at h
    · split at h
      · obtain ⟨-, rfl⟩ := Prod.mk.inj (Option.some.inj h)
        exact ⟨by simp, rfl⟩
      · exact absurd h (by simp)
    · exact absurd h (by simp)
  | now | health | tenantAllow key | dictAllow key =>
    obtain ⟨-, rfl⟩ := Prod.mk.inj (Option.some.inj h)
    exact .inl ⟨by simp, rfl⟩
  | resolve tn key ty | score req dict | submit t | publish e =>
    left
    simp only [handle] at h
    split at h
    · obtain ⟨-, rfl⟩ := Prod.mk.inj (Option.some.inj h)
      exact ⟨by simp, rfl⟩
    · exact absurd h (by simp)

theorem newID_ens {tag : GoString} (now : Time) (bytes : Option (List UInt8)) :
    tag ++ go "_" <+: newID tag now bytes := by
  cases bytes <;> exact List.prefix_append _ _

theorem handle_ens {E : Env} {o : Op} {i : Input} {s s' : State E} {r : o.Ret}
    (hk : s.store.Keyed) (h : handle E o i s = some (r, s')) : Ens o i r := by
  cases o with
  | store c =>
    simp only [handle] at h
    split at h
    · rename_i r' store hstore
      obtain ⟨rfl, rfl⟩ := Prod.mk.inj (Option.some.inj h)
      exact storeHandle_ens hk hstore
    · exact absurd h (by simp)
  | now =>
    obtain ⟨rfl, -⟩ := Prod.mk.inj (Option.some.inj h)
    rfl
  | newID tag =>
    simp only [handle] at h
    split at h
    · split at h
      · obtain ⟨rfl, -⟩ := Prod.mk.inj (Option.some.inj h)
        exact newID_ens _ _
      · exact absurd h (by simp)
    · exact absurd h (by simp)
  | _ => trivial

/-! ## The contract of the switch -/

theorem newMemoryStore_keyed : newMemoryStore.Keyed := by
  intro id t h
  simp [newMemoryStore] at h

theorem handle_keyed {E : Env} {o : Op} {i : Input} {s s' : State E} {r : o.Ret}
    (hk : s.store.Keyed) (h : handle E o i s = some (r, s')) : s'.store.Keyed := by
  rcases handle_store h with ⟨-, he⟩ | ⟨c, r', -, hc⟩
  · rwa [he]
  · rcases storeHandle_cases hc with ⟨he, -⟩ | hstep
    · rwa [he]
    · exact hstep.keyed hk

section runs

variable {E : Env} {tl dl : Option E.Lim} {tr : Trace (switch E)} {w : World (switch E)}

/-- A run of the switch from its start. -/
abbrev Runs (E : Env) (tl dl : Option E.Lim) (tr : Trace (switch E)) (w : World (switch E)) :
    Prop :=
  Run (.init (State.initial E tl dl)) tr w

/-- The entry for the start of call `cid`. -/
abbrev spawnEv (cid : Nat) (c : Call) : Ev (switch E) := .spawn cid c

/-- The entry for an operation of call `cid`. -/
abbrev actEv (cid : Nat) (o : Op) (i : Input) (r : o.Ret) : Ev (switch E) := .act cid ⟨o, i, r⟩

theorem runs_keyed (h : Runs E tl dl tr w) : w.state.store.Keyed := by
  induction h with
  | nil => exact newMemoryStore_keyed
  | snoc _ hstep ih =>
    cases hstep with
    | spawn c hfree => exact ih
    | act hthread hhandle => exact handle_keyed ih hhandle

def contract (E : Env) (tl dl : Option E.Lim) :
    Contract (switch E) (State.initial E tl dl) where
  ens := Ens
  allows := Allows E.toLib
  returns := Returns E.toLib
  obeys := body_does
  sound := fun h => handle_ens (runs_keyed h)

/-- What a call may rely on for an operation it did. -/
theorem ens_of_did (h : Runs E tl dl tr w) {cid : Nat} {o : Op} {r : o.Ret}
    (hd : Did (hist cid tr) o r) : ∃ i, Ev.act cid ⟨o, i, r⟩ ∈ tr ∧ Ens o i r := by
  obtain ⟨i, hi⟩ := hd
  have hmem := mem_hist.mp hi
  exact ⟨i, hmem, (contract E tl dl).ens_of_mem h hmem⟩

/-- Every operation a call did is one that its contract allows. -/
theorem allows_of_did (h : Runs E tl dl tr w) {cid : Nat} {c : Call} (hc : spawnEv cid c ∈ tr)
    {o : Op} {r : o.Ret} (hd : Did (hist cid tr) o r) : ∃ h₀, Allows E.toLib c h₀ o := by
  obtain ⟨i, hi⟩ := hd
  obtain ⟨t₁, t₂, rfl⟩ := List.append_of_mem (mem_hist.mp hi)
  obtain ⟨c', hc', hallow⟩ := (contract E tl dl).allows_at h
  obtain rfl := h.spawn_unique hc (List.mem_append_left _ hc')
  exact ⟨_, hallow⟩

/-- An entry of a trace that leaves the store as it is. -/
def Quiet : Ev (switch E) → Prop
  | .act _ ⟨.store c, _, r⟩ => Idle c r
  | _ => True

/-- The rule for invariants of the store. -/
theorem store_invariant {I : Trace (switch E) → MemoryStore → Prop}
    (hinit : I [] newMemoryStore)
    (hquiet : ∀ {tr w e w'}, Runs E tl dl tr w → I tr w.state.store → Step w e w' → Quiet e →
      w'.state.store = w.state.store → I (tr ++ [e]) w.state.store)
    (hwrite : ∀ {tr w cid c call i r s'}, Runs E tl dl tr w → I tr w.state.store →
      Ev.spawn cid c ∈ tr → Allows E.toLib c (hist cid tr) (.store call) →
      StoreStep E.digest w.state.store i call r s' →
      I (tr ++ [.act cid ⟨.store call, i, r⟩]) s')
    (h : Runs E tl dl tr w) : I tr w.state.store := by
  induction h with
  | nil => exact hinit
  | snoc hrun hstep ih =>
    cases hstep with
    | spawn c hfree =>
      rw [World.put_state]
      exact hquiet hrun ih (.spawn c hfree) trivial rfl
    | @act cid c o k i r s' hthread hhandle =>
      have hstep := Step.act hthread hhandle
      rcases handle_store hhandle with ⟨hno, he⟩ | ⟨call, r', ha, hcall⟩
      · rw [World.put_state, he]
        refine hquiet hrun ih hstep ?_ he
        cases o with
        | store c => exact absurd rfl (hno c)
        | _ => trivial
      · obtain ⟨c', hc', hallow⟩ := (contract E tl dl).allows_of_step hrun hstep
        rw [ha] at hallow hstep ⊢
        rcases storeHandle_cases hcall with ⟨he, hidle⟩ | hwr
        · rw [World.put_state, he]
          exact hquiet hrun ih hstep hidle he
        · exact hwrite hrun ih hc' hallow hwr

theorem newMemoryStore_filed : newMemoryStore.Filed := by
  constructor
  · intro id t h
    simp [newMemoryStore] at h
  · intro key id h
    simp [newMemoryStore] at h

theorem runs_filed (h : Runs E tl dl tr w) : w.state.store.Filed := by
  refine store_invariant (I := fun _ s => s.Filed) newMemoryStore_filed
    (fun _ hf _ _ _ => hf) ?_ h
  intro tr w cid c call i r s' hrun hf _ _ hs
  exact hs.filed (runs_keyed hrun) hf

/-! ## Facts that stay -/

/-- What a step of a store call answers. -/
theorem step_store {cid : Nat} {c : StoreCall} {i : Input} {r : c.Ret}
    {w' : World (switch E)} (hstep : Step w (.act cid ⟨.store c, i, r⟩) w') :
    storeHandle E.digest c i w.state.store = some (r, w'.state.store) := by
  cases hstep with
  | act hthread hhandle =>
    simp only [handle] at hhandle
    split at hhandle
    · rename_i r' store hstore
      obtain ⟨rfl, rfl⟩ := Prod.mk.inj (Option.some.inj hhandle)
      exact hstore
    · exact absurd hhandle (by simp)

/-- A fact that every write keeps holds from then on. -/
theorem runs_stable {P : MemoryStore → Prop}
    (hP : ∀ {tr w i c s'} {r : c.Ret}, Runs E tl dl tr w → P w.state.store →
      StoreStep E.digest w.state.store i c r s' → P s')
    {t₁ t₂ : Trace (switch E)} {w₁ w₂ : World (switch E)} (h₁ : Runs E tl dl t₁ w₁)
    (h₂ : Run w₁ t₂ w₂) (hp : P w₁.state.store) : P w₂.state.store := by
  induction h₂ with
  | nil => exact hp
  | snoc hrun hstep ih =>
    have hall := h₁.append hrun
    cases hstep with
    | spawn c hfree => exact ih
    | act hthread hhandle =>
      rcases handle_store hhandle with ⟨-, he⟩ | ⟨call, r', -, hcall⟩
      · rwa [World.put_state, he]
      · rcases storeHandle_cases hcall with ⟨he, -⟩ | hwr
        · rwa [World.put_state, he]
        · exact hP hall ih hwr

/-- The step of an entry of the trace. -/
theorem runs_at {t₁ t₂ : Trace (switch E)} {e : Ev (switch E)}
    (h : Runs E tl dl (t₁ ++ e :: t₂) w) :
    ∃ w₁ w₂, Runs E tl dl t₁ w₁ ∧ Step w₁ e w₂ ∧ Runs E tl dl (t₁ ++ [e]) w₂ ∧
      Run w₂ t₂ w := by
  obtain ⟨w₁, w₂, h₁, hstep, h₂⟩ := h.at_entry
  exact ⟨w₁, w₂, h₁, hstep, h₁.snoc hstep, h₂⟩

/-- The outbox of every run is numbered from one, in append order. -/
theorem runs_numbered (h : Runs E tl dl tr w) : w.state.store.Numbered := by
  refine store_invariant (I := fun _ s => s.Numbered) ⟨rfl, rfl⟩
    (fun _ hn _ _ _ => hn) ?_ h
  intro tr w cid c call i r s' _ hn _ _ hs
  exact hs.numbered hn

/-! ## Assumptions on runs -/

/-- The identifier that an entry of a trace drew. -/
def drawnID : Ev (switch E) → Option GoString
  | .act _ ⟨.newID _, _, r⟩ => some r
  | _ => none

/-- The identifiers drawn along a trace. -/
def newIDs (tr : Trace (switch E)) : List GoString := tr.filterMap drawnID

/-- The clock reading of an operation. -/
def clock : Ev (switch E) → Option Time
  | .act _ a => some a.inp.now
  | .spawn _ _ => none

/-- The clock that the calls share does not go back. -/
def Clocked (tr : Trace (switch E)) : Prop := (tr.filterMap clock).Pairwise (· ≤ ·)

instance (tr : Trace (switch E)) : Decidable (Clocked tr) :=
  inferInstanceAs (Decidable ((tr.filterMap clock).Pairwise (· ≤ ·)))

/-- No call names a tenant with a colon in its id. -/
def ColonFree (tr : Trace (switch E)) : Prop :=
  ∀ cid c, spawnEv cid c ∈ tr → ∀ tn ∈ c.tenant, 58 ∉ tn

/-- The transfer and the message id of a successful submission. -/
def submissionOf : Ev (switch E) → Option (GoString × GoString)
  | .act _ ⟨.submit t, _, .ok m⟩ => some (t.id, m.messageID)
  | _ => none

/-- The successful submissions of a trace. -/
def submissions (tr : Trace (switch E)) : List (GoString × GoString) :=
  tr.filterMap submissionOf

/-- The SPI gives no message id to two transfers. -/
def SPIDistinct (tr : Trace (switch E)) : Prop :=
  ∀ p ∈ submissions tr, ∀ q ∈ submissions tr, p.2 = q.2 → p.1 = q.1

instance (tr : Trace (switch E)) : Decidable (SPIDistinct tr) :=
  inferInstanceAs (Decidable (∀ p ∈ submissions tr, ∀ q ∈ submissions tr, p.2 = q.2 → p.1 = q.1))

theorem mem_submissions {cid : Nat} {t : Transfer} {i : Input} {m : SPIMessage}
    (h : actEv cid (.submit t) i (.ok m) ∈ tr) : (t.id, m.messageID) ∈ submissions tr :=
  List.mem_filterMap.mpr ⟨_, h, rfl⟩

theorem SPIDistinct.mono {tr' : Trace (switch E)} (h : SPIDistinct tr') (hsub : tr ⊆ tr') :
    SPIDistinct tr := by
  have hmem : submissions tr ⊆ submissions tr' := List.filterMap_subset submissionOf hsub
  exact fun p hp q hq => h p (hmem hp) q (hmem hq)

theorem ColonFree.mono {tr' : Trace (switch E)} (h : ColonFree tr') (hsub : tr ⊆ tr') :
    ColonFree tr :=
  fun cid c hc => h cid c (hsub hc)

/-- The call of an entry that starts one. -/
def startedCall : Ev (switch E) → Option Call
  | .spawn _ c => some c
  | .act _ _ => none

theorem colonFree_iff (tr : Trace (switch E)) :
    ColonFree tr ↔ ∀ e ∈ tr, ∀ c ∈ startedCall e, ∀ tn ∈ c.tenant, 58 ∉ tn := by
  constructor
  · intro h e he c hc
    rcases e with ⟨cid, c'⟩ | ⟨cid, a⟩
    · obtain rfl := Option.some.inj hc
      exact h cid _ he
    · exact absurd hc (by simp [startedCall])
  · intro h cid c hc
    exact h _ hc c rfl

instance (tr : Trace (switch E)) : Decidable (ColonFree tr) :=
  decidable_of_iff _ (colonFree_iff tr).symm

/-- Distinct identifiers were drawn by one call. -/
theorem drawn_unique (hids : (newIDs tr).Nodup) {cid cid' : Nat} {tag tag' x : GoString}
    {i i' : Input} (h : actEv cid (.newID tag) i x ∈ tr)
    (h' : actEv cid' (.newID tag') i' x ∈ tr) : cid = cid' := by
  have he := eq_of_nodup_filterMap hids h h' rfl rfl
  injection he

/-- Call `cid` has returned. -/
def Returned (w : World (switch E)) (cid : Nat) (c : Call) (out : Outcome) : Prop :=
  w.threads cid = some ⟨c, .ret out⟩

/-! ## The log of the writes -/

/-- The events that an entry of a trace wrote. -/
def written : Ev (switch E) → List Event
  | .act _ ⟨.store c, _, r⟩ => if c.wrote r then c.outbox else []
  | _ => []

/-- The audit records that an entry of a trace wrote. -/
def audited : Ev (switch E) → List AuditRecord
  | .act _ ⟨.store c, _, r⟩ => if c.wrote r then c.audit else []
  | _ => []

theorem Quiet.written_eq {e : Ev (switch E)} (h : Quiet e) : written e = [] := by
  rcases e with ⟨cid, c⟩ | ⟨cid, o, i, r⟩
  · rfl
  · cases o with
    | store c => exact if_neg (by rw [Idle.not_wrote h]; exact Bool.false_ne_true)
    | _ => rfl

theorem Quiet.audited_eq {e : Ev (switch E)} (h : Quiet e) : audited e = [] := by
  rcases e with ⟨cid, c⟩ | ⟨cid, o, i, r⟩
  · rfl
  · cases o with
    | store c => exact if_neg (by rw [Idle.not_wrote h]; exact Bool.false_ne_true)
    | _ => rfl

/-- The outbox and the audit log hold what the writes of the run handed over,
in the order of the writes. -/
theorem runs_written (h : Runs E tl dl tr w) :
    w.state.store.events.map (·.event) = tr.flatMap written ∧
      w.state.store.audit = tr.flatMap audited := by
  refine store_invariant (I := fun tr s => s.events.map (·.event) = tr.flatMap written ∧
    s.audit = tr.flatMap audited) ⟨rfl, rfl⟩ ?_ ?_ h
  · intro tr w e w' _ hi _ hq _
    simpa [List.flatMap_append, hq.written_eq, hq.audited_eq] using hi
  · intro tr w cid c call i r s' _ hi _ _ hs
    rw [hs.events_eq, hs.audit_eq, hi.1, hi.2, List.flatMap_append, List.flatMap_append]
    rcases hs.wrote with hw | ⟨ho, ha⟩
    · simp [written, audited, hw]
    · simp [written, audited, ho, ha]

end runs

end PixRail.Switcher
