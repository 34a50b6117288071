import PixRail.Outbox.Records
import PixRail.Switcher.Sample

/-!
# Delivery of the outbox

Any number of relays drain one store, stop anywhere and outlive their
claims, while other calls append records.  The claim on each record is a
fenced lease (`runs_outboxLease`) whose workers are the drains.  From it
follow the guarantees of `Delivers`: what is marked published was published,
the mark is final, no two claims on a record are open at once, and only the
drain of the latest claim can mark a record.
-/

namespace PixRail.Outbox

open Go Rail Events Store Interleave Switcher MemoryStore Messaging

variable {E : Env} {tl dl : Option E.Lim} {tr : Trace (switch E)} {w : World (switch E)}
  {seq : Int}

/-- What an entry of a trace does to the claim on record `seq`. -/
def outboxEv (seq : Int) : Ev (switch E) → Option (Lease.Ev Worker Time)
  | .act cid ⟨.store c, _, r⟩ => touch cid seq c r
  | _ => none

/-- The log of the claims on record `seq`. -/
def outboxLog (seq : Int) (tr : Trace (switch E)) : List (Lease.Ev Worker Time) :=
  tr.filterMap (outboxEv seq)

theorem outboxLog_snoc (e : Ev (switch E)) :
    outboxLog seq (tr ++ [e]) = outboxLog seq tr ++ (outboxEv seq e).toList := by
  cases he : outboxEv seq e <;> simp [outboxLog, he]

/-- The token of a claim of the outbox. -/
def claimTokenOf : Ev (switch E) → Option GoString
  | .act _ ⟨.store (.claimPendingOutbox _ _ tok _), _, _⟩ => some tok
  | _ => none

/-- The tokens of the claims of the outbox. -/
def claimTokens (tr : Trace (switch E)) : List GoString := tr.filterMap claimTokenOf

theorem nodup_claimTokens_left {t₁ t₂ : Trace (switch E)} (h : (claimTokens (t₁ ++ t₂)).Nodup) :
    (claimTokens t₁).Nodup := by
  rw [claimTokens, List.filterMap_append] at h
  exact (List.nodup_append.mp h).1

/-! ## The drains behind the log -/

theorem outboxEv_claim {e : Ev (switch E)} {k : Worker} {now u : Time}
    (h : outboxEv seq e = some (.claim k now u)) :
    ∃ limit i records, e = actEv k.1 (.store (.claimPendingOutbox now limit k.2 u)) i records ∧
      ∃ record ∈ records, record.sequence = seq := by
  unfold outboxEv at h
  split at h
  · unfold touch at h
    split at h
    · obtain ⟨hmem, he⟩ := Option.ite_none_right_eq_some.mp h
      rw [Option.some.injEq, Lease.Ev.claim.injEq] at he
      obtain ⟨rfl, rfl, rfl⟩ := he
      exact ⟨_, _, _, rfl, hmem⟩
    · obtain ⟨-, he⟩ := Option.ite_none_right_eq_some.mp h
      exact absurd he (by simp)
    · obtain ⟨-, he⟩ := Option.ite_none_right_eq_some.mp h
      exact absurd he (by simp)
    · exact absurd h (by simp)
  · exact absurd h (by simp)

theorem outboxEv_finish {e : Ev (switch E)} {k : Worker}
    (h : outboxEv seq e = some (.finish k)) :
    ∃ at_ i, e = actEv k.1 (.store (.markOutboxPublished seq k.2 at_)) i (.ok ()) := by
  unfold outboxEv at h
  split at h
  · unfold touch at h
    split at h
    · obtain ⟨-, he⟩ := Option.ite_none_right_eq_some.mp h
      exact absurd he (by simp)
    · obtain ⟨rfl, he⟩ := Option.ite_none_right_eq_some.mp h
      rw [Option.some.injEq, Lease.Ev.finish.injEq] at he
      subst he
      exact ⟨_, _, rfl⟩
    · obtain ⟨-, he⟩ := Option.ite_none_right_eq_some.mp h
      exact absurd he (by simp)
    · exact absurd h (by simp)
  · exact absurd h (by simp)

theorem mem_claimers {k : Worker} (h : k ∈ Lease.claimers (outboxLog seq tr)) :
    ∃ now limit u i records,
      actEv k.1 (.store (.claimPendingOutbox now limit k.2 u)) i records ∈ tr := by
  obtain ⟨x, hx, hk⟩ := List.mem_filterMap.mp h
  obtain ⟨e, he, hex⟩ := List.mem_filterMap.mp hx
  cases x with
  | claim k' now u =>
    obtain rfl := Option.some.inj hk
    obtain ⟨limit, i, records, rfl, -⟩ := outboxEv_claim hex
    exact ⟨now, limit, u, i, records, he⟩
  | finish k' => exact absurd hk (by simp [Lease.Ev.claimer])
  | release k' r => exact absurd hk (by simp [Lease.Ev.claimer])

/-- The drain of a claim is determined by the token. -/
theorem claim_unique (htok : (claimTokens tr).Nodup) {cid cid' : Nat} {now now' u u' : Time}
    {limit limit' : Int} {tok : GoString} {i i' : Input} {r r' : List OutboxRecord}
    (h : actEv cid (.store (.claimPendingOutbox now limit tok u)) i r ∈ tr)
    (h' : actEv cid' (.store (.claimPendingOutbox now' limit' tok u')) i' r' ∈ tr) :
    cid = cid' := by
  have he := eq_of_nodup_filterMap htok h h' rfl rfl
  injection he

/-- No drain claims a record twice. -/
theorem claimers_nodup (htok : (claimTokens tr).Nodup) (seq : Int) :
    (Lease.claimers (outboxLog seq tr)).Nodup := by
  have hsub : ((Lease.claimers (outboxLog seq tr)).map Prod.snd).Sublist (claimTokens tr) := by
    rw [Lease.claimers, outboxLog, List.filterMap_filterMap, List.map_filterMap]
    refine filterMap_sublist ?_ tr
    intro e tok hv
    obtain ⟨k, hk, rfl⟩ := Option.map_eq_some_iff.mp hv
    obtain ⟨x, hx, hk⟩ := Option.bind_eq_some_iff.mp hk
    cases x with
    | claim k' now u =>
      obtain rfl := Option.some.inj hk
      obtain ⟨limit, i, records, rfl, -⟩ := outboxEv_claim hx
      rfl
    | finish k' => exact absurd hk (by simp [Lease.Ev.claimer])
    | release k' r => exact absurd hk (by simp [Lease.Ev.claimer])
  exact (htok.sublist hsub).of_map

/-! ## The lease of a record -/

/-- The lease that a record carries.  A release moves the time from which
the record may be claimed to `availableAt`. -/
structure Carries (x : Lease.Item Worker Time) (rec : OutboxRecord) : Prop where
  token : rec.claimToken = (x.holder.map Prod.snd).getD []
  till : ∀ t ∈ x.till, rec.claimedUntil = some t ∨ t ≤ rec.availableAt
  done : x.done = rec.published
  free : rec.published = true → rec.claimToken = []

/-- A number that no record has yet has the free lease. -/
def Tracks (x : Lease.Item Worker Time) : Option OutboxRecord → Prop
  | none => x = {}
  | some rec => Carries x rec

theorem Fresh.carries {rec : OutboxRecord} (h : Fresh rec) : Carries {} rec :=
  ⟨h.claimToken, by simp, h.published.symm, fun _ => h.claimToken⟩

/-- The token of a record names the holder of its lease. -/
theorem Carries.holder {x : Lease.Item Worker Time} {rec : OutboxRecord} (hc : Carries x rec)
    (hne : rec.claimToken ≠ []) : ∃ cid, x.holder = some (cid, rec.claimToken) := by
  have htok := hc.token
  cases hx : x.holder with
  | none =>
    rw [hx] at htok
    exact absurd htok hne
  | some k =>
    rw [hx] at htok
    exact ⟨k.1, by rw [htok]; rfl⟩

/-- A marked record was not published. -/
theorem Carries.not_done {x : Lease.Item Worker Time} {rec : OutboxRecord} (hc : Carries x rec)
    (hne : rec.claimToken ≠ []) : x.done = false := by
  rw [hc.done]
  by_contra hpub
  exact hne (hc.free (by simpa using hpub))

/-- What a write does to a record, it does to its lease.  The worker of a
mark is the holder. -/
theorem Carries.touch {x : Lease.Item Worker Time} {rec rec' : OutboxRecord} {cid : Nat}
    {o : Option (Lease.Ev Worker Time)} {log : List (Lease.Ev Worker Time)} (hc : Carries x rec)
    (hx : Lease.replay {} log = some x) (ht : Touches cid o rec rec')
    (hholder : ∀ e, o = some e → (∀ k now u, e ≠ .claim k now u) →
      x.holder = some (cid, rec.claimToken)) :
    ∃ y, Lease.replay {} (log ++ o.toList) = some y ∧ Carries y rec' := by
  cases ht with
  | idle => exact ⟨x, by simpa using hx, hc⟩
  | @claim now u tok _ hcl =>
    obtain ⟨hpub, hav, hfree⟩ := hcl
    have hd : x.done = false := by rw [hc.done, hpub]
    have htill : ∀ t ∈ x.till, t ≤ now := by
      intro t ht
      rcases hc.till t ht with hu | hle
      · by_contra hlt
        exact hfree ⟨t, hu, lt_of_not_ge hlt⟩
      · exact le_trans hle hav
    refine ⟨_, Lease.replay_snoc.mpr ⟨x, hx, if_pos ⟨hd, htill⟩⟩, rfl, ?_, hc.done, ?_⟩
    · intro t ht
      exact .inl (Option.some.inj ht ▸ rfl)
    · intro h
      rw [hpub] at h
      exact absurd h (by simp)
  | @finish at_ _ hne =>
    have hw := hholder _ rfl (by simp)
    exact ⟨_, Lease.replay_snoc.mpr ⟨x, hx, if_pos ⟨hc.not_done hne, hw⟩⟩, rfl, by simp, rfl,
      fun _ => rfl⟩
  | @release e retryAt _ hne =>
    have hw := hholder _ rfl (by simp)
    refine ⟨{ x with holder := none, till := some retryAt },
      Lease.replay_snoc.mpr ⟨x, hx, ?_⟩, rfl, ?_, hc.done, fun _ => rfl⟩
    · simp [Lease.Item.step, hc.not_done hne, hw]
    · intro t ht
      obtain rfl := Option.some.inj ht
      exact .inr le_rfl

theorem Quiet.outboxEv_eq {e : Ev (switch E)} (h : Quiet e) : outboxEv seq e = none := by
  rcases e with ⟨cid, c⟩ | ⟨cid, o, i, r⟩
  · rfl
  · cases o with
    | store c =>
      cases c with
      | claimPendingOutbox => exact absurd h id
      | markOutboxPublished seq' tok at_ =>
        rcases r with e | ⟨⟩
        · rfl
        · exact absurd rfl h
      | markOutboxFailed seq' tok e retryAt =>
        rcases r with e | ⟨⟩
        · rfl
        · exact absurd rfl h
      | _ => rfl
    | _ => rfl

/-- A drain marks a record with the token of its own claim. -/
theorem claim_of_mark {L : Lib} {c : Call} {h : History} {call : StoreCall} {r : call.Ret}
    {cid : Nat} {o : Lease.Ev Worker Time} {rec rec' : OutboxRecord}
    (hallow : Allows L c h (.store call)) (ho : touch cid seq call r = some o)
    (hno : ∀ k now u, o ≠ .claim k now u) (htouch : Touches cid (some o) rec rec') :
    rec.claimToken ≠ [] ∧ ∃ now limit u records,
      Did h (.store (.claimPendingOutbox now limit rec.claimToken u)) records := by
  unfold touch at ho
  split at ho
  · obtain ⟨-, ho⟩ := Option.ite_none_right_eq_some.mp ho
    exact absurd (Option.some.inj ho).symm (hno _ _ _)
  · obtain ⟨-, ho⟩ := Option.ite_none_right_eq_some.mp ho
    obtain rfl := Option.some.inj ho
    cases htouch with
    | finish hne =>
      cases hallow with
      | markPublished hclaim _ _ => exact ⟨hne, _, _, _, _, hclaim⟩
  · obtain ⟨-, ho⟩ := Option.ite_none_right_eq_some.mp ho
    obtain rfl := Option.some.inj ho
    cases htouch with
    | release hne =>
      cases hallow with
      | markFailed _ hclaim _ _ => exact ⟨hne, _, _, _, _, hclaim⟩
  · exact absurd ho (by simp)

/-- The drain that claimed with the stored token holds the lease. -/
theorem holder_of_claim (htok : (claimTokens tr).Nodup) {x : Lease.Item Worker Time}
    (hx : Lease.replay {} (outboxLog seq tr) = some x) {rec : OutboxRecord} (hc : Carries x rec)
    (hne : rec.claimToken ≠ []) {cid : Nat} {now u : Time} {limit : Int}
    {records : List OutboxRecord}
    (hclaim : Did (hist cid tr) (.store (.claimPendingOutbox now limit rec.claimToken u)) records) :
    x.holder = some (cid, rec.claimToken) := by
  obtain ⟨cid', hw⟩ := hc.holder hne
  obtain ⟨now', limit', u', i', records', ha⟩ :=
    mem_claimers (List.mem_of_getLast? ((Lease.last_claimer hx).1 _ hw))
  obtain ⟨j, hj⟩ := hclaim
  obtain rfl : cid' = cid := claim_unique htok ha (mem_hist.mp hj)
  exact hw

/-- The claims on every record replay on the lease it carries. -/
theorem runs_outboxLease (htok : (claimTokens tr).Nodup) (h : Runs E tl dl tr w) (seq : Int) :
    ∃ x, Lease.replay {} (outboxLog seq tr) = some x ∧
      Tracks x (recordAt w.state.store seq) := by
  refine store_invariant (I := fun tr s => (claimTokens tr).Nodup →
    ∃ x, Lease.replay {} (outboxLog seq tr) = some x ∧ Tracks x (recordAt s seq)) ?_ ?_ ?_ h htok
  · intro _
    exact ⟨{}, rfl, rfl⟩
  · intro tr w e w' hrun hi hstep hq hsame htok
    rw [outboxLog_snoc, Quiet.outboxEv_eq hq, Option.toList_none, List.append_nil]
    exact hi (nodup_claimTokens_left htok)
  · intro tr w cid c call i r s' hrun hi _ hallow hs htok
    have hold := nodup_claimTokens_left htok
    obtain ⟨x, hx, ht⟩ := hi hold
    rw [outboxLog_snoc]
    show ∃ y, Lease.replay {} (outboxLog seq tr ++ (touch cid seq call r).toList) = some y ∧ _
    rcases StoreStep.recordAt_cases hs (runs_numbered hrun) cid seq with
      ⟨hnone, htouch, hfresh⟩ | ⟨rec, rec', hrec, hrec', htouch⟩
    · rw [hnone] at ht
      obtain rfl : x = {} := ht
      rw [htouch, Option.toList_none, List.append_nil]
      refine ⟨{}, hx, ?_⟩
      cases hrec : recordAt s' seq with
      | none => rfl
      | some rec => exact (hfresh rec hrec).carries
    · rw [hrec] at ht
      rw [hrec']
      refine Carries.touch ht hx htouch fun o ho hno => ?_
      rw [ho] at htouch
      obtain ⟨hne, now, limit, u, records, hclaim⟩ := claim_of_mark hallow ho hno htouch
      exact holder_of_claim hold hx ht hne hclaim

/-! ## Records stay -/

section stays

variable {t₁ t₂ : Trace (switch E)} {w₁ w₂ : World (switch E)}

/-- The numbers and the events of the records stay in their order. -/
theorem runs_entries (h₁ : Runs E tl dl t₁ w₁) (h₂ : Run w₁ t₂ w₂) :
    w₁.state.store.events.map OutboxRecord.entry <+:
      w₂.state.store.events.map OutboxRecord.entry := by
  refine runs_stable (P := fun s => w₁.state.store.events.map OutboxRecord.entry <+:
    s.events.map OutboxRecord.entry) ?_ h₁ h₂ (List.prefix_refl _)
  intro tr w i c s' r _ hp hs
  obtain ⟨old, he, hold, -⟩ := hs.outbox_cases
  have hsame : old.map OutboxRecord.entry = w.state.store.events.map OutboxRecord.entry :=
    forall₂_recordStep_entry hold
  rw [he, List.map_append, hsame]
  exact hp.trans (List.prefix_append _ _)

/-- A published record stays as it is, and nothing touches it again. -/
theorem runs_final (htok : (claimTokens (t₁ ++ t₂)).Nodup) (h₁ : Runs E tl dl t₁ w₁)
    (h₂ : Run w₁ t₂ w₂) {rec : OutboxRecord} (hmem : rec ∈ w₁.state.store.events)
    (hpub : rec.published = true) :
    rec ∈ w₂.state.store.events ∧ ∀ e ∈ t₂, outboxEv rec.sequence e = none := by
  have hat := (recordAt_eq_some (runs_numbered h₁)).mpr ⟨hmem, rfl⟩
  obtain ⟨x, hx, ht⟩ := runs_outboxLease (nodup_claimTokens_left htok) h₁ rec.sequence
  rw [hat] at ht
  have hfree := Carries.free ht hpub
  have hstay : ∀ {a w₃}, Run w₁ a w₃ → recordAt w₃.state.store rec.sequence = some rec := by
    intro a w₃ hrun
    refine runs_stable (P := fun s => recordAt s rec.sequence = some rec) ?_ h₁ hrun hat
    intro tr w i c s' r hrun hp hs
    rcases StoreStep.recordAt_cases hs (runs_numbered hrun) 0 rec.sequence with
      ⟨hnone, -⟩ | ⟨rec₁, rec₂, hrec₁, hrec₂, htouch⟩
    · rw [hnone] at hp
      exact absurd hp (by simp)
    · rw [hp] at hrec₁
      obtain rfl := Option.some.inj hrec₁
      rw [hrec₂, (htouch.final hpub hfree).1]
  refine ⟨((recordAt_eq_some (runs_numbered (h₁.append h₂))).mp (hstay h₂)).1, fun e he => ?_⟩
  obtain ⟨a, b, rfl⟩ := List.append_of_mem he
  obtain ⟨w₃, w₄, hrun, hstep, -⟩ := h₂.at_entry
  rcases e with ⟨cid, c⟩ | ⟨cid, o, i, r⟩
  · rfl
  · cases o with
    | store c =>
      rcases storeHandle_cases (step_store hstep) with ⟨-, hidle⟩ | hs
      · exact Quiet.outboxEv_eq hidle
      · rcases StoreStep.recordAt_cases hs (runs_numbered (h₁.append hrun)) cid rec.sequence with
          ⟨hnone, -⟩ | ⟨rec₁, rec₂, hrec₁, -, htouch⟩
        · exact absurd (hstay hrun) (by simp [hnone])
        · rw [hstay hrun] at hrec₁
          obtain rfl := Option.some.inj hrec₁
          exact (htouch.final hpub hfree).2
    | _ => rfl

end stays

/-- The record in hand is one that the drain claimed. -/
theorem inHand_claimed {h : History} {record : OutboxRecord} (hhand : inHand h = some record) :
    ∃ now limit tok u records, Did h (.store (.claimPendingOutbox now limit tok u)) records ∧
      record ∈ records := by
  obtain ⟨a, ha, hmem⟩ := List.mem_flatMap.mp (List.mem_of_getElem? hhand)
  unfold batchOf at hmem
  split at hmem
  · exact ⟨_, _, _, _, _, ⟨_, ha⟩, hmem⟩
  · exact absurd hmem List.not_mem_nil

/-- The copy of a record that a drain claimed has the number and the event of
the record. -/
theorem claimed_entry (h : Runs E tl dl tr w) {cid : Nat} {now u : Time} {limit : Int}
    {tok : GoString} {i : Input} {records : List OutboxRecord}
    (ha : actEv cid (.store (.claimPendingOutbox now limit tok u)) i records ∈ tr)
    {record : OutboxRecord} (hmem : record ∈ records) :
    record.entry ∈ w.state.store.events.map OutboxRecord.entry := by
  obtain ⟨t₁, t₂, rfl⟩ := List.append_of_mem ha
  obtain ⟨w₁, w₂, h₁, hstep, -, h₂⟩ := runs_at h
  obtain ⟨w₃, hrun, hrest⟩ := Run.split h
  obtain ⟨rfl, -⟩ := Prod.mk.inj (Option.some.inj (step_store hstep))
  rw [List.mem_insertionSort] at hmem
  obtain ⟨rec, hrec, -, he⟩ := (claims_claimLoop _ _ _ _ _).entries record hmem
  refine (runs_entries h₁ ((Run.nil.snoc hstep).append h₂)).subset ?_
  exact List.mem_map.mpr ⟨rec, hrec, he⟩

/-- Records with one number are one record. -/
theorem eq_of_sequence {s : MemoryStore} (hn : s.Numbered) {a b : OutboxRecord}
    (ha : a ∈ s.events) (hb : b ∈ s.events) (h : a.sequence = b.sequence) : a = b := by
  have hra := (recordAt_eq_some hn).mpr ⟨ha, rfl⟩
  have hrb := (recordAt_eq_some hn).mpr ⟨hb, rfl⟩
  rw [h, hrb] at hra
  exact (Option.some.inj hra).symm

/-- The drain that marked a record published it right before. -/
theorem published_of_mark {t₁ t₂ : Trace (switch E)} {cid : Nat} {tok : GoString} {at_ : Time}
    {i : Input} {r : Except Err Unit}
    (h : Runs E tl dl (t₁ ++ actEv cid (.store (.markOutboxPublished seq tok at_)) i r :: t₂) w)
    {rec : OutboxRecord} (hrec : rec ∈ w.state.store.events) (hseq : rec.sequence = seq) :
    ∃ s₁ s₂ j record, t₁ = s₁ ++ actEv cid (.publish rec.event) j (.ok ()) :: s₂ ∧
      inHand (hist cid s₁) = some record ∧ record.sequence = seq := by
  obtain ⟨c, -, hallow⟩ := (contract E tl dl).allows_at h
  generalize hh : hist cid t₁ = h₁ at hallow
  cases hallow with
  | @markPublished h₀ j j' now u at_ limit tok records record hclaim hhand hh' =>
    obtain ⟨s₁, s₂, rfl, hs₁, -⟩ := hist_split (hh.trans hh')
    obtain ⟨now', limit', tok', u', records', ⟨i', hi'⟩, hmem⟩ := inHand_claimed hhand
    rw [← hs₁] at hi' hhand
    have ha := mem_hist.mp hi'
    have hentry := claimed_entry h
      (List.mem_append_left _ (List.mem_append_left _ ha)) hmem
    obtain ⟨rec', hrec', he⟩ := List.mem_map.mp hentry
    obtain rfl := eq_of_sequence (runs_numbered h) hrec' hrec
      ((congrArg Prod.fst he).trans hseq.symm)
    have hev : rec'.event = record.event := congrArg Prod.snd he
    rw [hev]
    exact ⟨s₁, s₂, j, record, rfl, hhand, rfl⟩

/-- A record whose flag is set was marked. -/
theorem runs_marked (h : Runs E tl dl tr w) {rec : OutboxRecord}
    (hrec : rec ∈ w.state.store.events) (hpub : rec.published = true) :
    ∃ cid tok at_ i,
      actEv cid (.store (.markOutboxPublished rec.sequence tok at_)) i (.ok ()) ∈ tr := by
  have hall := store_invariant (I := fun tr s => ∀ seq rec, recordAt s seq = some rec →
    rec.published = true → ∃ cid tok at_ i,
      actEv (E := E) cid (.store (.markOutboxPublished seq tok at_)) i (.ok ()) ∈ tr) ?_ ?_ ?_ h
  · exact hall _ rec ((recordAt_eq_some (runs_numbered h)).mpr ⟨hrec, rfl⟩) hpub
  · intro seq rec hrec
    exact absurd hrec (by simp [recordAt, newMemoryStore])
  · intro tr w e w' _ hi _ _ _ seq rec hrec hpub
    obtain ⟨cid, tok, at_, i, hmem⟩ := hi seq rec hrec hpub
    exact ⟨cid, tok, at_, i, List.mem_append_left _ hmem⟩
  · intro tr w cid c call i r s' hrun hi _ _ hs seq rec' hrec' hpub
    have hold : ∀ rec, recordAt w.state.store seq = some rec → rec.published = true →
        ∃ k tok at_ j, actEv k (.store (.markOutboxPublished seq tok at_)) j (.ok ()) ∈
          tr ++ [.act cid ⟨.store call, i, r⟩] := by
      intro rec hrec hp
      obtain ⟨k, tok, at_, j, hmem⟩ := hi seq rec hrec hp
      exact ⟨k, tok, at_, j, List.mem_append_left _ hmem⟩
    rcases StoreStep.recordAt_cases hs (runs_numbered hrun) cid seq with
      ⟨-, -, hfresh⟩ | ⟨rec, rec₁, hrec, hrec₁, htouch⟩
    · exact absurd hpub (by simp [(hfresh rec' hrec').published])
    · rw [hrec', Option.some.injEq] at hrec₁
      subst hrec₁
      generalize ho : touch cid seq call r = o at htouch
      cases htouch with
      | idle => exact hold _ hrec hpub
      | claim hcl => exact hold _ hrec hpub
      | release hne => exact hold _ hrec hpub
      | finish hne =>
        have hev : outboxEv seq (actEv (E := E) cid (.store call) i r) = _ := ho
        obtain ⟨at_, j, he⟩ := outboxEv_finish hev
        refine ⟨cid, rec.claimToken, at_, j, List.mem_append_right _ ?_⟩
        rw [List.mem_singleton]
        exact he.symm

/-! ## What the relays guarantee -/

/-- An acknowledgement or a failure mark with its answer. -/
inductive MarkCall (seq : Int) (tok : GoString) : (c : StoreCall) → c.Ret → Except Err Unit →
    Prop where
  | published (at_ : Time) (r : Except Err Unit) :
      MarkCall seq tok (.markOutboxPublished seq tok at_) r r
  | failed (e : GoString) (retryAt : Time) (r : Except Err Unit) :
      MarkCall seq tok (.markOutboxFailed seq tok e retryAt) r r

/-- The guarantees of a run for the records of the outbox. -/
structure Delivers (E : Env) (tl dl : Option E.Lim) (tr : Trace (switch E))
    (w : World (switch E)) : Prop where
  /-- A record whose flag is set was published by a drain that had claimed
  it. -/
  published : ∀ {rec}, rec ∈ w.state.store.events → rec.published = true →
    ∃ t₁ t₂ cid i record, tr = t₁ ++ actEv cid (.publish rec.event) i (.ok ()) :: t₂ ∧
      inHand (hist cid t₁) = some record ∧ record.sequence = rec.sequence
  /-- From then on the record does not change, and is neither claimed nor
  marked. -/
  final : ∀ {t₁ t₂ w₁ rec}, tr = t₁ ++ t₂ → Runs E tl dl t₁ w₁ → Run w₁ t₂ w →
    rec ∈ w₁.state.store.events → rec.published = true →
    rec ∈ w.state.store.events ∧ ∀ e ∈ t₂, outboxEv rec.sequence e = none
  /-- Once the clock has reached the times of the claims on a record, at most
  one of them has neither lapsed nor been ended by its drain. -/
  exclusive : ∀ {seq t l₁ l₂ l₁' l₂' k k' now now' u u'},
    (∀ now ∈ Lease.times (outboxLog seq tr), now ≤ t) →
    Lease.Open (outboxLog seq tr) t l₁ k now u l₂ →
    Lease.Open (outboxLog seq tr) t l₁' k' now' u' l₂' → l₁ = l₁' ∧ k = k'
  /-- A mark takes effect for the drain that holds the latest claim on the
  record, and otherwise fails and changes nothing. -/
  fenced : ∀ {cid c i r w' seq tok res}, Step w (actEv cid (.store c) i r) w' →
    MarkCall seq tok c r res →
    (res = .ok () ∧ (Lease.claimers (outboxLog seq tr)).getLast? = some (cid, tok) ∧
        ¬ Lease.Ended (cid, tok) (outboxLog seq tr)) ∨
      ((∃ e, res = .error e) ∧ w'.state.store = w.state.store)
  /-- The numbers are those from one on, in append order. -/
  numbered : w.state.store.Numbered
  /-- No record is removed, and none changes its number or its event. -/
  kept : ∀ {t₁ t₂ w₁}, tr = t₁ ++ t₂ → Runs E tl dl t₁ w₁ → Run w₁ t₂ w →
    w₁.state.store.events.map OutboxRecord.entry <+:
      w.state.store.events.map OutboxRecord.entry

/-- A mark that takes effect holds the lease. -/
theorem mark_holder (htok : (claimTokens tr).Nodup) (h : Runs E tl dl tr w) {cid : Nat}
    {c : StoreCall} {i : Input} {r : c.Ret} {w' : World (switch E)} {tok : GoString}
    (hstep : Step w (actEv cid (.store c) i r) w') (hm : MarkCall seq tok c r (.ok ())) :
    (Lease.claimers (outboxLog seq tr)).getLast? = some (cid, tok) ∧
      ¬ Lease.Ended (cid, tok) (outboxLog seq tr) := by
  obtain ⟨x, hx, ht⟩ := runs_outboxLease htok h seq
  obtain ⟨c', -, hallow⟩ := (contract E tl dl).allows_of_step h hstep
  obtain ⟨o, ho, hno, hwho⟩ : ∃ o, touch cid seq c r = some o ∧ (∀ k now u, o ≠ .claim k now u) ∧
      (o = .finish (cid, tok) ∨ ∃ retryAt, o = .release (cid, tok) retryAt) := by
    cases hm with
    | published at_ => exact ⟨_, if_pos rfl, by simp, .inl rfl⟩
    | failed e retryAt => exact ⟨_, if_pos rfl, by simp, .inr ⟨retryAt, rfl⟩⟩
  have hw : x.holder = some (cid, tok) := by
    rcases storeHandle_cases (step_store hstep) with ⟨-, hidle⟩ | hs
    · have hquiet : Quiet (actEv (E := E) cid (.store c) i r) := hidle
      have hnone : touch cid seq c r = none := Quiet.outboxEv_eq hquiet
      exact absurd (ho.symm.trans hnone) (by simp)
    · rcases StoreStep.recordAt_cases hs (runs_numbered h) cid seq with
        ⟨-, hnone, -⟩ | ⟨rec, rec', hrec, -, htouch⟩
      · exact absurd (ho.symm.trans hnone) (by simp)
      · rw [hrec] at ht
        rw [ho] at htouch
        obtain ⟨hne, now, limit, u, records, hclaim⟩ := claim_of_mark hallow ho hno htouch
        have hholder := holder_of_claim htok hx ht hne hclaim
        rcases hwho with rfl | ⟨retryAt, rfl⟩
        · cases htouch; exact hholder
        · cases htouch; exact hholder
  exact ⟨(Lease.last_claimer hx).1 _ hw, fun hend =>
    (hend.not_holder hx (claimers_nodup htok seq)).1 hw⟩

theorem mark_cases (htok : (claimTokens tr).Nodup) (h : Runs E tl dl tr w) {cid : Nat}
    {c : StoreCall} {i : Input} {r : c.Ret} {w' : World (switch E)} {tok : GoString}
    {res : Except Err Unit} (hstep : Step w (actEv cid (.store c) i r) w')
    (hm : MarkCall seq tok c r res) :
    (res = .ok () ∧ (Lease.claimers (outboxLog seq tr)).getLast? = some (cid, tok) ∧
        ¬ Lease.Ended (cid, tok) (outboxLog seq tr)) ∨
      ((∃ e, res = .error e) ∧ w'.state.store = w.state.store) := by
  rcases res with e | ⟨⟩
  · refine .inr ⟨⟨e, rfl⟩, ?_⟩
    rcases storeHandle_cases (step_store hstep) with ⟨hsame, -⟩ | hs
    · exact hsame
    · generalize w'.state.store = s' at hs
      cases hm <;> cases hs
  · exact .inl ⟨rfl, mark_holder htok h hstep hm⟩

/-- However the relays interleave and wherever they stop, when no two claims
share a token the outbox is delivered as `Delivers` says. -/
theorem outbox_delivers (htok : (claimTokens tr).Nodup) (h : Runs E tl dl tr w) :
    Delivers E tl dl tr w := by
  constructor
  · -- published
    intro rec hrec hpub
    obtain ⟨cid, tok, at_, i, hmark⟩ := runs_marked h hrec hpub
    obtain ⟨t₁, t₂, rfl⟩ := List.append_of_mem hmark
    obtain ⟨s₁, s₂, j, record, rfl, hhand, hseq⟩ := published_of_mark h hrec rfl
    exact ⟨s₁, _, cid, j, record, by rw [List.append_assoc, List.cons_append], hhand, hseq⟩
  · -- final
    rintro t₁ t₂ w₁ rec rfl h₁ h₂ hrec hpub
    exact runs_final htok h₁ h₂ hrec hpub
  · -- exclusive
    intro seq t l₁ l₂ l₁' l₂' k k' now now' u u' hclock h₁ h₂
    obtain ⟨x, hx, -⟩ := runs_outboxLease htok h seq
    exact h₁.unique h₂ hx hclock
  · -- fenced
    intro cid c i r w' seq tok res hstep hm
    exact mark_cases htok h hstep hm
  · exact runs_numbered h
  · -- kept
    intro t₁ t₂ w₁ _ h₁ h₂
    exact runs_entries h₁ h₂

/-! ## A relay that outlives its claim -/

/-- The defaults of `NewRelay`. -/
def samplePolicy : RetryPolicy := ⟨0, 0, 0⟩

/-- The first relay claims the oldest record and publishes it, but is slow to
acknowledge; the claim lapses, a second relay claims the record, publishes it
again and acknowledges it; then the first relay tries to. -/
def lapseLabels : List (Label (switch sampleEnv)) :=
  createLabels ++ drainLabels 1 newYear 7 samplePolicy 1 ++
    [.step 1 { now := newYear, answer := .published (.ok ()) }] ++
    drainLabels 2 (newYear + 30 * second) 8 samplePolicy 1 ++
    publishLabels 2 (newYear + 30 * second) (.ok ()) ++
    [.step 1 (tick (newYear + 30 * second)), .step 1 (tick (newYear + 30 * second))]

set_option maxRecDepth 20000 in
theorem lapse_isSome :
    ((World.init (State.initial sampleEnv none none)).exec lapseLabels).isSome := by
  decide +kernel

/-- The trace and the world of the lapsed claim. -/
def lapse : Trace (switch sampleEnv) × World (switch sampleEnv) :=
  World.ran _ lapseLabels lapse_isSome

/-- The mark of the second relay stands, that of the first one failed. -/
theorem outbox_delivers_lapse :
    (lapse.2.result 1).bind drained = some ({ scanned := 1 },
        some (go "mark outbox published: conflict: outbox record is not claimed by this worker")) ∧
      (lapse.2.result 2).bind drained = some ({ scanned := 1, published := 1 }, none) ∧
      (recordAt lapse.2.state.store 1).map (·.published) = some true ∧
      Delivers sampleEnv none none lapse.1 lapse.2 :=
  ⟨by decide +kernel, by decide +kernel, by decide +kernel,
    outbox_delivers (by decide +kernel) (World.run_ran _ _ _)⟩

end PixRail.Outbox
