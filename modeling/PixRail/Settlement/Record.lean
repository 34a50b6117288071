import PixRail.Lifecycle.Log
import PixRail.Lifecycle.Sound

/-!
# The record of a settlement

The service decides on what it read before, and the store decides again on
the callbacks map, which is keyed by the tenant and the SPI message id and
holds a hash of the callback.  The first callback that the store records for
a transfer is the only one (`runs_settled`), and the hashes that the store
compares agree with the comparison of the status and the trimmed code
(`fingerprint_eq_iff`).
-/

namespace PixRail.Settlement

open Go Rail Events Store Interleave Switcher Lifecycle

/-! ## The fingerprint of a callback -/

/-- A callback status that the service records. -/
def Supported (st : SettlementStatus) : Prop := st = .accepted ∨ st = .rejected

theorem Supported.separator_notMem {st : SettlementStatus} (h : Supported st) : 0 ∉ st.text := by
  rcases h with rfl | rfl <;> decide +kernel

theorem Supported.text_injective {st st' : SettlementStatus} (h : Supported st)
    (h' : Supported st') (he : st.text = st'.text) : st = st' := by
  rcases h with rfl | rfl <;> rcases h' with rfl | rfl <;>
    first | rfl | exact absurd he (by decide +kernel)

theorem hashParts_injective {H : Digest} (hinj : Function.Injective H.sum256)
    {p q : List GoString} (h : hashParts H p = hashParts H q) : join p [0] = join q [0] :=
  hinj (hexEncode_injective h)

/-- Callbacks for one SPI message have the same fingerprint exactly when they
carry the same status and the same code. -/
theorem fingerprint_eq_iff {H : Digest} (hinj : Function.Injective H.sum256)
    {cb cb' : SettlementCallback} (htn : cb.tenantID = cb'.tenantID)
    (hid : cb.transferID = cb'.transferID) (hspi : cb.spiMessageID = cb'.spiMessageID)
    (hst : Supported cb.status) (hst' : Supported cb'.status) :
    cb.fingerprint H = cb'.fingerprint H ↔
      cb.status = cb'.status ∧ trimSpace cb.code = trimSpace cb'.code := by
  constructor
  · intro h
    have hjoin := hashParts_injective hinj h
    simp only [SettlementCallback.fingerprintParts, htn, hid, hspi, join_cons_cons,
      join_singleton, List.append_cancel_left_eq, List.cons.injEq, true_and] at hjoin
    obtain ⟨htext, hcode⟩ := append_sep_inj hst.separator_notMem hst'.separator_notMem hjoin
    exact ⟨hst.text_injective hst' htext, hcode⟩
  · rintro ⟨hs, hc⟩
    simp only [SettlementCallback.fingerprint, SettlementCallback.fingerprintParts, htn, hid,
      hspi, hs, hc]

/-! ## The recorded callback -/

section runs

variable {E : Env} {tl dl : Option E.Lim} {tr t₁ t₂ : Trace (switch E)} {w : World (switch E)}
  {id : GoString}

/-- The callback that an entry of a trace recorded for transfer `id`: the
call, what it handed to the store, and the transfer it left. -/
def settleOf (id : GoString) : Ev (switch E) → Option (Nat × SettlementCallback × Transfer)
  | .act cid ⟨.store (.updateSettlement _ id' cb _ _), _, .ok (t, false)⟩ =>
    if id' = id then some (cid, cb, t) else none
  | _ => none

/-- The callbacks that a trace recorded for transfer `id`. -/
def settled (id : GoString) (tr : Trace (switch E)) :
    List (Nat × SettlementCallback × Transfer) :=
  tr.filterMap (settleOf id)

theorem settled_snoc (e : Ev (switch E)) :
    settled id (tr ++ [e]) = settled id tr ++ (settleOf id e).toList := by
  cases he : settleOf id e <;> simp [settled, he]

theorem settleOf_eq_some {e : Ev (switch E)} {cid : Nat} {cb : SettlementCallback} {t : Transfer}
    (h : settleOf id e = some (cid, cb, t)) :
    ∃ tn evs aud i, e = actEv cid (.store (.updateSettlement tn id cb evs aud)) i
      (.ok (t, false)) := by
  unfold settleOf at h
  split at h
  · obtain ⟨rfl, he⟩ := Option.ite_none_right_eq_some.mp h
    rw [Option.some.injEq, Prod.mk.injEq, Prod.mk.injEq] at he
    obtain ⟨rfl, rfl, rfl⟩ := he
    exact ⟨_, _, _, _, rfl⟩
  · exact absurd h (by simp)

theorem settleOf_quiet {e : Ev (switch E)} (hq : Quiet e) : settleOf id e = none := by
  cases he : settleOf id e with
  | none => rfl
  | some x =>
    obtain ⟨tn, evs, aud, i, rfl⟩ := settleOf_eq_some he
    exact absurd rfl (hq _)

theorem settleOf_other {cid : Nat} {c : StoreCall} {i : Input} {r : c.Ret}
    (hc : ∀ tn cb evs aud, c ≠ .updateSettlement tn id cb evs aud) :
    settleOf id (actEv cid (.store c) i r : Ev (switch E)) = none := by
  cases he : settleOf id (actEv cid (.store c) i r : Ev (switch E)) with
  | none => rfl
  | some x =>
    obtain ⟨tn, evs, aud, i', he'⟩ := settleOf_eq_some he
    injection he' with _ ha
    injection ha with ho
    injection ho with ho
    exact absurd ho (hc _ _ _ _)

/-- The callback names the transfer. -/
structure Names (cb : SettlementCallback) (t : Transfer) : Prop where
  tenantID : cb.tenantID = t.tenantID
  transferID : cb.transferID = t.id

/-- The transfer is settled by that callback. -/
structure SettledBy (H : Digest) (s : MemoryStore) (id : GoString) (cb : SettlementCallback)
    (t : Transfer) : Prop where
  lookup : s.transfers.lookup id = some t
  names : Names cb t
  status : cb.status.settles = some t.status
  code : t.settlementCode = cb.code
  spi : t.spiMessageID = cb.spiMessageID
  filed : s.callbacks.lookup (scopedKey t.tenantID t.spiMessageID) =
    some (MemoryStore.callbackHash H cb)

theorem settles_iff {st : SettlementStatus} {t : TransferStatus} (h : st.settles = some t) :
    t = .settled ∨ t = .rejected := by
  cases st with
  | accepted => exact .inl (Option.some.inj h).symm
  | rejected => exact .inr (Option.some.inj h).symm
  | other raw hraw => exact absurd h (by simp [SettlementStatus.settles])

theorem SettledBy.done {H : Digest} {s : MemoryStore} {cb : SettlementCallback} {t : Transfer}
    (h : SettledBy H s id cb t) : Done t :=
  settles_iff h.status

/-- A settled transfer stays as it is, and so does its callback. -/
theorem SettledBy.step {H : Digest} {s s' : MemoryStore} {i : Input} {c : StoreCall} {r : c.Ret}
    {cb : SettlementCallback} {t : Transfer} (h : SettledBy H s id cb t) (hk : s.Keyed)
    (hsound : Sound t) (hs : StoreStep H s i c r s') : SettledBy H s' id cb t := by
  obtain ⟨t', hl', hmv⟩ := hs.lookup_mono hk h.lookup
  have ht : t' = t := hmv.resolve_right (hsound.not_moves h.done.terminal)
  subst ht
  refine ⟨hl', h.names, h.status, h.code, h.spi, ?_⟩
  rcases hs.callbacks_cases hk with ⟨he, -⟩ | ⟨t₁, t₂, cb', evs, aud, -, -, -, -, hnew, he⟩
  · rw [he]
    exact h.filed
  · rw [he, lookup_insert_eq_some]
    refine .inr ⟨fun hkey => ?_, h.filed⟩
    rw [← hkey, h.filed] at hnew
    exact absurd hnew (by simp)

/-- Nothing is recorded for a transfer and it is not settled, or one callback
is and settled it. -/
theorem runs_settled (h : Runs E tl dl tr w) (id : GoString) :
    (settled id tr = [] ∧ ∀ t, w.state.store.transfers.lookup id = some t → ¬ Done t) ∨
      ∃ cid cb t, settled id tr = [(cid, cb, t)] ∧
        SettledBy E.digest w.state.store id cb t := by
  refine store_invariant (I := fun tr s =>
    (settled id tr = [] ∧ ∀ t, s.transfers.lookup id = some t → ¬ Done t) ∨
      ∃ cid cb t, settled id tr = [(cid, cb, t)] ∧ SettledBy E.digest s id cb t) ?_ ?_ ?_ h
  · exact .inl ⟨rfl, fun t hl => by simp [newMemoryStore] at hl⟩
  · intro tr w e w' _ hi _ hq _
    rw [settled_snoc, settleOf_quiet hq, Option.toList_none, List.append_nil]
    exact hi
  · intro tr w cid c call i r s' hrun hi _ hallow hs
    have hk := runs_keyed hrun
    -- a settled transfer is not settled again
    have hkeep : ∀ {cid₀ cb t}, settled id tr = [(cid₀, cb, t)] →
        SettledBy E.digest w.state.store id cb t →
        settleOf id (actEv cid (.store call) i r : Ev (switch E)) = none →
        ∃ cid₀ cb t, settled id (tr ++ [actEv cid (.store call) i r]) = [(cid₀, cb, t)] ∧
          SettledBy E.digest s' id cb t := by
      intro cid₀ cb t hset hby hnone
      refine ⟨cid₀, cb, t, ?_, hby.step hk (runs_sound hrun hby.lookup) hs⟩
      rw [settled_snoc, hnone, hset]
      rfl
    rcases hs.callbacks_cases hk with ⟨he, hc⟩ | ⟨t₁, t₂, cb, evs, aud, rfl, hl₁, hset, htr, hnew, he⟩
    · have hnone : settleOf id (actEv cid (.store call) i r : Ev (switch E)) = none :=
        settleOf_other fun tn => hc tn id
      rcases hi with ⟨hnil, hnd⟩ | ⟨cid₀, cb, t, hset, hby⟩
      · refine .inl ⟨by rw [settled_snoc, hnone, hnil]; rfl, fun t hl => ?_⟩
        rcases hs.lookup_inv hk hl with hl | ⟨-, evs, auds, rfl⟩ | ⟨t₁, hl₁, hm⟩
        · exact hnd t hl
        · cases hallow with
          | insert _ _ hstatus _ _ _ ht _ =>
            subst ht
            intro hd
            rcases hd with hd | hd <;> rcases hstatus with hst | hst | hst <;>
              exact absurd (hst.symm.trans hd) (by decide)
        · exact Moves.not_done hm hc (runs_sound hrun hl₁)
      · exact .inr (hkeep hset hby hnone)
    · obtain ⟨hd₂, htn₂, hspi₂, hid₂⟩ := settles_done hset
      obtain ⟨-, -, happ, st, hst, ht₂⟩ := Transfer.recordSettlement_eq_ok.mp hset
      by_cases hid : t₁.id = id
      · subst hid
        rcases hi with ⟨hnil, -⟩ | ⟨cid₀, cb₀, t, -, hby⟩
        · right
          cases hs with
          | @settled _ _ _ _ _ t₃ t₄ hfind hnew hsettle =>
            obtain ⟨hl₃, -⟩ := MemoryStore.owned_eq_some.mp hfind
            obtain rfl : t₁ = t₃ := Option.some.inj (hl₁.symm.trans hl₃)
            obtain rfl : t₂ = t₄ := Except.ok.inj (hset.symm.trans hsettle)
            have hnames : Names cb t₂ := by
              cases hallow with
              | settle hc htn hid' hne hget hspi hty hevs =>
                exact ⟨by rw [htn₂, htn]; rfl, by rw [hid₂, hid']; rfl⟩
            refine ⟨cid, cb, t₂, ?_, ?_, hnames, ?_, ?_, hspi₂, ?_⟩
            · rw [settled_snoc, hnil]
              simp [settleOf]
            · rw [htr, Finmap.lookup_insert]
            · rw [ht₂]
              exact hst
            · rw [ht₂]
            · rw [he, htn₂, hspi₂, Finmap.lookup_insert]
        · obtain rfl : t₁ = t := Option.some.inj (hl₁.symm.trans hby.lookup)
          have hd := hby.done
          rw [Done, happ] at hd
          exact absurd hd (by decide)
      · have hnone : settleOf id (actEv cid (.store (.updateSettlement t₁.tenantID t₁.id cb evs
            aud)) i r : Ev (switch E)) = none := by
          refine settleOf_other fun tn cb' evs' aud' hc => ?_
          injection hc with _ hid'
          exact hid hid'
        rcases hi with ⟨hnil, hnd⟩ | ⟨cid₀, cb₀, t, hset₀, hby⟩
        · refine .inl ⟨by rw [settled_snoc, hnone, hnil]; rfl, fun t hl => ?_⟩
          rw [htr, Finmap.lookup_insert_of_ne _ (Ne.symm hid)] at hl
          exact hnd t hl
        · exact .inr (hkeep hset₀ hby hnone)

/-! ## What a call finds -/

/-- A stored transfer has an id and a tenant. -/
theorem runs_named (h : Runs E tl dl tr w) {t : Transfer}
    (hl : w.state.store.transfers.lookup id = some t) : t.id ≠ [] ∧ t.tenantID ≠ [] := by
  refine store_invariant (I := fun _ s => ∀ id t, s.transfers.lookup id = some t →
    t.id ≠ [] ∧ t.tenantID ≠ []) ?_ (fun _ hi _ _ _ => hi) ?_ h id t hl
  · intro id t hl
    simp [newMemoryStore] at hl
  · intro tr w cid c call i r s' hrun hi _ hallow hs id t hl
    rcases hs.lookup_inv (runs_keyed hrun) hl with hl | ⟨-, evs, auds, rfl⟩ | ⟨t₁, hl₁, hm⟩
    · exact hi id t hl
    · cases hallow with
      | @insert req at_ now id₀ _ _ _ _ hc hvalid hstatus hfirst hdraw hfind ht hevs =>
        subst ht
        obtain ⟨_, -, hens⟩ := ens_of_did hrun hdraw
        refine ⟨?_, fun hnil => ?_⟩
        · intro (hnil : id₀ = [])
          rw [hnil] at hens
          have hpre : go "pxt" ++ go "_" <+: [] := hens
          exact absurd hpre (by decide +kernel)
        · refine (CreateTransferRequest.validate_eq_ok.mp hvalid).tenantID ?_
          rw [show (normalize _ _).tenantID = [] from hnil]
          rfl
    · rw [hm.sameOrder.id, hm.sameOrder.tenantID]
      exact hi id t₁ hl₁

/-- From `approved` a transfer only settles. -/
theorem approved_moves {i : Input} {c : StoreCall} {t t' : Transfer} (hs : Sound t)
    (hst : t.status = .approved) (hm : Moves i c t t') :
    Done t' ∧ t'.spiMessageID = t.spiMessageID := by
  cases hm with
  | claim h =>
    rw [(Transfer.claimSPISubmission_eq_ok.mp h).2.2.1] at hst
    exact absurd hst (by decide)
  | record h =>
    rw [(Transfer.recordSPISubmission_eq_ok.mp h).1] at hst
    exact absurd hst (by decide)
  | release happ h =>
    have htok := ((Transfer.releaseSPISubmission_eq_ok happ).mp h).1
    exact absurd (hs.sent (.inl hst)).2.2.1 htok
  | review h =>
    rw [(Transfer.recordReviewDecision_eq_ok.mp h).1] at hst
    exact absurd hst (by decide)
  | settle h =>
    obtain ⟨hd, -, hspi, -⟩ := settles_done h
    exact ⟨hd, by rw [hspi, (Transfer.recordSettlement_eq_ok.mp h).2.1]⟩

/-- The transfer was submitted under that SPI message id. -/
def Sent (s : MemoryStore) (id tn spi : GoString) : Prop :=
  ∃ t, s.transfers.lookup id = some t ∧ t.tenantID = tn ∧ t.spiMessageID = spi ∧
    (t.status = .approved ∨ Done t)

/-- A submitted transfer stays submitted. -/
theorem run_sent {t₂ : Trace (switch E)} {w₂ : World (switch E)} (h : Runs E tl dl tr w)
    (h₂ : Run w t₂ w₂) {tn spi : GoString} (hs : Sent w.state.store id tn spi) :
    Sent w₂.state.store id tn spi := by
  refine runs_stable (P := fun s => Sent s id tn spi) ?_ h h₂ hs
  intro tr w i c s' r hr hs hwr
  obtain ⟨t, hl, htn, hspi, hst⟩ := hs
  obtain ⟨t', hl', hmv⟩ := hwr.lookup_mono (runs_keyed hr) hl
  have hsound := runs_sound hr hl
  refine ⟨t', hl', ?_⟩
  rcases hmv with rfl | hmv
  · exact ⟨htn, hspi, hst⟩
  · rcases hst with hst | hd
    · obtain ⟨hd', hspi'⟩ := approved_moves hsound hst hmv
      exact ⟨by rw [hmv.sameOrder.tenantID, htn], by rw [hspi', hspi], .inr hd'⟩
    · exact absurd hmv (hsound.not_moves hd.terminal)

/-- A transfer that a call read with an SPI message id was submitted under it. -/
theorem read_sent (h : Runs E tl dl tr w) {cid : Nat} {tn : GoString} {current : Transfer}
    (hget : Did (hist cid tr) (.store (.getTransfer tn id)) (.ok current))
    (hne : current.spiMessageID ≠ []) : Sent w.state.store id tn current.spiMessageID := by
  obtain ⟨i, hi⟩ := hget
  obtain ⟨t₁, t₂, rfl⟩ := List.append_of_mem (mem_hist.mp hi)
  obtain ⟨w₁, w₂, h₁, hstep, hrun, hrest⟩ := runs_at h
  obtain ⟨hans, hsame⟩ := Prod.mk.inj (Option.some.inj (step_store hstep))
  refine run_sent hrun hrest ?_
  rw [← hsame]
  unfold MemoryStore.getTransfer at hans
  split at hans
  · exact absurd hans (by simp)
  · rename_i t hfind
    obtain ⟨hl, htn⟩ := MemoryStore.owned_eq_some.mp hfind
    obtain rfl := Except.ok.inj hans
    refine ⟨t, hl, htn, rfl, ?_⟩
    have hsound := runs_sound h₁ hl
    rcases hsound.known with hst | hst | hst | hst | hst | hst
    · exact absurd (hsound.unsent (.inl hst)).1 hne
    · exact absurd (hsound.unsent (.inr (.inl hst))).1 hne
    · exact absurd (hsound.unsent (.inr (.inr hst))).1 hne
    · exact .inl hst
    · exact .inr (.inl hst)
    · exact .inr (.inr hst)

section update

variable {H : Digest} {s s' : MemoryStore} {i : Input} {tn : GoString} {cb : SettlementCallback}
  {evs : List Event} {aud : AuditRecord} {r : Except Err (Transfer × Bool)} {t : Transfer}

/-- The answer for a transfer whose callback is filed. -/
theorem update_filed {v : GoString} (hfind : s.owned tn id = some t)
    (hfiled : s.callbacks.lookup (scopedKey tn cb.spiMessageID) = some v)
    (h : storeHandle H (.updateSettlement tn id cb evs aud) i s = some (r, s')) :
    r = if v = MemoryStore.callbackHash H cb then .ok (t, true)
      else .error (ErrKind.conflict.wrap
        (go "conflicting settlement callback for terminal transfer")) := by
  have hr := congrArg Prod.fst (Option.some.inj h)
  simp only [MemoryStore.updateSettlement, hfind, hfiled] at hr
  rw [← hr]
  split <;> rfl

/-- The answer for an approved transfer whose callback is not filed. -/
theorem update_unfiled (hfind : s.owned tn id = some t)
    (hfiled : s.callbacks.lookup (scopedKey tn cb.spiMessageID) = none)
    (hst : t.status = .approved) (hspi : t.spiMessageID = cb.spiMessageID)
    (hne : t.spiMessageID ≠ []) :
    (∃ t', (s.updateSettlement H tn id cb evs aud).1 = .ok (t', false)) ∨
      ¬ Supported cb.status ∧ (s.updateSettlement H tn id cb evs aud).1 =
        .error (ErrKind.validation.wrap (go "unsupported settlement status")) := by
  cases hset : cb.status.settles with
  | none =>
    right
    constructor
    · rintro (hs | hs) <;> rw [hs] at hset <;> exact absurd hset (by simp [SettlementStatus.settles])
    · have hbad : t.recordSettlement cb =
          .error (ErrKind.validation.wrap (go "unsupported settlement status")) := by
        simp [Transfer.recordSettlement, ← hspi, hne, hst, hset, TransferStatus.Terminal]
      simp only [MemoryStore.updateSettlement, hfind, hfiled, hbad]
  | some st =>
    left
    have hgood := Transfer.recordSettlement_eq_ok.mpr ⟨hne, hspi, hst, st, hset, rfl⟩
    simp only [MemoryStore.updateSettlement, hfind, hfiled, hgood]
    exact ⟨_, rfl⟩

end update

theorem Supported.event_ne_none {st : SettlementStatus} (h : Supported st) :
    settlementEvent st ≠ none := by
  rcases h with rfl | rfl <;> simp [settlementEvent]

theorem supported_of_event {st : SettlementStatus} {ty : EventType}
    (h : settlementEvent st = some ty) : Supported st := by
  cases st with
  | accepted => exact .inl rfl
  | rejected => exact .inr rfl
  | other raw hraw => exact absurd h (by simp [settlementEvent])

/-- The hash that the store files for a callback that came without one. -/
theorem callbackHash_received (L : Lib) {cb : SettlementCallback} (hempty : cb.callbackHash = [])
    (at_ : Time) (cor : GoString) :
    MemoryStore.callbackHash L.digest (received L cb at_ cor) = cb.fingerprint L.digest := by
  have hrec : (received L cb at_ cor).callbackHash = cb.fingerprint L.digest :=
    if_pos hempty
  have hne : cb.fingerprint L.digest ≠ [] := fun hnil =>
    L.digest.sum256_ne_nil _ (hexEncode_eq_nil.mp hnil)
  rw [MemoryStore.callbackHash, hrec, if_neg hne]

/-- The callback hash that a call carries. -/
def carriedHash : Call → GoString
  | .recordSettlement cb => cb.callbackHash
  | _ => []

/-- No callback carries a hash of its own. -/
def HashEmpty (tr : Trace (switch E)) : Prop :=
  ∀ e ∈ tr, ∀ c ∈ startedCall e, carriedHash c = []

instance (tr : Trace (switch E)) : Decidable (HashEmpty tr) :=
  inferInstanceAs (Decidable (∀ e ∈ tr, ∀ c ∈ startedCall e, carriedHash c = []))

theorem HashEmpty.spawn (hempty : HashEmpty tr) {cid : Nat} {cb : SettlementCallback}
    (hc : spawnEv cid (.recordSettlement cb) ∈ tr) : cb.callbackHash = [] :=
  hempty _ hc _ rfl

/-- The callback behind an update of the trace. -/
theorem update_call {t₁ t₂ : Trace (switch E)} {cid : Nat} {tn : GoString}
    {cb : SettlementCallback} {evs : List Event} {aud : AuditRecord} {i : Input}
    {r : Except Err (Transfer × Bool)}
    (h : Runs E tl dl
      (t₁ ++ actEv cid (.store (.updateSettlement tn id cb evs aud)) i r :: t₂) w) :
    ∃ cb₀ at_ cor current, spawnEv cid (.recordSettlement cb₀) ∈ t₁ ∧
      cb = received E.toLib cb₀ at_ cor ∧ tn = cb₀.tenantID ∧ id = cb₀.transferID ∧
      Supported cb₀.status ∧ cb₀.spiMessageID ≠ [] ∧
      current.spiMessageID = cb₀.spiMessageID ∧
      Did (hist cid t₁) (.store (.getTransfer tn id)) (.ok current) := by
  obtain ⟨c, hc, hallow⟩ := (contract E tl dl).allows_at h
  cases hallow with
  | settle hc' htn hid hne hget hspi hty hevs =>
    subst hc'
    exact ⟨_, _, _, _, hc, rfl, htn, hid, supported_of_event hty, hne, hspi, hget⟩

/-- A call that updates read the transfer with the message id of the callback. -/
theorem update_sent (h : Runs E tl dl tr w) {cid : Nat} {tn : GoString}
    {cb : SettlementCallback} {evs : List Event} {aud : AuditRecord}
    {r : Except Err (Transfer × Bool)}
    (hd : Did (hist cid tr) (.store (.updateSettlement tn id cb evs aud)) r) :
    Sent w.state.store id tn cb.spiMessageID := by
  obtain ⟨i, hi⟩ := hd
  obtain ⟨t₁, t₂, rfl⟩ := List.append_of_mem (mem_hist.mp hi)
  obtain ⟨cb₀, at_, cor, current, -, rfl, -, -, -, hne, hspi, ⟨j, hj⟩⟩ := update_call h
  have hget : Did (hist cid (t₁ ++ actEv cid (.store (.updateSettlement tn id
      (received E.toLib cb₀ at_ cor) evs aud)) i r :: t₂)) (.store (.getTransfer tn id))
      (.ok current) :=
    ⟨j, mem_hist.mpr (List.mem_append_left _ (mem_hist.mp hj))⟩
  have hsent := read_sent h hget (by rwa [hspi])
  rwa [hspi] at hsent

end runs

end PixRail.Settlement
