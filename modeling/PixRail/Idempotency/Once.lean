import PixRail.Idempotency.Ledger
import PixRail.Switcher.Sample

/-!
# One transfer for an idempotency key

Any number of `CreateTransfer` calls may name the same tenant and the same
idempotency key, interleaved in any order.  One of them at most inserts, the
others are told the same transfer or a conflict, and a call that starts
after the insert asks nobody but the store.
-/

namespace PixRail.Idempotency

open Go Rail Events Store Interleave Switcher

variable {E : Env} {tl dl : Option E.Lim} {tr : Trace (switch E)} {w : World (switch E)}
  {cid : Nat}

/-! ## At most one insert -/

/-- The transfer `t` is stored for that tenant and idempotency key. -/
structure Has (s : MemoryStore) (tn key : GoString) (t : Transfer) : Prop where
  lookup : s.transfers.lookup t.id = some t
  tenantID : t.tenantID = tn
  idempotencyKey : t.idempotencyKey = key

theorem Has.unique {s : MemoryStore} (hf : s.Filed) {tn key : GoString} {t t' : Transfer}
    (h : Has s tn key t) (h' : Has s tn key t') : t = t' := by
  have hkey : idemKey t = idemKey t' := by
    rw [idemKey, idemKey, h.tenantID, h.idempotencyKey, h'.tenantID, h'.idempotencyKey]
  have hid := hf.filed _ _ h.lookup
  rw [hkey, hf.filed _ _ h'.lookup, Option.some.injEq] at hid
  have hl := h.lookup
  rw [← hid, h'.lookup, Option.some.injEq] at hl
  exact hl.symm

/-- What an entry of a trace inserted for that tenant and key, and which call
did. -/
def insertOf (tn key : GoString) :
    Ev (switch E) → Option (Nat × Transfer × List Event × List AuditRecord)
  | .act cid ⟨.store (.insertTransfer t evs auds), _, .ok ()⟩ =>
    if t.tenantID = tn ∧ t.idempotencyKey = key then some (cid, t, evs, auds) else none
  | _ => none

/-- The inserts of a trace for that tenant and key. -/
def inserts (tn key : GoString) (tr : Trace (switch E)) :
    List (Nat × Transfer × List Event × List AuditRecord) :=
  tr.filterMap (insertOf tn key)

theorem insertOf_quiet {tn key : GoString} {e : Ev (switch E)} (hq : Quiet e) :
    insertOf tn key e = none := by
  rcases e with ⟨cid, c⟩ | ⟨cid, o, i, r⟩
  · rfl
  · cases o with
    | store c =>
      cases c with
      | insertTransfer t evs auds =>
        obtain ⟨e, rfl, -⟩ := hq
        rfl
      | _ => rfl
    | _ => rfl

theorem inserts_snoc (tn key : GoString) (tr : Trace (switch E)) (e : Ev (switch E)) :
    inserts tn key (tr ++ [e]) = inserts tn key tr ++ (insertOf tn key e).toList := by
  rw [inserts, List.filterMap_append, List.filterMap_cons]
  cases insertOf tn key e <;> rfl

theorem mem_inserts {tn key : GoString} {t : Transfer} {evs : List Event}
    {auds : List AuditRecord} {i : Input}
    (ha : actEv cid (.store (.insertTransfer t evs auds)) i (.ok ()) ∈ tr)
    (htn : t.tenantID = tn) (hkey : t.idempotencyKey = key) :
    (cid, t, evs, auds) ∈ inserts tn key tr :=
  List.mem_filterMap.mpr ⟨_, ha, by simp [insertOf, htn, hkey]⟩

/-- The pair is free, or one insert has filed it. -/
theorem runs_inserts (h : Runs E tl dl tr w) (tn key : GoString) :
    inserts tn key tr = [] ∨
      ∃ b, inserts tn key tr = [b] ∧ b.2.1.tenantID = tn ∧ b.2.1.idempotencyKey = key ∧
        Holds w.state.store b.2.1 := by
  refine store_invariant (I := fun tr s => inserts tn key tr = [] ∨
    ∃ b, inserts tn key tr = [b] ∧ b.2.1.tenantID = tn ∧ b.2.1.idempotencyKey = key ∧
      Holds s b.2.1) (.inl rfl) ?_ ?_ h
  · intro tr w e w' _ hi _ hq _
    rw [inserts_snoc, insertOf_quiet hq]
    simpa using hi
  · intro tr w cid c call i r s' hrun hi _ _ hs
    have hk := runs_keyed hrun
    rw [inserts_snoc]
    cases hins : insertOf tn key (.act cid ⟨.store call, i, r⟩ : Ev (switch E)) with
    | none =>
      rw [Option.toList_none, List.append_nil]
      rcases hi with hnil | ⟨b, hb, htn, hkey, hh⟩
      · exact .inl hnil
      · exact .inr ⟨b, hb, htn, hkey, hh.step hk hs⟩
    | some b =>
      -- only an insert makes an entry, and an insert finds its key free
      cases hs with
      | @inserted t evs auds hnew hidem =>
        simp only [insertOf] at hins
        split at hins
        · rename_i hpair
          obtain rfl := Option.some.inj hins
          have hfree := (runs_filed hrun).lookup_eq_none hnew hidem
          rcases hi with hnil | ⟨b, hb, htn, hkey, t', hl, hsame⟩
          · rw [hnil]
            exact .inr ⟨_, rfl, hpair.1, hpair.2, t, by simp, .refl t⟩
          · have hfiled := (runs_filed hrun).filed _ _ hl
            rw [hsame.idemKey_eq, idemKey, htn, hkey, ← hpair.1, ← hpair.2] at hfiled
            rw [idemKey] at hfree
            rw [hfree] at hfiled
            exact absurd hfiled (by simp)
        · exact absurd hins (by simp)
      | _ => exact absurd hins (by simp [insertOf])

/-! ## What the calls return -/

theorem fingerprint_ne_nil (H : Digest) (req : CreateTransferRequest) :
    req.fingerprint H ≠ [] := by
  rw [CreateTransferRequest.fingerprint, hashParts, ne_eq, hexEncode_eq_nil]
  exact H.sum256_ne_nil _

/-- A lookup of a call finds the transfer of its tenant and key. -/
theorem found_has (hcolon : ColonFree tr) (h : Runs E tl dl tr w)
    {req : CreateTransferRequest} {t : Transfer}
    (hc : spawnEv cid (.createTransfer req) ∈ tr)
    (hfind : Did (hist cid tr) (.store (findFor req)) (.ok (some t))) :
    ∃ t', Has w.state.store (trimSpace req.tenantID) (trimSpace req.idempotencyKey) t' ∧
      SameOrder t t' := by
  obtain ⟨i, hi⟩ := hfind
  obtain ⟨hidem, t', hl, hsame⟩ := runs_found h (mem_hist.mp hi)
  obtain ⟨t'', hl'', hkey⟩ := (runs_filed h).entry _ _ hidem
  rw [hl, Option.some.injEq] at hl''
  subst hl''
  rw [← hsame.id] at hl
  -- both tenants come from calls of the run, so the colon ends them
  obtain ⟨cid', req', hc', htn', -, -⟩ := stored_request h hl
  have hfree' : 58 ∉ t'.tenantID := by
    rw [htn']
    exact hcolon _ _ hc' _ rfl
  obtain ⟨htn, hk⟩ := scopedKey_inj hfree' (hcolon _ _ hc _ rfl) hkey
  exact ⟨t', ⟨hl, htn, hk⟩, hsame⟩

/-- The insert of a call stores the transfer of its tenant and key. -/
theorem created_has (h : Runs E tl dl tr w) {req : CreateTransferRequest} {t : Transfer}
    {evs : List Event} {auds : List AuditRecord}
    (hc : spawnEv cid (.createTransfer req) ∈ tr)
    (hins : Did (hist cid tr) (.store (.insertTransfer t evs auds)) (.ok ())) :
    (cid, t, evs, auds) ∈
        inserts (trimSpace req.tenantID) (trimSpace req.idempotencyKey) tr ∧
      t.requestHash = req.fingerprint E.digest ∧
      ∃ t', Has w.state.store (trimSpace req.tenantID) (trimSpace req.idempotencyKey) t' ∧
        SameOrder t t' := by
  obtain ⟨i, hi⟩ := hins
  have ha := mem_hist.mp hi
  obtain ⟨t', hl, hsame⟩ := runs_inserted h ha
  obtain ⟨t₁, t₂, rfl⟩ := List.append_of_mem ha
  obtain ⟨req', hreq', htn, hkey, hhash⟩ := (insert_call h).spawn
  have he := h.spawn_unique hc (List.mem_append_left _ hreq')
  obtain rfl : req = req' := by injection he
  rw [← hsame.id] at hl
  refine ⟨mem_inserts ha htn hkey, hhash, t', ⟨hl, ?_, ?_⟩, hsame⟩
  · rw [hsame.tenantID, htn]
  · rw [hsame.idempotencyKey, hkey]

theorem replayOf_eq_ok {hash : GoString} {t : Transfer} {res : Result}
    (h : replayOf hash t = .ok res) :
    res = { transfer := t, idempotentReplay := true } ∧
      (t.requestHash = [] ∨ t.requestHash = hash) := by
  unfold replayOf at h
  split at h
  · exact absurd h (by simp)
  · rename_i hne
    rw [Except.ok.injEq] at h
    rw [not_and_or, not_not, not_not] at hne
    exact ⟨h.symm, hne⟩

theorem replayOf_eq_error {hash : GoString} {t : Transfer} {e : Err}
    (h : replayOf hash t = .error e) : t.requestHash ≠ hash := by
  unfold replayOf at h
  split at h
  · rename_i hne
    exact hne.2
  · exact absurd h (by simp)

/-- A successful call returns the transfer of its tenant and key, and that
transfer has its fingerprint. -/
theorem returned_ok (hcolon : ColonFree tr) (h : Runs E tl dl tr w)
    {req : CreateTransferRequest} {res : Result}
    (hret : Returned w cid (.createTransfer req) (.result (.ok res))) :
    ∃ t, Has w.state.store (trimSpace req.tenantID) (trimSpace req.idempotencyKey) t ∧
      res.transfer.id = t.id ∧ t.requestHash = req.fingerprint E.digest := by
  have hc := (h.thread hret).1
  obtain ⟨r, hr, hret⟩ := (contract E tl dl).returns_of_thread h hret
  obtain rfl := (Outcome.result.inj hr)
  generalize hok : Except.ok res = r at hret
  cases hret with
  | replayed hfind =>
    obtain ⟨rfl, hhash⟩ := replayOf_eq_ok hok.symm
    obtain ⟨t', hhas, hsame⟩ := found_has hcolon h hc hfind
    refine ⟨t', hhas, hsame.id.symm, ?_⟩
    rw [hsame.requestHash]
    refine hhash.resolve_left fun hnil => ?_
    obtain ⟨_, req', -, -, -, hfp⟩ := stored_request h hhas.lookup
    rw [hsame.requestHash, hnil] at hfp
    exact fingerprint_ne_nil _ _ hfp.symm
  | created hins =>
    obtain rfl := Except.ok.inj hok
    obtain ⟨-, hhash, t', hhas, hsame⟩ := created_has h hc hins
    exact ⟨t', hhas, hsame.id.symm, by rw [hsame.requestHash, hhash]⟩
  | lost hh => exact absurd hok (by simp)
  | dict hd => exact absurd hok (by simp)
  | fraud hf => exact absurd hok (by simp)
  | failed hne => exact absurd hok (by simp)

/-- A call that did not replay inserted. -/
theorem returned_created (h : Runs E tl dl tr w) {req : CreateTransferRequest} {res : Result}
    (hret : Returned w cid (.createTransfer req) (.result (.ok res)))
    (hnew : res.idempotentReplay = false) :
    ∃ t evs auds, (cid, t, evs, auds) ∈
      inserts (trimSpace req.tenantID) (trimSpace req.idempotencyKey) tr := by
  have hc := (h.thread hret).1
  obtain ⟨r, hr, hret⟩ := (contract E tl dl).returns_of_thread h hret
  obtain rfl := (Outcome.result.inj hr)
  generalize hok : Except.ok res = r at hret
  cases hret with
  | replayed hfind =>
    obtain ⟨rfl, -⟩ := replayOf_eq_ok hok.symm
    exact absurd hnew (by simp)
  | created hins => exact ⟨_, _, _, (created_has h hc hins).1⟩
  | lost hh => exact absurd hok (by simp)
  | dict hd => exact absurd hok (by simp)
  | fraud hf => exact absurd hok (by simp)
  | failed hne => exact absurd hok (by simp)

/-- A lookup that finds nothing finds no entry. -/
theorem find_eq_none {s : MemoryStore} (hf : s.Filed) {ctx : Ctx} {tn key : GoString}
    (h : s.findByIdempotency ctx tn key = .ok none) :
    s.idempotency.lookup (scopedKey tn key) = none := by
  unfold MemoryStore.findByIdempotency at h
  split at h
  · exact absurd h (by simp)
  · split at h
    · assumption
    · rename_i id hid
      obtain ⟨t, ht, -⟩ := hf.entry _ _ hid
      rw [ht] at h
      exact absurd h (by simp)

/-- A call whose insert is refused finds the transfer that refused it. -/
theorem not_lost (hids : (newIDs tr).Nodup) (h : Runs E tl dl tr w)
    {req : CreateTransferRequest} (hc : spawnEv cid (.createTransfer req) ∈ tr)
    {h₀ : History} {i i' : Input} {t : Transfer} {evs : List Event} {auds : List AuditRecord}
    {e : Err} :
    hist cid tr ≠ h₀ ++ [⟨.store (.insertTransfer t evs auds), i, .error e⟩,
      ⟨.store (findFor req), i', .ok none⟩] := by
  intro hh
  obtain ⟨t₁, t₂, rfl, -, hh₂⟩ := hist_split hh
  obtain ⟨t₃, t₄, rfl, -, -⟩ := hist_split (hh₂.trans (List.nil_append _).symm)
  obtain ⟨w₁, w₂, -, -, h₂, hrest⟩ := runs_at h
  obtain ⟨w₃, w₄, h₃, hfind, -⟩ := hrest.at_entry
  obtain ⟨⟨req', hc', htn, hkey, -⟩, -, -⟩ := insert_call h
  have hreq := h.spawn_unique hc (List.mem_append_left _ hc')
  obtain rfl : req = req' := by injection hreq
  have hids₁ : (newIDs t₁).Nodup :=
    hids.sublist ((List.sublist_append_left t₁ _).filterMap drawnID)
  obtain ⟨id, hid⟩ := runs_refused hids₁ h₂ h₃
  have hfree := find_eq_none (runs_filed (h₂.append h₃))
    (congrArg Prod.fst (Option.some.inj (step_store hfind)))
  rw [idemKey, htn, hkey, hfree] at hid
  exact absurd hid (by simp)

/-- The DICT and the fraud port did not answer the call with a conflict of
their own. -/
def PortsClear (h : History) : Prop :=
  (∀ tn key ty e, Did h (.resolve tn key ty) (.error e) → ¬ e.is .conflict) ∧
    ∀ req dict e, Did h (.score req dict) (.error e) → ¬ e.is .conflict

/-- A call with the stored fingerprint does not fail with a conflict. -/
theorem returned_error (hids : (newIDs tr).Nodup) (hcolon : ColonFree tr)
    (h : Runs E tl dl tr w) {req : CreateTransferRequest} {e : Err}
    (hret : Returned w cid (.createTransfer req) (.result (.error e)))
    (hports : PortsClear (hist cid tr)) {t : Transfer}
    (hhas : Has w.state.store (trimSpace req.tenantID) (trimSpace req.idempotencyKey) t)
    (hhash : t.requestHash = req.fingerprint E.digest) : ¬ e.is .conflict := by
  have hc := (h.thread hret).1
  obtain ⟨r, hr, hret⟩ := (contract E tl dl).returns_of_thread h hret
  obtain rfl := (Outcome.result.inj hr)
  generalize herr : (Except.error e : Except Err Result) = r at hret
  cases hret with
  | replayed hfind =>
    obtain ⟨t', hhas', hsame⟩ := found_has hcolon h hc hfind
    obtain rfl := hhas.unique (runs_filed h) hhas'
    have hne := replayOf_eq_error herr.symm
    rw [← hsame.requestHash] at hne
    exact absurd hhash hne
  | created hins => exact absurd herr (by simp)
  | lost hh => exact absurd hh (not_lost hids h hc)
  | dict hd =>
    obtain rfl := Except.error.inj herr
    exact hports.1 _ _ _ _ hd
  | fraud hf =>
    obtain rfl := Except.error.inj herr
    exact hports.2 _ _ _ hf
  | failed hne =>
    obtain rfl := Except.error.inj herr
    exact hne

/-! ## A call after the insert -/

/-- The answers a call gets once `t` is stored for its tenant and key. -/
def EnsStored (req : CreateTransferRequest) (t : Transfer) : (o : Op) → Input → o.Ret → Prop
  | .store (.findByIdempotency tn key), i, r =>
    tn = trimSpace req.tenantID → key = trimSpace req.idempotencyKey →
      (∃ e, i.ctx = some e ∧ r = .error e.err) ∨ ∃ t', r = .ok (some t') ∧ SameOrder t t'
  | _, _, _ => True

/-- The two operations of a replay: the clock, for a request without a time,
and the lookup. -/
def ReplayOp (req : CreateTransferRequest) (h : History) (o : Op) : Prop :=
  h.length < 2 ∧ (o = .now ∨ o = .store (findFor req))

/-- The result of a replay: the stored transfer, or the error of a request
that does not validate or of a context that is done at the lookup. -/
def ReplayResult (req : CreateTransferRequest) (t : Transfer) (h : History)
    (r : Except Err Result) : Prop :=
  (∃ t', r = .ok { transfer := t', idempotentReplay := true } ∧ SameOrder t t') ∨
    (∃ e, r = .error e ∧ (normalize req 0).validate = .error e) ∨
    ∃ e i, r = .error e.err ∧ i.ctx = some e ∧
      (⟨.store (findFor req), i, .error e.err⟩ : Action sig Input) ∈ h

/-- The result of a call that finds the order of `t` under its key. -/
def LateResult (H : Digest) (req : CreateTransferRequest) (t : Transfer) (h : History)
    (r : Except Err Result) : Prop :=
  (∃ t', r = replayOf (req.fingerprint H) t' ∧ SameOrder t t') ∨
    (∃ e, r = .error e ∧ (normalize req 0).validate = .error e) ∨
    ∃ e i, r = .error e.err ∧ i.ctx = some e ∧
      (⟨.store (findFor req), i, .error e.err⟩ : Action sig Input) ∈ h

theorem LateResult.replay {H : Digest} {req : CreateTransferRequest} {t : Transfer}
    (hhash : t.requestHash = req.fingerprint H) {h : History} {r : Except Err Result}
    (hr : LateResult H req t h r) : ReplayResult req t h r := by
  rcases hr with ⟨t', rfl, hsame⟩ | hr | hr
  · refine .inl ⟨t', ?_, hsame⟩
    rw [replayOf, if_neg]
    rintro ⟨-, hne⟩
    exact hne (by rw [hsame.requestHash, hhash])
  · exact .inr (.inl hr)
  · exact .inr (.inr hr)

theorem createTransfer_late (L : Lib) (req : CreateTransferRequest) (t : Transfer) :
    Prog.Obeys (EnsStored req t) (ReplayOp req) (LateResult L.digest req t) []
      (createTransfer L req) := by
  have hnow : Prog.Obeys (EnsStored req t) (ReplayOp req)
      (fun h _ => h.length < 2) [] (orNow req.requestedAt) := by
    unfold orNow
    split
    · exact ⟨⟨by simp, .inl rfl⟩, fun i r _ => Nat.one_lt_two⟩
    · exact Nat.zero_lt_succ 1
  refine hnow.bind fun h₁ at_ _ hlen => ?_
  have hval : (normalize req at_).validate = (normalize req 0).validate := rfl
  dsimp only
  split
  · rename_i e he
    exact .inr (.inl ⟨e, rfl, by rw [← hval, he]⟩)
  · rw [fingerprint_normalize]
    refine ⟨⟨hlen, .inr rfl⟩, fun i r hr => ?_⟩
    rcases hr rfl rfl with ⟨e, hctx, rfl⟩ | ⟨t', rfl, hsame⟩
    · exact .inr (.inr ⟨e, i, rfl, hctx, List.mem_append_right _ (List.mem_singleton_self _)⟩)
    · exact .inl ⟨t', rfl, hsame⟩

/-- The stored transfer stays and keeps its entry. -/
theorem stored_stays {t₁ t₂ : Trace (switch E)} {w₁ w₂ : World (switch E)} {t : Transfer}
    {tn key : GoString} (h₁ : Runs E tl dl t₁ w₁) (h₂ : Run w₁ t₂ w₂)
    (hhas : Has w₁.state.store tn key t) :
    w₂.state.store.idempotency.lookup (scopedKey tn key) = some t.id ∧
      Holds w₂.state.store t := by
  refine runs_stable (P := fun s => s.idempotency.lookup (scopedKey tn key) = some t.id ∧
    Holds s t) (fun hr hp hs => ⟨hs.idempotency_mono (runs_filed hr) hp.1,
      hp.2.step (runs_keyed hr) hs⟩) h₁ h₂ ?_
  have hfiled := (runs_filed h₁).filed _ _ hhas.lookup
  rw [idemKey, hhas.tenantID, hhas.idempotencyKey] at hfiled
  exact ⟨hfiled, t, hhas.lookup, .refl t⟩

theorem stored_ens {s : MemoryStore} {H : Digest} {req : CreateTransferRequest} {t : Transfer}
    (hidem : s.idempotency.lookup
      (scopedKey (trimSpace req.tenantID) (trimSpace req.idempotencyKey)) = some t.id)
    (hh : Holds s t) {tn key : GoString} {i : Input} {r : Except Err (Option Transfer)}
    {s' : MemoryStore}
    (h : storeHandle H (.findByIdempotency tn key) i s = some (r, s')) :
    EnsStored req t (.store (.findByIdempotency tn key)) i r := by
  intro htn hkey
  subst htn hkey
  rw [storeHandle, Option.some.injEq, Prod.mk.injEq] at h
  obtain ⟨rfl, -⟩ := h
  unfold MemoryStore.findByIdempotency
  cases hctx : i.ctx with
  | some e => exact .inl ⟨e, rfl, rfl⟩
  | none =>
    obtain ⟨t', hl, hsame⟩ := hh
    refine .inr ⟨t', ?_, hsame⟩
    simp only [hidem, hl]

/-- A call that starts when a transfer is stored for its tenant and key reads
the clock at most, looks the key up, and returns a result in `Q`. -/
structure LateCall (w : World (switch E)) (cid : Nat) (req : CreateTransferRequest)
    (Q : History → Except Err Result → Prop) (h : History) : Prop where
  ops : ∀ a ∈ h, a.op = .now ∨ a.op = .store (findFor req)
  few : h.length ≤ 2
  idle : ∀ a ∈ h, ∀ wa wb : World (switch E), Step wa (.act cid a) wb → wb.state = wa.state
  progress : (∃ o k, w.threads cid = some ⟨.createTransfer req, .call o k⟩ ∧
      ReplayOp req h o) ∨
    ∃ r, Returned w cid (.createTransfer req) (.result r) ∧ Q h r

theorem LateCall.mono {req : CreateTransferRequest} {Q Q' : History → Except Err Result → Prop}
    {h : History} (hq : ∀ r, Q h r → Q' h r) (hl : LateCall w cid req Q h) :
    LateCall w cid req Q' h := by
  refine ⟨hl.ops, hl.few, hl.idle, hl.progress.imp id ?_⟩
  rintro ⟨r, hret, hr⟩
  exact ⟨r, hret, hq r hr⟩

/-- The call returns the stored transfer as a replay. -/
abbrev Replays (w : World (switch E)) (cid : Nat) (req : CreateTransferRequest)
    (t : Transfer) (h : History) : Prop :=
  LateCall w cid req (ReplayResult req t) h

theorem replayOp_idle {req : CreateTransferRequest} {a : Action sig Input}
    (ha : a.op = .now ∨ a.op = .store (findFor req)) {wa wb : World (switch E)}
    (hstep : Step wa (.act cid a) wb) : wb.state = wa.state := by
  cases hstep with
  | @act _ _ o _ i r s' hthread hhandle =>
    rw [World.put_state]
    rcases ha with ha | ha
    · dsimp only at ha
      subst ha
      exact (Prod.mk.inj (Option.some.inj hhandle)).2.symm
    · dsimp only at ha
      subst ha
      exact (Prod.mk.inj (Option.some.inj hhandle)).2.symm

theorem late_call {t₁ t₂ : Trace (switch E)} {w₁ w₂ : World (switch E)}
    {req : CreateTransferRequest} {t : Transfer} (h₁ : Runs E tl dl t₁ w₁)
    (h₂ : Run w₁ (spawnEv cid (.createTransfer req) :: t₂) w₂)
    (hhas : Has w₁.state.store (trimSpace req.tenantID) (trimSpace req.idempotencyKey) t) :
    LateCall w₂ cid req (LateResult E.digest req t) (hist cid t₂) := by
  have hall := h₁.append h₂
  have hob : (body E.toLib (.createTransfer req)).Obeys (EnsStored req t) (ReplayOp req)
      (fun h out => ∃ r, out = .result r ∧ LateResult E.digest req t h r) [] :=
    ((createTransfer_late E.toLib req t).mono fun _ r _ hr => ⟨r, rfl, hr⟩).map
  have hc : spawnEv cid (.createTransfer req) ∈
      t₁ ++ spawnEv cid (.createTransfer req) :: t₂ := by simp
  -- the call has done nothing before it starts
  have hfree : hist cid t₁ = [] := by
    rw [← List.nil_append (_ :: t₂)] at h₂
    obtain ⟨wa, wb, hnil, hstep, -⟩ := h₂.at_entry
    obtain rfl := hnil.nil_inv
    cases hstep with
    | spawn _ hfree => exact h₁.hist_eq_nil hfree
  have hhist : ∀ u, hist cid (t₁ ++ spawnEv cid (.createTransfer req) :: u) = hist cid u := by
    intro u
    rw [hist_append, hfree, List.nil_append]
    rfl
  have hens : ∀ a ∈ hist cid t₂, EnsStored req t a.op a.inp a.ret := by
    intro a ha
    obtain ⟨u₁, u₂, rfl⟩ := List.append_of_mem (mem_hist.mp ha)
    rw [← List.cons_append] at h₂
    obtain ⟨wa, wb, ha₁, hstep, -⟩ := h₂.at_entry
    obtain ⟨hidem, hh⟩ := stored_stays h₁ ha₁ hhas
    obtain ⟨o, i, r⟩ := a
    cases o with
    | store c =>
      cases c with
      | findByIdempotency tn key => exact stored_ens hidem hh (step_store hstep)
      | _ => trivial
    | _ => trivial
  have hop : ∀ u₁ a u₂, t₂ = u₁ ++ .act cid a :: u₂ → ReplayOp req (hist cid u₁) a.op := by
    intro u₁ a u₂ hu
    subst hu
    rw [← List.cons_append, ← List.append_assoc] at hall
    obtain ⟨wa, wb, ha₁, hstep, -⟩ := hall.at_entry
    have hstart : spawnEv cid (.createTransfer req) ∈
        t₁ ++ spawnEv cid (.createTransfer req) :: u₁ := by simp
    have hp := ha₁.obeys_step hstep hstart hob fun b hb => hens b ?_
    · rwa [hhist] at hp
    · rw [hhist] at hb
      rw [hist_append]
      exact List.mem_append_left _ hb
  have hops : ∀ a ∈ hist cid t₂, a.op = .now ∨ a.op = .store (findFor req) := by
    intro a ha
    obtain ⟨u₁, u₂, hu⟩ := List.append_of_mem (mem_hist.mp ha)
    exact (hop u₁ a u₂ hu).2
  refine ⟨hops, ?_, fun a ha wa wb => replayOp_idle (hops a ha), ?_⟩
  · rcases List.eq_nil_or_concat (hist cid t₂) with hnil | ⟨l, a, hl⟩
    · simp [hnil]
    · rw [List.concat_eq_append] at hl
      obtain ⟨u₁, u₂, hu, hl₁, -⟩ := hist_split hl
      have hlen := (hop u₁ a u₂ hu).1
      rw [hl₁] at hlen
      rw [hl, List.length_append, List.length_singleton]
      omega
  · obtain ⟨p, hp⟩ := hall.thread_of_spawn hc
    have hleft := hall.obeys_thread hp hob (by rwa [hhist])
    rw [hhist] at hleft
    cases p with
    | call o k => exact .inl ⟨o, k, hp, hleft.1⟩
    | ret out =>
      obtain ⟨r, rfl, hr⟩ := hleft
      exact .inr ⟨r, hp, hr⟩

/-! ## The contract of an idempotency key -/

/-- What a run guarantees for one tenant and one idempotency key. -/
structure OnePerKey (E : Env) (tl dl : Option E.Lim) (tr : Trace (switch E))
    (w : World (switch E)) (tn key : GoString) : Prop where
  /-- One insert at most, and the outbox and the audit log are what the writes
  of the run handed over. -/
  batch : (inserts tn key tr).length ≤ 1
  log : w.state.store.events.map (·.event) = tr.flatMap written ∧
    w.state.store.audit = tr.flatMap audited
  /-- One transfer at most, the one of that insert. -/
  stored : ∀ t, Has w.state.store tn key t →
    (∃ b, inserts tn key tr = [b] ∧ SameOrder b.2.1 t) ∧
      ∀ t', Has w.state.store tn key t' → t' = t
  /-- A call that succeeds returns that transfer, and has its fingerprint. -/
  success : ∀ cid req res, Returned w cid (.createTransfer req) (.result (.ok res)) →
    trimSpace req.tenantID = tn → trimSpace req.idempotencyKey = key →
    (∃ t, Has w.state.store tn key t) ∧
      ∀ t, Has w.state.store tn key t →
        res.transfer.id = t.id ∧ t.requestHash = req.fingerprint E.digest
  /-- One success at most is not a replay. -/
  fresh : ∀ cid cid' req req' res res',
    Returned w cid (.createTransfer req) (.result (.ok res)) →
    Returned w cid' (.createTransfer req') (.result (.ok res')) →
    trimSpace req.tenantID = tn → trimSpace req.idempotencyKey = key →
    trimSpace req'.tenantID = tn → trimSpace req'.idempotencyKey = key →
    res.idempotentReplay = false → res'.idempotentReplay = false → cid = cid'
  /-- A call with the stored fingerprint does not fail with a conflict. -/
  noConflict : ∀ cid req e t, Returned w cid (.createTransfer req) (.result (.error e)) →
    trimSpace req.tenantID = tn → trimSpace req.idempotencyKey = key →
    Has w.state.store tn key t → t.requestHash = req.fingerprint E.digest →
    PortsClear (hist cid tr) → ¬ e.is .conflict
  /-- A call that starts after the insert is a replay. -/
  late : ∀ t₁ t₂ w₁ cid req t, tr = t₁ ++ spawnEv cid (.createTransfer req) :: t₂ →
    Runs E tl dl t₁ w₁ → Run w₁ (spawnEv cid (.createTransfer req) :: t₂) w →
    trimSpace req.tenantID = tn → trimSpace req.idempotencyKey = key →
    Has w₁.state.store tn key t → t.requestHash = req.fingerprint E.digest →
    Replays w cid req t (hist cid t₂)

theorem inserts_length (h : Runs E tl dl tr w) (tn key : GoString) :
    (inserts tn key tr).length ≤ 1 := by
  rcases runs_inserts h tn key with hnil | ⟨b, hb, -⟩
  · simp [hnil]
  · simp [hb]

/-- Two calls with the sample request look the key up before either inserts. -/
def raceLabels : List (Label (switch sampleEnv)) :=
  decideLabels 0 newYear sampleRequest sampleDict sampleFraud ++
    decideLabels 1 newYear sampleRequest sampleDict sampleFraud ++
    buildLabels 0 newYear 1 5 ++ buildLabels 1 newYear 7 5 ++
    [.step 0 (tick newYear), .step 1 (tick newYear), .step 1 (tick newYear)]

set_option maxRecDepth 20000 in
theorem race_isSome :
    ((World.init (State.initial sampleEnv none none)).exec raceLabels).isSome := by
  decide +kernel

/-- The trace and the world of the race. -/
def race : Trace (switch sampleEnv) × World (switch sampleEnv) :=
  World.ran _ raceLabels race_isSome

end PixRail.Idempotency
