import PixRail.Api.Roles
import PixRail.Outbox.Delivery
import PixRail.Tenancy.Ownership

/-!
# What a response shows

A response shows a transfer or records of the outbox only to a key of their
tenant (`responses_confined`).  The tenants of the keys have no colon, because
the configuration is cut at the colons, and this is what keeps the
idempotency keys of two tenants apart.
-/

namespace PixRail.Api

open Go Config Rail Events Store Interleave Switcher Tenancy

section server

variable {E : Env} {srv : Server} {L : ServerLib} {tl dl : Option E.Lim} {t₀ : Time}
  {tr : Trace (server E srv L).system} {w : World (server E srv L).system} {v : World (switch E)}
  {cid : Nat}

/-- The calls of a server with the keys of a configuration name tenants
without a colon. -/
theorem below_colonFree {raw : GoString} (hkeys : parseAPIKeys raw = .ok srv.keys)
    (h : ServerRuns E srv L tl dl t₀ tr w) (hb : Below tl dl tr w v) :
    ColonFree ((server E srv L).innerTrace tr) := by
  intro cid c hc tn htn
  obtain ⟨d, -, hcalls⟩ := caller h hb hc
  rcases hcalls.cases with ⟨r, e, key, rfl, hadm, hmakes⟩ | ⟨limit, rfl, rfl⟩ |
    ⟨policy, limit, rfl, rfl⟩
  · have hclean := parsed_clean hkeys hadm.lookup
    rw [hmakes.tenant_eq hclean] at htn
    obtain rfl := Option.some.inj htn
    exact hclean.colon
  · cases htn
  · cases htn

/-- The transfer that a response shows was given to the call of the request by
the store. -/
structure Shown (srv : Server) (L : ServerLib) (trace : Trace (switch E)) (cid : Nat)
    (r : HttpRequest) (c : Call) (t : Transfer) : Prop where
  authorised : ∃ e key, Admitted srv r e key ∧ Makes srv L r key.tenantID e c
  started : spawnEv cid c ∈ trace
  given : ∃ call x, Did (hist cid trace) (.store call) x ∧ givenBy call x = some t

theorem shown (hb : Below tl dl tr w v) {r : HttpRequest} {resp : HttpResponse}
    (hresp : Responded w cid r resp) {data : TransferData} {replay : Bool}
    (hbody : resp.body = .transfer data replay) :
    ∃ c out t, Returned v cid c out ∧ resp.toReply = replyTo c out ∧
      resp.body = transferResponse t replay ∧
      Shown srv L ((server E srv L).innerTrace tr) cid r c t := by
  have hplain : ∀ err, resp.body ≠ (handleDomainError err).body := fun err he =>
    (plain_handleDomainError err).ne_transfer data replay (he.symm.trans hbody)
  rcases answered hb hresp with ⟨g, -, -, hdirect, -⟩ |
    ⟨g, c, i, h', out, g', -, hret, hcalls, hreply, -⟩
  · exact absurd hbody (hdirect.ne_transfer data replay)
  · have hb' : resp.body = (replyTo c out).body := congrArg (·.body) hreply
    have hstarted := (hb.run.thread hret).1
    cases out with
    | result x =>
      cases x with
      | error err => exact absurd hb' (hplain err)
      | ok res =>
        have hrep : res.idempotentReplay = replay := by
          rw [hbody] at hb'
          cases hb'
          rfl
        obtain ⟨call, x, hlast, hg, -⟩ :=
          ((grounds E tl dl).returns_of_thread hb.run hret _ rfl).source
        refine ⟨c, _, res.transfer, hret, hreply, ?_, hcalls, hstarted, call, x, hlast.did, hg⟩
        rw [hb', ← hrep]
        rfl
    | transfer x =>
      cases x with
      | error err => exact absurd hb' (hplain err)
      | ok t =>
        have hrep : replay = false := by
          rw [hbody] at hb'
          cases hb'
          rfl
        subst hrep
        have hfits := returned_fits hb.run hret
        cases c with
        | getTransfer tn id =>
          obtain ⟨x, hx, hd⟩ := (contract E tl dl).returns_of_thread hb.run hret
          obtain rfl := Outcome.transfer.inj hx
          exact ⟨_, _, t, hret, hreply, hb', hcalls, hstarted, _, _, hd, rfl⟩
        | createTransfer req | submitToSPI tn id cor | recordReview req | recordSettlement cb
        | submitPendingSPI limit | drain policy limit => exact hfits.elim
    | batch x | stats x => exact absurd hb' (hplain _)

/-- The call of a request acts for the tenant of its key. -/
theorem Shown.tenant {raw : GoString} (hkeys : parseAPIKeys raw = .ok srv.keys)
    (h : ServerRuns E srv L tl dl t₀ tr w) (hb : Below tl dl tr w v) {r : HttpRequest} {c : Call}
    {t : Transfer} (hs : Shown srv L ((server E srv L).innerTrace tr) cid r c t) :
    ∃ key, srv.keys.lookup r.token = some key ∧ t.tenantID = key.tenantID := by
  obtain ⟨e, key, hadm, hmakes⟩ := hs.authorised
  obtain ⟨call, x, hd, hg⟩ := hs.given
  have htenant := hmakes.tenant_eq (parsed_clean hkeys hadm.lookup)
  exact ⟨key, hadm.lookup,
    given_tenant (below_colonFree hkeys h hb) hb.run hs.started htenant hd hg⟩

/-- The operation of an own action of a call that had not begun after `t₁`. -/
theorem own_at {t₁ t₂ : Trace (server E srv L).system} {w₁ : World (server E srv L).system}
    (h₂ : Run w₁ t₂ w) (hnil : hist cid t₁ = []) {g : LocalHistory}
    (hh : hist cid (t₁ ++ t₂) = g.map (server E srv L).ownAct) {o : ServerOp} {x : o.Ret}
    (hd : Did g o x) :
    ∃ a b u u' i, Run w₁ a u ∧ Step u (.act cid ((server E srv L).ownAct ⟨o, i, x⟩)) u' ∧
      Run u' b w ∧ t₂ = a ++ .act cid ((server E srv L).ownAct ⟨o, i, x⟩) :: b := by
  obtain ⟨i, hi⟩ := hd
  have hmem : (server E srv L).ownAct ⟨o, i, x⟩ ∈ hist cid t₂ := by
    rw [hist_append, hnil, List.nil_append] at hh
    rw [hh]
    exact List.mem_map_of_mem hi
  obtain ⟨a, b, rfl⟩ := List.append_of_mem (mem_hist.mp hmem)
  obtain ⟨u, u', ha, hstep, hb⟩ := h₂.at_entry
  exact ⟨a, b, u, u', i, ha, hstep, hb, rfl⟩

/-- The records that the server read were those of the store. -/
theorem outbox_read {w₁ w₂ : World (server E srv L).system} {i : ServerInput}
    {records : List OutboxRecord}
    (hstep : Step w₁ (.act cid ((server E srv L).ownAct ⟨.outbox, i, .ok records⟩)) w₂) :
    w₁.state.1.store.events = records ∧ w₂.state = w₁.state := by
  cases hstep with
  | act hthread hhandle =>
    simp only [Layer.answer, serverHandle, Option.map_some, Option.some.injEq,
      Prod.mk.injEq] at hhandle
    obtain ⟨hread, rfl⟩ := hhandle
    unfold MemoryStore.outbox at hread
    split at hread
    · cases hread
    · exact ⟨Except.ok.inj hread, rfl⟩

/-- The reply of a service call lists no records. -/
theorem replyTo_ne_outbox (c : Call) (out : Outcome) (records : List OutboxRecord) :
    (replyTo c out).body ≠ .outbox records := by
  have herr : ∀ err, (handleDomainError err).body ≠ .outbox records := by
    intro err he
    have hplain := plain_handleDomainError err
    rwa [he] at hplain
  cases out with
  | result x =>
    cases x with
    | error err => exact herr err
    | ok res => exact nofun
  | transfer x =>
    cases x with
    | error err => exact herr err
    | ok t => exact nofun
  | batch x | stats x => exact herr _

/-- A listing is what the outbox held for the tenant of the key at some time
after the request had begun. -/
theorem listed (t₁ : Trace (server E srv L).system) {t₂ : Trace (server E srv L).system}
    {w₁ : World (server E srv L).system}
    (hb : Below tl dl (t₁ ++ t₂) w v) (h₂ : Run w₁ t₂ w) (hnil : hist cid t₁ = [])
    {r : HttpRequest} {resp : HttpResponse} (hresp : Responded w cid r resp)
    {records : List OutboxRecord} (hbody : resp.body = .outbox records) :
    ∃ key a b u, Admitted srv r .outbox key ∧ Run w₁ a u ∧ Run u b w ∧
      records = u.state.1.store.events.filter (fun record =>
        record.event.tenantID = key.tenantID) := by
  rcases answered hb hresp with ⟨g, hh, -, hdirect, -⟩ | ⟨g, c, i, h', out, g', -, -, -, hreply, -⟩
  · generalize hre : resp.toReply = reply at hdirect
    have hb' : resp.body = reply.body := congrArg (·.body) hre
    cases hdirect with
    | plain hplain hfail =>
      rw [← hb', hbody] at hplain
      exact hplain.elim
    | @listed key all hadm hlist =>
      rw [hbody] at hb'
      cases hb'
      obtain ⟨a, b, u, u', i, ha, hstep, hb, -⟩ := own_at h₂ hnil hh hlist
      refine ⟨key, a, _, u, hadm, ha, (Run.nil.snoc hstep).append hb, ?_⟩
      rw [(outbox_read hstep).1]
  · have hb' : resp.body = (replyTo c out).body := congrArg (·.body) hreply
    exact absurd (hb'.symm.trans hbody) (replyTo_ne_outbox c out records)

/-- The records of an earlier outbox are in a later one, up to their relay
state. -/
theorem entries_later {t₁ t₂ : Trace (server E srv L).system}
    {w₁ w₂ : World (server E srv L).system} (h₁ : ServerRuns E srv L tl dl t₀ t₁ w₁)
    (h₂ : Run w₁ t₂ w₂) :
    w₁.state.1.store.events.map OutboxRecord.entry <+:
      w₂.state.1.store.events.map OutboxRecord.entry := by
  obtain ⟨v₁, hb₁⟩ := exists_below h₁
  obtain ⟨v₂, hb₂, hrun⟩ := hb₁.later h₁ h₂
  rw [← hb₁.state, ← hb₂.state]
  exact Outbox.runs_entries hb₁.run hrun

/-- In every run of a server with the keys of a configuration, a response
shows a transfer only to a key of its tenant, and the transfer is stored with
the order that is shown; and it shows records of the outbox only to a key of
their tenant, and these name stored transfers of that tenant. -/
theorem responses_confined {raw : GoString} (hkeys : parseAPIKeys raw = .ok srv.keys)
    (h : ServerRuns E srv L tl dl t₀ tr w) {r : HttpRequest} {resp : HttpResponse}
    (hresp : Responded w cid r resp) :
    (∀ data replay, resp.body = .transfer data replay →
      ∃ key shown stored, srv.keys.lookup r.token = some key ∧ data.tenantID = key.tenantID ∧
        transferResponse shown replay = .transfer data replay ∧
        w.state.1.store.transfers.lookup data.id = some stored ∧ SameOrder shown stored) ∧
      ∀ records, resp.body = .outbox records →
        ∃ key, srv.keys.lookup r.token = some key ∧ ∀ record ∈ records,
          record.event.tenantID = key.tenantID ∧
            ∃ stored, w.state.1.store.transfers.lookup record.event.transferID = some stored ∧
              stored.tenantID = key.tenantID := by
  obtain ⟨v, hb⟩ := exists_below h
  constructor
  · intro data replay hbody
    obtain ⟨c, out, t, -, -, hbody', hs⟩ := shown hb hresp hbody
    obtain ⟨key, hlookup, htenant⟩ := hs.tenant hkeys h hb
    obtain ⟨call, x, hd, hg⟩ := hs.given
    obtain ⟨t', hl, hsame⟩ := given_order hb.run hd hg
    rw [hb.state] at hl
    rw [hbody] at hbody'
    cases hbody'
    exact ⟨key, t, t', hlookup, htenant, rfl, hl, hsame⟩
  · intro records hbody
    obtain ⟨key, a, b, u, hadm, ha, hlater, rfl⟩ := listed [] hb h rfl hresp hbody
    refine ⟨key, hadm.lookup, fun record hrecord => ?_⟩
    obtain ⟨hmem, htenant⟩ := List.mem_filter.mp hrecord
    have htenant := of_decide_eq_true htenant
    -- the event was in the outbox then, and is there now
    have hentry := (entries_later ha hlater).subset
      (List.mem_map_of_mem (f := OutboxRecord.entry) hmem)
    obtain ⟨record', hmem', he⟩ := List.mem_map.mp hentry
    rw [← hb.state] at hmem'
    obtain ⟨stored, hl, htn, -⟩ := runs_owned hb.run _ (List.mem_map_of_mem hmem')
    have hevent : record'.event = record.event := congrArg Prod.snd he
    rw [hevent, hb.state] at hl
    rw [hevent] at htn
    exact ⟨htenant, stored, hl, htn.trans htenant⟩

end server

/-- The tenant of the sample payment reads its transfer. -/
theorem responses_confined_read :
    ∃ resp data replay key, Responded read.2 4 getRequest resp ∧
      resp.body = .transfer data replay ∧ sampleKeys.lookup getRequest.token = some key ∧
      data.tenantID = key.tenantID := by
  have hans := read_answers
  simp only [Bool.and_eq_true] at hans
  obtain ⟨resp, hresp, htest⟩ := responded_of_answers hans.2.2
  obtain ⟨data, replay, hreply, -⟩ := shows_eq_true htest
  have hbody : resp.body = .transfer data replay := congrArg (·.body) hreply
  obtain ⟨key, -, -, hlookup, htenant, -⟩ :=
    (responses_confined sampleKeys_parsed paid_read_runs hresp).1 data replay hbody
  exact ⟨resp, data, replay, key, hresp, hbody, hlookup, htenant⟩

end PixRail.Api
