import PixRail.Api.Responses
import PixRail.Idempotency.Once

/-!
# Responses in the order of time

What a client can rely on between two responses, whatever else the server
does in between.  A read of a transfer never goes back behind a response that
showed it (`reads_never_go_back`), a listing of the outbox extends the
listings before it (`listings_grow`), and the requests with one idempotency
key create one transfer between them (`posts_create_once`).
-/

namespace PixRail.Api

open Go Config Rail Events Store Interleave Switcher Tenancy

/-- One status can become the other along the arrows of the life of a
transfer. -/
def Later : TransferStatus → TransferStatus → Prop :=
  Relation.ReflTransGen fun a b => ∃ role, Licence (some a) b role

/-! ## Runs of the switch -/

section switch

variable {E : Env} {tl dl : Option E.Lim} {tr tr' : Trace (switch E)} {w w' : World (switch E)}
  {cid : Nat}

theorem run_later (h : Runs E tl dl tr w) (h' : Run w tr' w') {id : GoString} {a : TransferStatus}
    (ha : statusAt w.state.store id = some a) :
    ∃ b, statusAt w'.state.store id = some b ∧ Later a b := by
  induction h' with
  | nil => exact ⟨a, ha, .refl⟩
  | @snoc tr' w₁ w₂ e hrun hstep ih =>
    obtain ⟨b, hb, hab⟩ := ih
    by_cases hchange : statusAt w₂.state.store id = statusAt w₁.state.store id
    · exact ⟨b, hchange.trans hb, hab⟩
    · obtain ⟨-, -, -, t, role, -, -, hl, hlic, -⟩ := step_licensed (h.append hrun) hstep hchange
      refine ⟨t.status, by rw [statusAt, hl]; rfl, hab.tail ⟨role, ?_⟩⟩
      rwa [hb] at hlic

/-- What the store holds for a transfer that was seen before. -/
structure Since (t t' : Transfer) : Prop where
  frozen : Lifecycle.Frozen t t'
  later : Later t.status t'.status

theorem Since.trans {t t' t'' : Transfer} (h : Since t t') (h' : Since t' t'') : Since t t'' :=
  ⟨h.frozen.trans h'.frozen, h.later.trans h'.later⟩

theorem run_since (h : Runs E tl dl tr w) (h' : Run w tr' w') {id : GoString} {t : Transfer}
    (hl : w.state.store.transfers.lookup id = some t) :
    ∃ t', w'.state.store.transfers.lookup id = some t' ∧ Since t t' := by
  obtain ⟨t', hl', hfrozen⟩ := Lifecycle.run_frozen h h' hl
  have hstatus : statusAt w.state.store id = some t.status := by rw [statusAt, hl]; rfl
  obtain ⟨b, hb, hlater⟩ := run_later h h' hstatus
  rw [statusAt, hl', Option.map_some, Option.some.injEq] at hb
  exact ⟨t', hl', hfrozen, hb ▸ hlater⟩

/-- A transfer that a call once saw has not gone back since. -/
theorem given_since (h : Runs E tl dl tr w) {call : StoreCall} {r : call.Ret} {t : Transfer}
    (hd : Did (hist cid tr) (.store call) r) (hg : givenBy call r = some t) :
    ∃ t', w.state.store.transfers.lookup t.id = some t' ∧ Since t t' := by
  obtain ⟨i, hi⟩ := hd
  obtain ⟨t₁, t₂, rfl⟩ := List.append_of_mem (mem_hist.mp hi)
  obtain ⟨w₁, w₂, h₁, hstep, hrun, hrest⟩ := runs_at h
  exact run_since hrun hrest (storeHandle_given (runs_keyed h₁) (step_store hstep) hg)

end switch

/-! ## Reads -/

section reads

variable {E : Env} {srv : Server} {L : ServerLib} {tl dl : Option E.Lim} {t₀ : Time}
  {t₁ t₂ : Trace (server E srv L).system} {w₁ w₂ : World (server E srv L).system}
  {v₁ v₂ : World (switch E)} {r r' : HttpRequest} {cid cid' : Nat}

/-- A read with a key of the tenant asks the service for the transfer. -/
theorem get_gives {id : GoString} {key : APIKey} (hadm : Admitted srv r (.transfer id) key) :
    Front.Gives (Y := switch E) (I := ServerInput) (fun _ _ => False)
      (fun _ c => c = .getTransfer key.tenantID id)
      (fun _ c out _ resp => Fits c out → resp.toReply = replyTo c out) []
      (srv.handler L r) := by
  refine handler_of_mux fun g started requestID cor ho hstarted => ?_
  obtain ⟨role, he, hrole⟩ := hadm.role
  obtain rfl := Option.some.inj he
  have hauth := authRole_eq_handled.mpr ⟨key, hadm.lookup, hrole, rfl⟩
  have hmux : srv.mux L r cor = Server.getTransfer (E := E) key.tenantID id := by
    rw [Server.mux, hadm.target]
    dsimp only [Server.route, Server.authRole]
    rw [hauth]
  rw [hmux]
  have hget := getTransfer_gives (E := E) (L := L) ho hadm
  refine ⟨rfl, fun out => (hget.2 out).bind fun g₁ reply _ hreply => ?_⟩
  refine (observeRequest_ends hstarted).mono fun g₂ resp _ hresp hfits => ?_
  rw [hresp.1, (hreply hfits).1]

/-- A read of a transfer answers with what the store gave it. -/
theorem get_read {id : GoString} {key : APIKey} (hadm : Admitted srv r (.transfer id) key)
    (hb : Below tl dl t₁ w₁ v₁) {resp : HttpResponse} (hresp : Responded w₁ cid r resp) :
    ∃ x, resp.toReply = replyTo (.getTransfer key.tenantID id) (.transfer x) ∧
      Did (hist cid ((server E srv L).innerTrace t₁)) (.store (.getTransfer key.tenantID id))
        x := by
  have hgives : Front.Gives (Y := switch E) (I := ServerInput) (fun _ _ => False)
      (fun _ c => c = .getTransfer key.tenantID id)
      (fun _ c out _ o => Fits c out → ∃ resp, o = .response resp ∧ resp.toReply = replyTo c out) []
      (srv.body L (.request r)) :=
    (get_gives hadm).andThen (fun _ _ _ h => h) fun _ _ _ _ resp _ h hfits => ⟨resp, rfl, h hfits⟩
  rcases ((hb.stage cid).2 _ _ hresp).finished hgives with ⟨-, -, -, hno⟩ |
    ⟨g, c, i, h', out, g', -, hret, -, rfl, hreply⟩
  · exact hno.elim
  · obtain ⟨resp', ho, hreply⟩ := hreply (returned_fits hb.run hret)
    cases ho
    obtain ⟨x, rfl, hd⟩ := (contract E tl dl).returns_of_thread hb.run hret
    exact ⟨x, hreply, hd⟩

/-- Let a response have shown a transfer, and let a request for this transfer
come in after it.  With a key of the tenant the request gets the transfer,
whatever was done in between: the order is the same, what was filled in has stayed, and the
status is the same or one that follows in the life of a transfer. -/
theorem reads_never_go_back (h₁ : ServerRuns E srv L tl dl t₀ t₁ w₁) (h₂ : Run w₁ t₂ w₂)
    {resp : HttpResponse} (hresp : Responded w₁ cid r resp) {data : TransferData} {replay : Bool}
    (hbody : resp.body = .transfer data replay) (hstart : Ev.spawn cid' (Incoming.request r') ∈ t₂)
    {key : APIKey} (hadm : Admitted srv r' (.transfer data.id) key)
    (htenant : data.tenantID = key.tenantID) {resp' : HttpResponse}
    (hresp' : Responded w₂ cid' r' resp') :
    ∃ t t', resp.body = transferResponse t replay ∧
      resp'.toReply = ⟨200, transferResponse t' false⟩ ∧ Since t t' := by
  obtain ⟨v₁, hb₁⟩ := exists_below h₁
  obtain ⟨v₂, hb₂, hrun⟩ := hb₁.later h₁ h₂
  obtain ⟨c, out, t, -, -, hbody', hs⟩ := shown hb₁ hresp hbody
  obtain ⟨call, x, hd, hg⟩ := hs.given
  obtain ⟨s₁, hl₁, hsince₁⟩ := given_since hb₁.run hd hg
  rw [hbody] at hbody'
  cases hbody'
  obtain ⟨y, hreply, i, hi⟩ := get_read hadm hb₂ hresp'
  -- the store was asked after the first response
  have hnil := (h₁.append h₂).hist_eq_nil_of_spawn hstart
  rw [Layer.innerTrace_append, hist_append, Layer.hist_innerTrace _ t₁, hnil, List.filterMap_nil,
    List.nil_append] at hi
  obtain ⟨a, b, hab⟩ := List.append_of_mem (mem_hist.mp hi)
  rw [hab] at hrun
  obtain ⟨u, u', ha, hstep, -⟩ := hrun.at_entry
  obtain ⟨s₂, hl₂, hsince₂⟩ := run_since hb₁.run ha hl₁
  have howned := MemoryStore.owned_eq_some.mpr ⟨hl₂, hsince₂.frozen.order.tenantID.trans
    (hsince₁.frozen.order.tenantID.trans htenant)⟩
  have hstore := step_store hstep
  simp only [storeHandle, MemoryStore.getTransfer, howned, Option.some.injEq,
    Prod.mk.injEq] at hstore
  rw [← hstore.1] at hreply
  exact ⟨t, s₂, hbody, hreply, hsince₁.trans hsince₂⟩

end reads

/-- A request of the sample is admitted when its key has the role. -/
theorem sample_admitted (r : HttpRequest) (e : Endpoint) (role : APIKeyRole) (tn : GoString)
    (htarget : r.target = .endpoint e) (hrole : e.role = some role)
    (hkey : (sampleKeys.lookup r.token).any (fun key => key.tenantID = tn && key.hasRole role)) :
    ∃ key, Admitted httpServer r e key ∧ key.tenantID = tn := by
  cases hl : sampleKeys.lookup r.token with
  | none =>
    rw [hl] at hkey
    cases hkey
  | some key =>
    rw [hl, Option.any_some, Bool.and_eq_true, decide_eq_true_eq] at hkey
    exact ⟨key, ⟨htarget, hl, role, hrole, hkey.2⟩, hkey.1⟩

/-- The sample payment is read after the request that created it. -/
theorem reads_never_go_back_paid :
    ∃ resp resp' replay t t', Responded paid.2 0 createRequest resp ∧
      Responded read.2 4 getRequest resp' ∧ resp.body = transferResponse t replay ∧
      resp'.toReply = ⟨200, transferResponse t' false⟩ ∧ Since t t' := by
  have hans := paid_answers
  have hans' := read_answers
  simp only [Bool.and_eq_true] at hans hans'
  obtain ⟨resp, hresp, htest⟩ := responded_of_answers hans.1
  obtain ⟨resp', hresp', -⟩ := responded_of_answers hans'.2.2
  obtain ⟨data, replay, hreply, hid, htenant⟩ := shows_eq_true htest
  have hbody : resp.body = .transfer data replay := congrArg (·.body) hreply
  have hstart := spawned_later paid_runs read_runs hans.2 hresp'
  obtain ⟨key, hadm, hkey⟩ := sample_admitted getRequest (.transfer data.id) roleTenant
    (go "tenant-a") (by rw [hid]; rfl) rfl (by decide +kernel)
  obtain ⟨t, t', hshown, hshown', hsince⟩ := reads_never_go_back paid_runs read_runs hresp hbody
    hstart hadm (htenant.trans hkey.symm) hresp'
  exact ⟨resp, resp', replay, t, t', hresp, hresp', hshown, hshown', hsince⟩

/-! ## Listings -/

section listings

variable {E : Env} {srv : Server} {L : ServerLib} {tl dl : Option E.Lim} {t₀ : Time}
  {t₁ t₂ : Trace (server E srv L).system} {w₁ w₂ : World (server E srv L).system}

/-- What a listing of the outbox fixes for a tenant. -/
def listing (tenantID : GoString) (records : List OutboxRecord) : List (Int × Event) :=
  (records.map OutboxRecord.entry).filter fun entry => entry.2.tenantID = tenantID

theorem listing_filter (tenantID : GoString) (records : List OutboxRecord) :
    (records.filter fun record => record.event.tenantID = tenantID).map OutboxRecord.entry =
      listing tenantID records := by
  rw [listing, List.filter_map]
  rfl

theorem listing_later (h₁ : ServerRuns E srv L tl dl t₀ t₁ w₁) (h₂ : Run w₁ t₂ w₂)
    (tenantID : GoString) :
    listing tenantID w₁.state.1.store.events <+: listing tenantID w₂.state.1.store.events :=
  (entries_later h₁ h₂).filter _

/-- Let a response have listed the outbox, and let a listing for the same
tenant come in after it.  The later listing extends the earlier one, its
numbers go up, and it has everything that the outbox held for the tenant when
the request came in. -/
theorem listings_grow (h₁ : ServerRuns E srv L tl dl t₀ t₁ w₁) (h₂ : Run w₁ t₂ w₂)
    {cid cid' : Nat} {r r' : HttpRequest} {resp resp' : HttpResponse}
    {records records' : List OutboxRecord} {key key' : APIKey}
    (hresp : Responded w₁ cid r resp) (hbody : resp.body = .outbox records)
    (hstart : Ev.spawn cid' (Incoming.request r') ∈ t₂) (hresp' : Responded w₂ cid' r' resp')
    (hbody' : resp'.body = .outbox records') (hkey : srv.keys.lookup r.token = some key)
    (hkey' : srv.keys.lookup r'.token = some key') (htenant : key.tenantID = key'.tenantID) :
    records.map OutboxRecord.entry <+: records'.map OutboxRecord.entry ∧
      records'.Pairwise (fun a b => a.sequence < b.sequence) ∧
      listing key.tenantID w₁.state.1.store.events <+: records'.map OutboxRecord.entry := by
  obtain ⟨v₁, hb₁⟩ := exists_below h₁
  obtain ⟨v₂, hb₂, -⟩ := hb₁.later h₁ h₂
  have hnil := (h₁.append h₂).hist_eq_nil_of_spawn hstart
  obtain ⟨k, a, b, u, hadm, ha, hb, rfl⟩ := listed [] hb₁ h₁ rfl hresp hbody
  obtain ⟨k', a', b', u', hadm', ha', -, rfl⟩ := listed t₁ hb₂ h₂ hnil hresp' hbody'
  obtain rfl := Option.some.inj (hadm.lookup.symm.trans hkey)
  obtain rfl := Option.some.inj (hadm'.lookup.symm.trans hkey')
  rw [listing_filter, listing_filter, ← htenant]
  have hmid := listing_later h₁ ha' k.tenantID
  refine ⟨(listing_later ha hb k.tenantID).trans hmid, ?_, hmid⟩
  -- the outbox is numbered in the order of its records
  obtain ⟨v, hbelow⟩ := exists_below (h₁.append ha')
  have hnum := (runs_numbered hbelow.run).pairwise
  rw [hbelow.state] at hnum
  exact hnum.filter _

end listings

/-- The sample payment up to its first listing. -/
def listLabels : List ServerLabel :=
  requestLabels 0 createRequest 2 postLabels 4 ++ requestLabels 6 outboxRequest 4 [] 0

/-- Its submission and a second listing. -/
def relistLabels : List ServerLabel :=
  requestLabels 1 submitRequest 1 (claimLabels 1 newYear 7 (go "tenant-a") sampleID ++
      recordLabels 1 newYear 8 sampleMessage) 4 ++
    requestLabels 7 outboxRequest 4 [] 0

set_option maxRecDepth 20000 in
theorem list_isSome : (sampleStart.exec listLabels).isSome := by
  decide +kernel

def listOnce : Trace sampleLayer.system × World sampleLayer.system :=
  World.ran _ listLabels list_isSome

theorem listOnce_runs :
    ServerRuns sampleEnv httpServer httpLib none none newYear listOnce.1 listOnce.2 :=
  World.run_ran _ _ _

set_option maxRecDepth 20000 in
theorem relist_isSome : (listOnce.2.exec relistLabels).isSome := by
  decide +kernel

def listAgain : Trace sampleLayer.system × World sampleLayer.system :=
  World.ran _ relistLabels relist_isSome

theorem listAgain_runs : Run listOnce.2 listAgain.1 listAgain.2 := World.run_ran _ _ _

set_option maxRecDepth 20000 in
/-- The listing after the submission extends the one before it. -/
theorem listings_grow_submitted :
    ∃ records records' : List OutboxRecord, records.length = 5 ∧ records'.length = 7 ∧
      records.map OutboxRecord.entry <+: records'.map OutboxRecord.entry := by
  have hans : (answers listOnce.2 6 outboxRequest (lists 5) &&
      (listOnce.2.threads 7).isNone) = true := by decide +kernel
  have hans' : answers listAgain.2 7 outboxRequest (lists 7) = true := by decide +kernel
  obtain ⟨hans, hnone⟩ := Bool.and_eq_true_iff.mp hans
  obtain ⟨resp, hresp, htest⟩ := responded_of_answers hans
  obtain ⟨resp', hresp', htest'⟩ := responded_of_answers hans'
  obtain ⟨records, hbody, hlen⟩ := lists_eq_true htest
  obtain ⟨records', hbody', hlen'⟩ := lists_eq_true htest'
  have hstart := spawned_later listOnce_runs listAgain_runs hnone hresp'
  obtain ⟨key, hadm, -⟩ := sample_admitted outboxRequest .outbox roleTenant (go "tenant-a") rfl rfl
    (by decide +kernel)
  exact ⟨records, records', hlen, hlen', (listings_grow listOnce_runs listAgain_runs hresp hbody
    hstart hresp' hbody' hadm.lookup hadm.lookup rfl).1⟩

/-! ## Requests that create -/

section posts

variable {E : Env} {srv : Server} {L : ServerLib} {tl dl : Option E.Lim} {t₀ : Time}
  {tr : Trace (server E srv L).system} {w : World (server E srv L).system} {v : World (switch E)}
  {r r' : HttpRequest} {cid cid' : Nat} {tn key : GoString} {data data' : TransferData}
  {status status' : Nat}

/-- Call `cid` has answered the request of the tenant to create a transfer
under an idempotency key, and the response shows a transfer. -/
structure Posted (w : World (server E srv L).system) (cid : Nat) (r : HttpRequest)
    (tn key : GoString) (status : Nat) (data : TransferData) : Prop where
  target : r.target = .endpoint .transfers
  idempotencyKey : trimSpace r.idempotencyKey = key
  tenantID : data.tenantID = tn
  responded : ∃ resp replay, Responded w cid r resp ∧ resp.toReply = ⟨status, .transfer data replay⟩

/-- The transfer of a tenant and an idempotency key carries out the request. -/
structure CarriesOut (E : Env) (srv : Server) (L : ServerLib) (t : Transfer) (r : HttpRequest)
    (data : TransferData) : Prop where
  id : data.id = t.id
  request : ∃ req, Makes srv L r t.tenantID .transfers (.createTransfer req) ∧
    t.requestHash = req.fingerprint E.digest

theorem posted {raw : GoString} (hkeys : parseAPIKeys raw = .ok srv.keys)
    (h : ServerRuns E srv L tl dl t₀ tr w) (hb : Below tl dl tr w v)
    (hp : Posted w cid r tn key status data) :
    (∃ t, Idempotency.Has w.state.1.store tn key t ∧ CarriesOut E srv L t r data) ∧
      (status = 200 ∨ status = 201 ∧ ∃ t evs auds, (cid, t, evs, auds) ∈
        Idempotency.inserts tn key ((server E srv L).innerTrace tr)) := by
  obtain ⟨resp, replay, hresp, hreply⟩ := hp.responded
  have hbody : resp.body = .transfer data replay := congrArg (·.body) hreply
  obtain ⟨c, out, t, hret, hre, hbody', hs⟩ := shown hb hresp hbody
  obtain ⟨k, hlookup, htenant⟩ := hs.tenant hkeys h hb
  obtain ⟨e, k', hadm, hmakes⟩ := hs.authorised
  obtain rfl := Option.some.inj (hadm.lookup.symm.trans hlookup)
  rw [hbody] at hbody'
  cases hbody'
  obtain rfl : tn = k'.tenantID := hp.tenantID.symm.trans htenant
  obtain rfl := hp.idempotencyKey
  obtain rfl : e = .transfers := by
    have htarget := hadm.target.symm.trans hp.target
    cases htarget
    rfl
  have htrim := trimSpace_eq_self (parsed_clean hkeys hlookup).trimmed
  cases hmakes with
  | transfers cor at_ hpayload =>
    obtain ⟨x, rfl⟩ := fits_result (by simp) (by simp) (by simp) out (returned_fits hb.run hret)
    cases x with
    | error err =>
      have hplain := plain_handleDomainError err
      rw [show handleDomainError err = resp.toReply from hre.symm, hbody] at hplain
      exact hplain.elim
    | ok res =>
      have hcolon := below_colonFree hkeys h hb
      obtain ⟨t', hhas, hid, hhash⟩ := Idempotency.returned_ok hcolon hb.run hret
      rw [hb.state] at hhas
      rw [hreply] at hre
      obtain ⟨hstatus, hbody'⟩ := Reply.mk.inj hre
      obtain ⟨hdata, hreplay⟩ := Body.transfer.inj hbody'
      have hid' : t.id = res.transfer.id := congrArg TransferData.id hdata
      dsimp only at hhas hstatus
      rw [htrim] at hhas
      refine ⟨⟨t', hhas, hid'.trans hid, _, hhas.tenantID ▸ .transfers cor at_ hpayload, hhash⟩, ?_⟩
      cases hrep : res.idempotentReplay with
      | true =>
        rw [hrep] at hstatus
        exact .inl hstatus
      | false =>
        rw [hrep] at hstatus
        obtain ⟨t'', evs, auds, hins⟩ := Idempotency.returned_created hb.run hret hrep
        dsimp only at hins
        rw [htrim] at hins
        exact .inr ⟨hstatus, t'', evs, auds, hins⟩

/-- In every run of a server with the keys of a configuration, any two
requests of a tenant with one idempotency key that show a transfer show the
same one.  It is the only transfer of the tenant and the key, it has the
fingerprint of both requests, and only one of them was answered with
`201 Created`. -/
theorem posts_create_once {raw : GoString} (hkeys : parseAPIKeys raw = .ok srv.keys)
    (h : ServerRuns E srv L tl dl t₀ tr w) (hp : Posted w cid r tn key status data)
    (hp' : Posted w cid' r' tn key status' data') :
    (∃ t, Idempotency.Has w.state.1.store tn key t ∧
        (∀ t', Idempotency.Has w.state.1.store tn key t' → t' = t) ∧
        CarriesOut E srv L t r data ∧ CarriesOut E srv L t r' data') ∧
      (status = 200 ∨ status = 201) ∧ (status = 201 → status' = 201 → cid = cid') := by
  obtain ⟨v, hb⟩ := exists_below h
  obtain ⟨⟨t, hhas, hout⟩, hstatus⟩ := posted hkeys h hb hp
  obtain ⟨⟨t', hhas', hout'⟩, hstatus'⟩ := posted hkeys h hb hp'
  have hunique : ∀ t', Idempotency.Has w.state.1.store tn key t' → t' = t := by
    intro t' hhas'
    rw [← hb.state] at hhas hhas'
    exact hhas'.unique (runs_filed hb.run) hhas
  obtain rfl := hunique t' hhas'
  refine ⟨⟨t', hhas, hunique, hout, hout'⟩, hstatus.imp_right And.left, fun h201 h201' => ?_⟩
  rcases hstatus with h200 | ⟨-, s₁, evs, auds, hins⟩
  · rw [h200] at h201
    cases h201
  rcases hstatus' with h200 | ⟨-, s₂, evs', auds', hins'⟩
  · rw [h200] at h201'
    cases h201'
  rcases Idempotency.runs_inserts hb.run tn key with hnil | ⟨b, hb, -⟩
  · rw [hnil] at hins
    cases hins
  · rw [hb, List.mem_singleton] at hins hins'
    exact congrArg Prod.fst (hins.trans hins'.symm)

end posts

/-- The sample request and its repetition. -/
theorem posts_create_once_repeated :
    ∃ data data', Posted read.2 0 createRequest (go "tenant-a") (go "idem-1") 201 data ∧
      Posted read.2 3 createRequest (go "tenant-a") (go "idem-1") 200 data' ∧
      data.id = data'.id := by
  have hans := read_answers
  simp only [Bool.and_eq_true] at hans
  have htrim : trimSpace createRequest.idempotencyKey = go "idem-1" := by decide +kernel
  obtain ⟨resp, hresp, htest⟩ := responded_of_answers hans.1
  obtain ⟨resp', hresp', htest'⟩ := responded_of_answers hans.2.1
  obtain ⟨data, replay, hreply, -, htenant⟩ := shows_eq_true htest
  obtain ⟨data', replay', hreply', -, htenant'⟩ := shows_eq_true htest'
  have hp : Posted read.2 0 createRequest (go "tenant-a") (go "idem-1") 201 data :=
    ⟨rfl, htrim, htenant, resp, replay, hresp, hreply⟩
  have hp' : Posted read.2 3 createRequest (go "tenant-a") (go "idem-1") 200 data' :=
    ⟨rfl, htrim, htenant', resp', replay', hresp', hreply'⟩
  obtain ⟨⟨t, -, -, hout, hout'⟩, -⟩ := posts_create_once sampleKeys_parsed paid_read_runs hp hp'
  exact ⟨data, data', hp, hp', hout.id.trans hout'.id.symm⟩

end PixRail.Api
