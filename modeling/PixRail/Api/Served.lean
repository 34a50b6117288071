import PixRail.Api.Http
import PixRail.Switcher.Grounds

/-!
# What lies behind a response

The judgement of every handler: without a call to the service it shows
nothing but the outbox of the tenant of the key (`Direct`), and a call to the
service is made only for an admitted request (`Authorised`), whose response
is then that of the outcome (`replyTo`).

`answered` carries this over to runs of the server, and `exists_below` gives
the run of the switch below.
-/

namespace PixRail.Api

open Go Config Rail Events Store Interleave Switcher

/-! ## Admission -/

/-- The key of the request has the role of the endpoint, and stands for the
tenant. -/
structure Admitted (srv : Server) (r : HttpRequest) (e : Endpoint) (key : APIKey) : Prop where
  target : r.target = .endpoint e
  lookup : srv.keys.lookup r.token = some key
  role : ∃ role, e.role = some role ∧ key.hasRole role = true

/-- The call that an admitted request makes. -/
inductive Makes (srv : Server) (L : ServerLib) (r : HttpRequest) (tenantID : GoString) :
    Endpoint → Call → Prop where
  | transfers {payload : CreateTransferPayload} (cor : GoString) (at_ : Time)
      (hpayload : L.decodeTransfer r.body = some payload) :
      Makes srv L r tenantID .transfers (.createTransfer {
        tenantID := tenantID
        accountID := payload.accountID
        idempotencyKey := r.idempotencyKey
        correlationID := cor
        amountCents := payload.amountCents
        currency := payload.currency
        receiverKey := payload.receiverKey
        receiverKeyType := payload.receiverKeyType
        description := payload.description
        requestedAt := at_ })
  | transfer (id : GoString) : Makes srv L r tenantID (.transfer id) (.getTransfer tenantID id)
  | spiSubmissions (id cor : GoString) :
      Makes srv L r tenantID (.spiSubmissions id) (.submitToSPI tenantID id cor)
  | reviews {payload : ReviewPayload} (id cor : GoString) (at_ : Time)
      (hpayload : L.decodeReview r.body = some payload) :
      Makes srv L r tenantID (.reviews id) (.recordReview {
        tenantID := tenantID
        transferID := id
        decision := payload.decision
        reason := payload.reason
        correlationID := cor
        reviewedAt := at_ })
  | spiCallbacks {cb : SettlementCallback} (id cor : GoString) (now at_ : Time)
      (hcallback : recordSettlement srv L.toCallbackLib now at_ tenantID (r.callback id cor) =
        .ok cb) :
      Makes srv L r tenantID (.spiCallbacks id) (.recordSettlement cb)

/-- An admitted request makes the call. -/
def Authorised (srv : Server) (L : ServerLib) (r : HttpRequest) (c : Call) : Prop :=
  ∃ e key, Admitted srv r e key ∧ Makes srv L r key.tenantID e c

theorem recordSettlement_tenant {srv : Server} {L : CallbackLib} {now at_ : Time}
    {tenantID : GoString} {r : CallbackRequest} {cb : SettlementCallback}
    (h : recordSettlement srv L now at_ tenantID r = .ok cb) : cb.tenantID = tenantID := by
  unfold recordSettlement at h
  split at h
  · cases h
  · split at h
    · cases h
    · cases h
      rfl

/-- A call acts for the tenant of the key. -/
theorem Makes.tenant {srv : Server} {L : ServerLib} {r : HttpRequest} {tn : GoString}
    {e : Endpoint} {c : Call} (h : Makes srv L r tn e c) :
    c.tenant = some tn ∨ c.tenant = some (trimSpace tn) := by
  cases h with
  | transfers cor at_ hpayload => exact .inr rfl
  | transfer id => exact .inl rfl
  | spiSubmissions id cor => exact .inr rfl
  | reviews id cor at_ hpayload => exact .inr rfl
  | spiCallbacks id cor now at_ hcallback =>
    exact .inl (congrArg some (recordSettlement_tenant hcallback))

/-! ## Replies -/

/-- The reply of a service call. -/
def replyTo (c : Call) : Outcome → Reply
  | .result (.error err) => handleDomainError err
  | .result (.ok res) =>
    ⟨match c with
      | .createTransfer _ => if res.idempotentReplay then 200 else 201
      | _ => 200, transferResponse res.transfer res.idempotentReplay⟩
  | .transfer (.error err) => handleDomainError err
  | .transfer (.ok t) => ⟨200, transferResponse t false⟩
  | _ => handleDomainError ⟨[], []⟩

/-- What a handler notes in the metrics about an outcome. -/
def noted : Outcome → List Observation
  | .result (.ok res) => [.decision res.transfer.status.text, .events res.events.length]
  | _ => []

/-- The outcome is of the kind of the call. -/
def Fits : Call → Outcome → Prop
  | .getTransfer _ _, .transfer _ => True
  | .submitPendingSPI _, .batch _ => True
  | .drain _ _, .stats _ => True
  | .createTransfer _, .result _ => True
  | .submitToSPI _ _ _, .result _ => True
  | .recordReview _, .result _ => True
  | .recordSettlement _, .result _ => True
  | _, _ => False

theorem body_fits {I : Type} (L : Lib) (c : Call) :
    (body L c).Ends (fun (_ : List (Action sig I)) out => Fits c out) [] := by
  cases c with
  | createTransfer req | getTransfer tn id | submitToSPI tn id cor | submitPendingSPI limit
  | recordReview req | recordSettlement cb | drain policy limit =>
    exact (Prog.Obeys.of_forall (fun _ _ => trivial) (fun _ _ => trivial) _ _).map

/-- The payload shows neither a transfer nor a record of the outbox. -/
def Body.Plain : Body → Prop
  | .transfer _ _ => False
  | .outbox _ => False
  | _ => True

abbrev LocalHistory := List (Action serverSig ServerInput)

/-- Where an internal error without a call to the service comes from. -/
inductive Failed (r : HttpRequest) (g : LocalHistory) : Prop where
  | mux {status : Nat} (htarget : r.target = .refused status)
  | outbox {err : Err} (hread : Did g .outbox (.error err))

/-- A reply without a call to the service. -/
inductive Direct (srv : Server) (r : HttpRequest) (g : LocalHistory) : Reply → Prop where
  | plain {reply : Reply} (h : reply.body.Plain) (hfail : reply.status = 500 → Failed r g) :
      Direct srv r g reply
  | listed {key : APIKey} {records : List OutboxRecord} (hadm : Admitted srv r .outbox key)
      (hlist : Did g .outbox (.ok records)) :
      Direct srv r g
        ⟨200, .outbox (records.filter fun record => record.event.tenantID = key.tenantID)⟩

theorem Body.Plain.ne_transfer {body : Body} (h : body.Plain) (data : TransferData)
    (replay : Bool) : body ≠ .transfer data replay := by
  rintro rfl
  exact h

theorem Direct.ne_transfer {srv : Server} {r : HttpRequest} {g : LocalHistory} {reply : Reply}
    (h : Direct srv r g reply) (data : TransferData) (replay : Bool) :
    reply.body ≠ .transfer data replay := by
  cases h with
  | plain h hfail => exact h.ne_transfer data replay
  | listed hadm hlist => exact nofun

/-- The observation in an operation. -/
def observationOf : Action serverSig ServerInput → Option Observation
  | ⟨.observe o, _, _⟩ => some o
  | _ => none

/-- What the operations noted in the metrics. -/
def observations (g : LocalHistory) : List Observation := g.filterMap observationOf

theorem observations_snoc (g : LocalHistory) {a : Action serverSig ServerInput}
    (ha : observationOf a = none) : observations (g ++ [a]) = observations g := by
  simp [observations, ha]

theorem observations_snoc_observe (g : LocalHistory) (o : Observation) (i : ServerInput) :
    observations (g ++ [⟨.observe o, i, ()⟩]) = observations g ++ [o] := by
  rw [observations, List.filterMap_append]
  rfl

theorem plain_handleDomainError (err : Err) : (handleDomainError err).body.Plain := by
  unfold handleDomainError
  split_ifs <;> trivial

/-! ## Handlers -/

section handlers

variable {E : Env} {srv : Server} {L : ServerLib} {r : HttpRequest} {g : LocalHistory}

/-- The judgement of a handler after the history `g`. -/
abbrev HandlerGives (srv : Server) (L : ServerLib) (r : HttpRequest) (g : LocalHistory)
    (f : Handler E) : Prop :=
  Front.Gives (Y := switch E) (fun g reply => observations g = [] ∧ Direct srv r g reply)
    (fun g c => observations g = [] ∧ Authorised srv L r c)
    (fun _ c out g' reply => Fits c out → reply = replyTo c out ∧ observations g' = noted out) g f

theorem act_gives {o : ServerOp} {f : o.Ret → Handler E}
    (hf : ∀ i x, HandlerGives srv L r (g ++ [⟨o, i, x⟩]) (f x)) :
    HandlerGives srv L r g (act o >>= f) :=
  ⟨trivial, fun i x _ => hf i x⟩

theorem answer_plain (hg : observations g = []) {reply : Reply} (h : reply.body.Plain)
    (hstatus : reply.status ≠ 500) : HandlerGives (E := E) srv L r g (answer reply) :=
  ⟨hg, .plain h fun h500 => absurd h500 hstatus⟩

theorem onResult_ends {c : Call} {status : Result → Nat}
    (hc : ∀ out, Fits c out → ∃ x, out = .result x)
    (hstatus : ∀ res, replyTo c (.result (.ok res)) =
      ⟨status res, transferResponse res.transfer res.idempotentReplay⟩) (out : Outcome) :
    (onResult status out).Ends (fun (g' : LocalHistory) reply =>
      Fits c out → reply = replyTo c out ∧ observations g' = noted out) [] := by
  unfold onResult
  split
  · exact fun _ => ⟨rfl, rfl⟩
  · refine ⟨trivial, fun i _ _ => ⟨trivial, fun i' _ _ _ => ⟨?_, rfl⟩⟩⟩
    exact (hstatus _).symm
  · rename_i hno₁ hno₂
    intro hfits
    obtain ⟨x, rfl⟩ := hc _ hfits
    cases x with
    | error e => exact absurd rfl (hno₁ e)
    | ok res => exact absurd rfl (hno₂ res)

theorem authRole_status {keys : GoMap GoString APIKey} {role : APIKeyRole} {request : Request}
    {status : Nat} {code message : GoString}
    (h : authRole keys role request = .error status code message) : status = 401 ∨ status = 403 := by
  unfold authRole at h
  split at h
  · cases h
    exact .inl rfl
  · split at h
    · cases h
      exact .inr rfl
    · cases h

theorem authRole_gives {role : APIKeyRole} {next : GoString → Handler E}
    (hg : observations g = [])
    (hnext : ∀ key, srv.keys.lookup r.token = some key → key.hasRole role = true →
      HandlerGives srv L r g (next key.tenantID)) :
    HandlerGives srv L r g (srv.authRole role r next) := by
  unfold Server.authRole
  cases hauth : authRole srv.keys role r.toRequest with
  | error status code message =>
    refine answer_plain hg trivial ?_
    rcases authRole_status hauth with rfl | rfl <;> simp [writeError]
  | handled tenantID =>
    obtain ⟨key, hkey, hrole, rfl⟩ := authRole_eq_handled.mp hauth
    exact hnext key hkey hrole

theorem fits_result {c : Call} (h : ∀ tn id, c ≠ .getTransfer tn id)
    (hb : ∀ limit, c ≠ .submitPendingSPI limit) (hd : ∀ policy limit, c ≠ .drain policy limit)
    (out : Outcome) (hfits : Fits c out) : ∃ x, out = .result x := by
  cases c with
  | getTransfer tn id => exact absurd rfl (h tn id)
  | submitPendingSPI limit => exact absurd rfl (hb limit)
  | drain policy limit => exact absurd rfl (hd policy limit)
  | createTransfer req | submitToSPI tn id cor | recordReview req | recordSettlement cb =>
    cases out with
    | result x => exact ⟨x, rfl⟩
    | transfer x | batch x | stats x => exact hfits.elim

theorem createTransfer_gives {key : APIKey} (hg : observations g = [])
    (hadm : Admitted srv r .transfers key) (cor : GoString) :
    HandlerGives (E := E) srv L r g (Server.createTransfer L key.tenantID cor r) := by
  unfold Server.createTransfer
  split
  · exact answer_plain hg trivial (by decide)
  · rename_i payload hpayload
    refine act_gives fun i at_ => ⟨⟨by rw [observations_snoc _ rfl, hg], _, key, hadm,
      .transfers cor at_ hpayload⟩, ?_⟩
    exact onResult_ends (fits_result (by simp) (by simp) (by simp)) fun _ => rfl

theorem getTransfer_gives {key : APIKey} {id : GoString} (hg : observations g = [])
    (hadm : Admitted srv r (.transfer id) key) :
    HandlerGives (E := E) srv L r g (Server.getTransfer key.tenantID id) := by
  refine ⟨⟨hg, _, key, hadm, .transfer id⟩, fun out => ?_⟩
  dsimp only
  split
  · exact fun _ => ⟨rfl, rfl⟩
  · exact fun _ => ⟨rfl, rfl⟩
  · rename_i hno₁ hno₂
    intro hfits
    cases out with
    | transfer x =>
      cases x with
      | error e => exact absurd rfl (hno₁ e)
      | ok t => exact absurd rfl (hno₂ t)
    | result x | batch x | stats x => exact hfits.elim

theorem submitToSPI_gives {key : APIKey} {id : GoString} (hg : observations g = [])
    (hadm : Admitted srv r (.spiSubmissions id) key) (cor : GoString) :
    HandlerGives (E := E) srv L r g (Server.submitToSPI key.tenantID id cor) :=
  ⟨⟨hg, _, key, hadm, .spiSubmissions id cor⟩,
    onResult_ends (fits_result (by simp) (by simp) (by simp)) fun _ => rfl⟩

theorem recordReview_gives {key : APIKey} {id : GoString} (hg : observations g = [])
    (hadm : Admitted srv r (.reviews id) key) (cor : GoString) :
    HandlerGives (E := E) srv L r g (Server.recordReview L key.tenantID id cor r) := by
  unfold Server.recordReview
  split
  · exact answer_plain hg trivial (by decide)
  · rename_i payload hpayload
    refine act_gives fun i at_ => ⟨⟨by rw [observations_snoc _ rfl, hg], _, key, hadm,
      .reviews id cor at_ hpayload⟩, ?_⟩
    exact onResult_ends (fits_result (by simp) (by simp) (by simp)) fun _ => rfl

theorem plain_refusal (response : Response) : (refusal response).body.Plain := by
  cases response <;> trivial

theorem refusal_status {lib : CallbackLib} {now at_ : Time} {tenantID : GoString}
    {request : CallbackRequest} {response : Response}
    (h : recordSettlement srv lib now at_ tenantID request = .error response) :
    (refusal response).status ≠ 500 := by
  have hread : ∀ {response}, readAndVerifyProviderCallback srv lib now request = .error response →
      (refusal response).status ≠ 500 := by
    intro response hread
    unfold readAndVerifyProviderCallback at hread
    dsimp only at hread
    repeat' split at hread
    all_goals cases hread
    all_goals decide
  unfold recordSettlement at h
  split at h
  · cases h
    exact hread ‹_›
  · split at h
    · cases h
      decide
    · cases h

theorem recordSettlement_gives {key : APIKey} {id : GoString} (hg : observations g = [])
    (hadm : Admitted srv r (.spiCallbacks id) key) (cor : GoString) :
    HandlerGives (E := E) srv L r g (srv.recordSettlement L key.tenantID id cor r) := by
  refine act_gives fun i now => act_gives fun i' at_ => ?_
  have hg' : observations (g ++ [⟨.now, i, now⟩] ++ [⟨.now, i', at_⟩]) = [] := by
    rw [observations_snoc _ rfl, observations_snoc _ rfl, hg]
  split
  · rename_i response hresponse
    exact answer_plain hg' (plain_refusal _) (refusal_status hresponse)
  · rename_i cb hcb
    exact ⟨⟨hg', _, key, hadm, .spiCallbacks id cor now at_ hcb⟩,
      onResult_ends (fits_result (by simp) (by simp) (by simp)) fun _ => rfl⟩

theorem outbox_gives {key : APIKey} (hg : observations g = [])
    (hadm : Admitted srv r .outbox key) :
    HandlerGives (E := E) srv L r g (Server.outbox key.tenantID) := by
  refine act_gives fun i records => ?_
  have hg' : observations (g ++ [⟨.outbox, i, records⟩]) = [] := by
    rw [observations_snoc _ rfl, hg]
  cases records with
  | error err => exact ⟨hg', .plain trivial fun _ => .outbox (Did.last g _ i _)⟩
  | ok records => exact ⟨hg', .listed hadm (Did.last g _ i _)⟩

theorem mux_gives (hg : observations g = []) (cor : GoString) :
    HandlerGives (E := E) srv L r g (srv.mux L r cor) := by
  unfold Server.mux
  cases htarget : r.target with
  | refused status => exact ⟨hg, .plain trivial fun _ => .mux htarget⟩
  | endpoint e =>
    have hadm : ∀ {key role}, e.role = some role → srv.keys.lookup r.token = some key →
        key.hasRole role = true → Admitted srv r e key :=
      fun he hkey hrole => ⟨htarget, hkey, _, he, hrole⟩
    cases e with
    | healthz => exact answer_plain hg trivial (by decide)
    | readyz =>
      refine act_gives fun i err => ?_
      have hg' : observations (g ++ [⟨.health, i, err⟩]) = [] := by
        rw [observations_snoc _ rfl, hg]
      cases err <;> exact answer_plain hg' trivial (by simp)
    | metrics =>
      refine act_gives fun i m => answer_plain ?_ trivial (by simp)
      rw [observations_snoc _ rfl, hg]
    | transfers =>
      exact authRole_gives hg fun key hkey hrole =>
        createTransfer_gives hg (hadm rfl hkey hrole) cor
    | transfer id =>
      exact authRole_gives hg fun key hkey hrole => getTransfer_gives hg (hadm rfl hkey hrole)
    | spiSubmissions id =>
      exact authRole_gives hg fun key hkey hrole =>
        submitToSPI_gives hg (hadm rfl hkey hrole) cor
    | reviews id =>
      exact authRole_gives hg fun key hkey hrole =>
        recordReview_gives hg (hadm rfl hkey hrole) cor
    | spiCallbacks id =>
      exact authRole_gives hg fun key hkey hrole =>
        recordSettlement_gives hg (hadm rfl hkey hrole) cor
    | outbox =>
      exact authRole_gives hg fun key hkey hrole => outbox_gives hg (hadm rfl hkey hrole)

/-! ## The middleware -/

/-- The request as it is counted. -/
def HttpRequest.counted (r : HttpRequest) (status : Nat) (elapsed : Duration) : Observation :=
  .request r.method (routeLabel r.path) status elapsed

/-- The time from a clock reading in `g` to one in `g'`. -/
def Timed (g g' : LocalHistory) (elapsed : Duration) : Prop :=
  ∃ started ended, Did g .now started ∧ Did g' .now ended ∧ elapsed = timeSub ended started

theorem headerOrNew_ends (hg : observations g = []) (value tag : GoString) :
    (headerOrNew L value tag).Ends (fun g' _ => observations g' = []) g := by
  unfold headerOrNew
  split
  · exact hg
  · exact ⟨trivial, fun i now _ => (observations_snoc g rfl).trans hg⟩

theorem Direct.mono {g' : LocalHistory} {reply : Reply} (h : Direct srv r g reply)
    (hg : g <+: g') : Direct srv r g' reply := by
  cases h with
  | plain h hfail =>
    refine .plain h fun h500 => ?_
    cases hfail h500 with
    | mux htarget => exact .mux htarget
    | outbox hread => exact .outbox (hread.mono hg)
  | listed hadm hlist => exact .listed hadm (hlist.mono hg)

/-- The end of the middleware counts the request. -/
theorem observeRequest_ends {g₀ : LocalHistory} {started : Time} (hstarted : Did g₀ .now started)
    {requestID correlationID : GoString} {reply : Reply} :
    (observeRequest r started requestID correlationID reply).Ends (fun g' resp =>
      resp.toReply = reply ∧ ∃ elapsed, Timed g₀ g' elapsed ∧
        observations g' = observations g ++ [r.counted reply.status elapsed]) g := by
  refine ⟨trivial, fun i ended _ => ⟨trivial, fun i' _ _ => ?_⟩⟩
  refine ⟨rfl, _, ⟨started, ended, hstarted, (Did.last g .now i ended).snoc _, rfl⟩, ?_⟩
  rw [observations_snoc_observe, observations_snoc _ rfl]
  rfl

/-- A response without a call to the service. -/
def Alone (srv : Server) (r : HttpRequest) (g : LocalHistory) (resp : HttpResponse) : Prop :=
  Direct srv r g resp.toReply ∧ ∃ elapsed, Timed g g elapsed ∧
    observations g = [r.counted resp.status elapsed]

/-- A response with the outcome of a call to the service. -/
def With (r : HttpRequest) (g : LocalHistory) (c : Call) (out : Outcome) (g' : LocalHistory)
    (resp : HttpResponse) : Prop :=
  resp.toReply = replyTo c out ∧ observations g = [] ∧ ∃ elapsed, Timed g g' elapsed ∧
    observations g' = noted out ++ [r.counted resp.status elapsed]

/-- The mux, and the end of the middleware. -/
theorem observed_gives {started : Time} (ho : observations g = []) (hstarted : Did g .now started)
    (requestID cor : GoString) :
    Front.Gives (Y := switch E) (Alone srv r) (fun _ c => Authorised srv L r c)
      (fun g c out g' resp => Fits c out → With r g c out g' resp) g
      (Front.andThen (srv.mux L r cor) (observeRequest r started requestID cor)) := by
  have hobserved : Front.Gives (Y := switch E) (Alone srv r)
      (fun g c => observations g = [] ∧ Authorised srv L r c)
      (fun g c out g' resp => observations g = [] → Fits c out → With r g c out g' resp) g
      (Front.andThen (srv.mux L r cor) (observeRequest r started requestID cor)) := by
    refine Front.Gives.andThen (mux_gives ho cor) ?_ ?_
    · intro g₁ reply hg₁ ⟨ho₁, hdirect⟩
      refine (observeRequest_ends (hstarted.mono hg₁)).mono
        fun g₂ resp hg₂ ⟨hreply, elapsed, htimed, hobs⟩ => ?_
      obtain ⟨started', ended, hs, he, rfl⟩ := htimed
      refine ⟨hreply ▸ hdirect.mono hg₂, _, ⟨started', ended, hs.mono hg₂, he, rfl⟩, ?_⟩
      rw [hobs, ho₁, ← hreply]
      rfl
    · intro g₁ c out g₂ reply hg₁ hreply
      refine (observeRequest_ends (hstarted.mono hg₁)).mono
        fun g₃ resp _ ⟨hresp, elapsed, htimed, hobs⟩ ho hfits => ?_
      obtain ⟨hr, hnoted⟩ := hreply hfits
      refine ⟨hresp.trans hr, ho, elapsed, htimed, ?_⟩
      rw [hobs, hnoted, ← hresp]
  exact hobserved.mono (fun _ _ h => h) (fun _ _ h => h.2)
    fun g c out g' resp hc hresp hfits => hresp hc.1 hfits

/-- The start of the middleware notes nothing and reads the clock. -/
theorem handler_of_mux {P : LocalHistory → HttpResponse → Prop} {C : LocalHistory → Call → Prop}
    {R : LocalHistory → Call → Outcome → LocalHistory → HttpResponse → Prop}
    (hmux : ∀ g started requestID cor, observations g = [] → Did g .now started →
      Front.Gives (Y := switch E) P C R g
        (Front.andThen (srv.mux L r cor) (observeRequest r started requestID cor))) :
    Front.Gives (Y := switch E) P C R [] (srv.handler L r) := by
  refine ⟨trivial, fun i started _ => ?_⟩
  have hstarted : Did ([⟨.now, i, started⟩] : LocalHistory) .now started :=
    Did.last (S := serverSig) [] .now i started
  refine (headerOrNew_ends rfl _ _).bind fun g₁ requestID hg₁ ho₁ => ?_
  refine (headerOrNew_ends ho₁ _ _).bind fun g₂ correlationID hg₂ ho₂ => ?_
  exact hmux g₂ started requestID correlationID ho₂ (hstarted.mono (hg₁.trans hg₂))

theorem handler_gives :
    Front.Gives (Y := switch E) (Alone srv r) (fun _ c => Authorised srv L r c)
      (fun g c out g' resp => Fits c out → With r g c out g' resp) [] (srv.handler L r) :=
  handler_of_mux fun _ _ requestID cor ho hstarted => observed_gives ho hstarted requestID cor

end handlers

/-! ## Runs -/

/-- What goes out without a call to the service. -/
def AnsweredAlone (srv : Server) : Incoming → LocalHistory → Outgoing → Prop
  | .request r, g, .response resp => Alone srv r g resp
  | _, _, _ => False

/-- The call to the service of what came in. -/
def Calls (srv : Server) (L : ServerLib) : Incoming → Call → Prop
  | .request r, c => Authorised srv L r c
  | .submitPendingSPI limit, c => c = .submitPendingSPI limit
  | .drain policy limit, c => c = .drain policy limit

/-- What goes out with the outcome of a call to the service. -/
def AnsweredWith : Incoming → LocalHistory → Call → Outcome → LocalHistory → Outgoing → Prop
  | .request r, g, c, out, g', .response resp => With r g c out g' resp
  | .request _, _, _, _, _, .finished _ => False
  | _, g, _, out, g', o => g = [] ∧ g' = [] ∧ o = .finished out

theorem body_gives {E : Env} (srv : Server) (L : ServerLib) (d : Incoming) :
    Front.Gives (Y := switch E) (AnsweredAlone srv d) (fun _ c => Calls srv L d c)
      (fun g c out g' o => Fits c out → AnsweredWith d g c out g' o) [] (srv.body L d) := by
  cases d with
  | request r => exact handler_gives.andThen (fun _ _ _ h => h) fun _ _ _ _ _ _ h => h
  | submitPendingSPI limit => exact ⟨rfl, fun out _ => ⟨rfl, rfl, rfl⟩⟩
  | drain policy limit => exact ⟨rfl, fun out _ => ⟨rfl, rfl, rfl⟩⟩

section runs

variable {E : Env} {srv : Server} {L : ServerLib} {tl dl : Option E.Lim} {t₀ : Time}
  {tr : Trace (server E srv L).system} {w : World (server E srv L).system} {v : World (switch E)}
  {cid : Nat}

/-- The run of the switch below a run of the server. -/
abbrev Below (tl dl : Option E.Lim) (tr : Trace (server E srv L).system)
    (w : World (server E srv L).system) (v : World (switch E)) : Prop :=
  (server E srv L).Refines (State.initial E tl dl) tr w v

theorem exists_below (h : ServerRuns E srv L tl dl t₀ tr w) : ∃ v, Below tl dl tr w v :=
  Layer.refines (Z := server E srv L) h

theorem returned_fits {trace : Trace (switch E)} (h : Runs E tl dl trace v) {c : Call}
    {out : Outcome} (hret : Returned v cid c out) : Fits c out :=
  h.obeys_thread hret (body_fits E.toLib c) fun _ _ => trivial

/-- What lies behind what went out. -/
theorem answered (hb : Below tl dl tr w v) {d : Incoming} {o : Outgoing}
    (hth : w.threads cid = some ⟨d, .ret o⟩) :
    (∃ g, hist cid tr = g.map (server E srv L).ownAct ∧ v.threads cid = none ∧
        AnsweredAlone srv d g o) ∨
      ∃ g c i, ∃ h' : History, ∃ out g', hist cid tr = g.map (server E srv L).ownAct ++
          ⟨.enter c, .inr i, ()⟩ :: h'.map (server E srv L).innerAct ++
          g'.map (server E srv L).ownAct ∧
        Returned v cid c out ∧ Calls srv L d c ∧ AnsweredWith d g c out g' o := by
  rcases ((hb.stage cid).2 d _ hth).finished (body_gives srv L d) with halone |
    ⟨g, c, i, h', out, g', hh, hret, -, hcall, hwith⟩
  · exact .inl halone
  · exact .inr ⟨g, c, i, h', out, g', hh, hret, hcall, hwith (returned_fits hb.run hret)⟩

/-- A call to the service is one of something that came in. -/
theorem caller (h : ServerRuns E srv L tl dl t₀ tr w) (hb : Below tl dl tr w v) {c : Call}
    (hc : spawnEv cid c ∈ (server E srv L).innerTrace tr) :
    ∃ d, Ev.spawn cid d ∈ tr ∧ Calls srv L d c := by
  obtain ⟨q, hq⟩ := hb.run.thread_of_spawn hc
  cases hth : w.threads cid with
  | none =>
    rw [(hb.stage cid).1 hth] at hq
    cases hq
  | some th =>
    obtain ⟨d, p⟩ := th
    have hst := (hb.stage cid).2 d p hth
    rw [hq] at hst
    obtain ⟨-, hcall⟩ := hst.entered (body_gives srv L d)
    exact ⟨d, (h.thread hth).1, hcall⟩

end runs

end PixRail.Api
