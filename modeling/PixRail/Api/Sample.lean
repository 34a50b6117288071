import PixRail.Api.Http
import PixRail.Switcher.Sample

/-!
# A concrete server

The sample payment over HTTP: a tenant creates it, a worker submits it, the
provider reports the settlement, and the tenant repeats its request and reads
the transfer and the outbox.
-/

namespace PixRail.Api

open Go Config Rail Store Interleave Switcher

/-- The keys of a tenant and of its operators. -/
def sampleRaw : GoString :=
  go "tenant-a:tenant-secret,tenant-a:ops-secret:worker|risk|provider,tenant-b:other-secret"

def sampleKeys : GoMap GoString APIKey :=
  match parseAPIKeys sampleRaw with
  | .ok keys => keys
  | .error _ => ∅

theorem sampleKeys_parsed : parseAPIKeys sampleRaw = .ok sampleKeys := by
  have hok : (parseAPIKeys sampleRaw).isOk = true := by decide +kernel
  unfold sampleKeys
  cases h : parseAPIKeys sampleRaw with
  | ok keys => rfl
  | error err =>
    rw [h] at hok
    cases hok

def httpServer : Server :=
  newServer sampleKeys (some {
    providerCallbackSecret := go "secret", signatureTolerance := minute, fits := by decide })

/-- Library functions that know the sample payment. -/
def httpLib : ServerLib where
  hmac := fun _ _ => [1, 2]
  unmarshal := fun _ => some { spiMessageID := go "spi_1", status := .accepted, code := go "00" }
  decodeTransfer := fun body => body.map fun _ => {
    accountID := go "acct-1"
    amountCents := 1500
    currency := []
    receiverKey := go "maria@example.com"
    receiverKeyType := .email
    description := go "order 42" }
  decodeReview := fun _ => none
  format := fun _ => go "20260101000000.000000000"

/-- A request with a key. -/
def keyed (secret method : String) (path : GoString) (e : Endpoint) : HttpRequest where
  authorization := go "Bearer " ++ go secret
  method := go method
  path := path
  target := .endpoint e
  xRequestID := go "req-1"
  xCorrelationID := go "corr-1"

/-- The path of the sample payment. -/
def samplePath : GoString := go "/v1/pix/transfers/" ++ sampleID

def createRequest : HttpRequest :=
  { keyed "tenant-secret" "POST" (go "/v1/pix/transfers") .transfers with
    idempotencyKey := go "idem-1", body := some [] }

def submitRequest : HttpRequest :=
  keyed "ops-secret" "POST" (samplePath ++ go "/spi-submissions") (.spiSubmissions sampleID)

def callbackRequest : HttpRequest :=
  { keyed "ops-secret" "POST" (samplePath ++ go "/spi-callbacks") (.spiCallbacks sampleID) with
    timestamp := go "1767225600", signature := go "sha256=0102", body := some [] }

def getRequest : HttpRequest :=
  keyed "tenant-secret" "GET" samplePath (.transfer sampleID)

def outboxRequest : HttpRequest := keyed "tenant-secret" "GET" (go "/v1/outbox") .outbox

/-- The sample server in front of the sample switch. -/
@[reducible] def sampleLayer : Layer (switch sampleEnv) serverSig :=
  server sampleEnv httpServer httpLib

abbrev ServerLabel := Label sampleLayer.system

/-- `n` operations of the server. -/
def localSteps (cid n : Nat) : List ServerLabel :=
  List.replicate n (.step cid (.inr { now := newYear }))

/-- The schedule of a service call, below. -/
def below : Label (switch sampleEnv) → ServerLabel
  | .spawn cid _ => .step cid (.inr { now := newYear })
  | .step cid i => .step cid (.inl i)

/-- A request whose handler performs `before` operations, makes the call, and
performs `after` operations. -/
def requestLabels (cid : Nat) (r : HttpRequest) (before : Nat)
    (call : List (Label (switch sampleEnv))) (after : Nat) : List ServerLabel :=
  .spawn cid (.request r) :: localSteps cid before ++ call.map below ++ localSteps cid after

/-- `CreateTransfer` with a time in the request. -/
def postLabels : List (Label (switch sampleEnv)) :=
  (decideLabels 0 newYear sampleRequest sampleDict sampleFraud).eraseIdx 1 ++
    buildLabels 0 newYear 1 5 ++ [.step 0 (tick newYear)]

/-- The payment over HTTP. -/
def paidLabels : List ServerLabel :=
  requestLabels 0 createRequest 2 postLabels 4 ++
    requestLabels 1 submitRequest 1 (claimLabels 1 newYear 7 (go "tenant-a") sampleID ++
      recordLabels 1 newYear 8 sampleMessage) 4 ++
    requestLabels 2 callbackRequest 3 [.spawn 2 (.recordSettlement sampleCallback),
      .step 2 (tick newYear), .step 2 (draw newYear 10), .step 2 (tick newYear)] 4

/-- The requests of the tenant after it. -/
def readLabels : List ServerLabel :=
  requestLabels 3 createRequest 2
      [.spawn 3 (.createTransfer sampleRequest), .step 3 (tick newYear)] 4
    ++ requestLabels 4 getRequest 1 [.spawn 4 (.getTransfer (go "tenant-a") sampleID),
      .step 4 (tick newYear)] 2 ++
    requestLabels 5 outboxRequest 4 [] 0

/-- The server at its start. -/
def sampleStart : World sampleLayer.system :=
  .init (State.initial sampleEnv none none, newMetrics newYear)

set_option maxRecDepth 20000 in
theorem paid_isSome : (sampleStart.exec paidLabels).isSome := by
  decide +kernel

/-- The trace and the world of the payment over HTTP. -/
def paid : Trace sampleLayer.system × World sampleLayer.system :=
  World.ran _ paidLabels paid_isSome

theorem paid_runs : ServerRuns sampleEnv httpServer httpLib none none newYear paid.1 paid.2 :=
  World.run_ran _ _ _

set_option maxRecDepth 20000 in
theorem read_isSome : (paid.2.exec readLabels).isSome := by
  decide +kernel

/-- The trace and the world of the requests after it. -/
def read : Trace sampleLayer.system × World sampleLayer.system :=
  World.ran _ readLabels read_isSome

theorem read_runs : Run paid.2 read.1 read.2 := World.run_ran _ _ _

theorem paid_read_runs :
    ServerRuns sampleEnv httpServer httpLib none none newYear (paid.1 ++ read.1) read.2 :=
  paid_runs.append read_runs

/-- A call that had no thread after the first run started in the second. -/
theorem spawned_later {t₁ t₂ : Trace sampleLayer.system} {w₁ w₂ : World sampleLayer.system}
    (h₁ : ServerRuns sampleEnv httpServer httpLib none none newYear t₁ w₁)
    (h₂ : Run w₁ t₂ w₂) {cid : Nat} (hnone : (w₁.threads cid).isNone) {r : HttpRequest}
    {resp : HttpResponse} (hresp : Responded w₂ cid r resp) :
    Ev.spawn cid (Incoming.request r) ∈ t₂ := by
  rcases List.mem_append.mp ((h₁.append h₂).thread hresp).1 with hmem | hmem
  · obtain ⟨p, hp⟩ := h₁.thread_of_spawn hmem
    rw [hp] at hnone
    cases hnone
  · exact hmem

/-- Call `cid` has answered the request, with a response that passes the
test. -/
def answers (w : World sampleLayer.system) (cid : Nat) (r : HttpRequest)
    (test : HttpResponse → Bool) : Bool :=
  match w.threads cid with
  | some ⟨.request r', .ret (.response resp)⟩ => r' = r && test resp
  | _ => false

theorem responded_of_answers {w : World sampleLayer.system} {cid : Nat} {r : HttpRequest}
    {test : HttpResponse → Bool} (h : answers w cid r test = true) :
    ∃ resp, Responded w cid r resp ∧ test resp = true := by
  unfold answers at h
  split at h
  · rename_i r' resp hth
    rw [Bool.and_eq_true, decide_eq_true_eq] at h
    obtain ⟨rfl, htest⟩ := h
    exact ⟨resp, hth, htest⟩
  · cases h

/-- A response with the status that shows the sample payment. -/
def shows (status : Nat) (resp : HttpResponse) : Bool :=
  match resp.body with
  | .transfer data _ => resp.status = status && data.id = sampleID && data.tenantID = go "tenant-a"
  | _ => false

theorem shows_eq_true {status : Nat} {resp : HttpResponse} (h : shows status resp = true) :
    ∃ data replay, resp.toReply = ⟨status, .transfer data replay⟩ ∧ data.id = sampleID ∧
      data.tenantID = go "tenant-a" := by
  unfold shows at h
  split at h
  · rename_i data replay hbody
    simp only [Bool.and_eq_true, decide_eq_true_eq] at h
    refine ⟨data, replay, ?_, h.1.2, h.2⟩
    rw [← h.1.1, ← hbody]
  · cases h

/-- A response that lists `n` records. -/
def lists (n : Nat) (resp : HttpResponse) : Bool :=
  match resp.body with
  | .outbox records => records.length = n
  | _ => false

theorem lists_eq_true {n : Nat} {resp : HttpResponse} (h : lists n resp = true) :
    ∃ records, resp.body = .outbox records ∧ records.length = n := by
  unfold lists at h
  split at h
  · exact ⟨_, ‹_›, of_decide_eq_true h⟩
  · cases h

set_option maxRecDepth 20000 in
/-- The responses after the payment. -/
theorem paid_answers : (answers paid.2 0 createRequest (shows 201) &&
    (paid.2.threads 4).isNone) = true := by
  decide +kernel

set_option maxRecDepth 20000 in
/-- The responses at the end. -/
theorem read_answers : (answers read.2 0 createRequest (shows 201) &&
    (answers read.2 3 createRequest (shows 200) && answers read.2 4 getRequest (shows 200))) =
      true := by
  decide +kernel

end PixRail.Api
