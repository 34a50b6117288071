import PixRail.Api.Auth
import PixRail.Go.Numbers
import PixRail.Rail.Model

/-!
# Provider callbacks

The endpoint `POST /v1/pix/transfers/{id}/spi-callbacks`.  The key of the
request names the tenant, the path names the transfer, and the signature
covers the timestamp and the body.  A request that is accepted becomes a
callback for `RecordSettlement`.

The signature is over the timestamp, a dot and the body.  A timestamp that
`strconv.ParseInt` takes has no dot, so the two can be told apart
(`signature_covers`).
-/

namespace PixRail.Api

open Go Config Rail

/-! ## The server -/

/-- `SecurityConfig`.  The tolerance is a `time.Duration`. -/
structure SecurityConfig where
  providerCallbackSecret : GoString := []
  signatureTolerance : Duration
  fits : -2 ^ 63 ≤ signatureTolerance ∧ signatureTolerance < 2 ^ 63

/-- What `Server` has for the endpoint. -/
structure Server where
  keys : GoMap GoString APIKey
  security : SecurityConfig
  tolerance_pos : 0 < security.signatureTolerance

/-- `NewServer`. -/
def newServer (keys : GoMap GoString APIKey) (security : Option SecurityConfig) : Server :=
  let securityConfig := security.getD { signatureTolerance := 5 * minute, fits := by decide }
  if h : securityConfig.signatureTolerance ≤ 0 then
    { keys := keys
      security := { securityConfig with signatureTolerance := 5 * minute, fits := by decide }
      tolerance_pos := (by decide : 0 < 5 * minute) }
  else
    { keys := keys
      security := securityConfig
      tolerance_pos := by lia }

/-- What the endpoint reads of a request.  The body is `none` when it cannot
be read. -/
structure CallbackRequest extends Request where
  id : GoString
  timestamp : GoString := []
  signature : GoString := []
  body : Option GoString
  correlationID : GoString := []

/-- `settlementPayload`. -/
structure SettlementPayload where
  spiMessageID : GoString
  status : SettlementStatus
  code : GoString
  deriving DecidableEq

/-- The library functions of the endpoint. -/
structure CallbackLib where
  /-- HMAC-SHA256 of a message under a key. -/
  hmac : GoString → GoString → GoString
  /-- `json.Unmarshal` into a `settlementPayload`. -/
  unmarshal : GoString → Option SettlementPayload

/-! ## The endpoint -/

section endpoint

variable (srv : Server) (L : CallbackLib) (now : Time)

/-- `providerCallbackSignature`. -/
def providerCallbackSignature (secret timestamp body : GoString) : GoString :=
  go "sha256=" ++ hexEncode (L.hmac secret (timestamp ++ go "." ++ body))

/-- The trimmed secret of the server. -/
def Server.secret : GoString := trimSpace srv.security.providerCallbackSecret

def unauthorized (message : String) : Response := .error 401 (go "unauthorized") (go message)

def invalidJSON (message : String) : Response := .error 400 (go "invalid_json") (go message)

/-- `Server.readAndVerifyProviderCallback`: the body, or the error response. -/
def readAndVerifyProviderCallback (r : CallbackRequest) : Except Response GoString :=
  match r.body with
  | none => .error (invalidJSON "request body is too large or unreadable")
  | some raw =>
    if 2 ^ 20 < raw.length then
      .error (invalidJSON "request body is too large or unreadable")
    else if srv.secret = [] then
      .error (unauthorized "provider callback signature is required")
    else
      let timestamp := trimSpace r.timestamp
      let signature := trimSpace r.signature
      if timestamp = [] ∨ signature = [] then
        .error (unauthorized "provider callback signature is required")
      else
        match parseInt timestamp with
        | none => .error (unauthorized "provider callback timestamp is invalid")
        | some epoch =>
          let delta := timeSub now (timeUnix epoch)
          if delta > srv.security.signatureTolerance ∨ delta < -srv.security.signatureTolerance then
            .error (unauthorized "provider callback timestamp is outside tolerance")
          else if signature ≠ providerCallbackSignature L srv.secret timestamp raw then
            .error (unauthorized "provider callback signature is invalid")
          else .ok raw

/-- `Server.recordSettlement` for the tenant of the key: the callback that it
hands to the service, or the error response. -/
def recordSettlement (receivedAt : Time) (tenantID : GoString) (r : CallbackRequest) :
    Except Response SettlementCallback :=
  match readAndVerifyProviderCallback srv L now r with
  | .error response => .error response
  | .ok raw =>
    match L.unmarshal raw with
    | none => .error (invalidJSON "request body must be valid JSON")
    | some payload =>
      .ok { tenantID := tenantID
            transferID := r.id
            spiMessageID := payload.spiMessageID
            status := payload.status
            code := payload.code
            correlationID := r.correlationID
            receivedAt := receivedAt }

/-- The route: `authRole` with the role of a provider, and the handler. -/
def spiCallbacks (receivedAt : Time) (r : CallbackRequest) : Except Response SettlementCallback :=
  match authRole srv.keys roleProvider r.toRequest with
  | .error status code message => .error (.error status code message)
  | .handled tenantID => recordSettlement srv L now receivedAt tenantID r

end endpoint

/-! ## Accepted requests -/

section accepted

variable {srv : Server} {L : CallbackLib} {now now' : Time}

/-- What holds of a request whose body is accepted. -/
structure Accepted (srv : Server) (L : CallbackLib) (now : Time) (r : CallbackRequest)
    (raw : GoString) : Prop where
  body : r.body = some raw
  timestamp : ∃ epoch, parseInt (trimSpace r.timestamp) = some epoch ∧
    timeSub now (timeUnix epoch) ≤ srv.security.signatureTolerance ∧
    -srv.security.signatureTolerance ≤ timeSub now (timeUnix epoch)
  signature : trimSpace r.signature =
    providerCallbackSignature L srv.secret (trimSpace r.timestamp) raw

theorem readAndVerify_ok {r : CallbackRequest} {raw : GoString}
    (h : readAndVerifyProviderCallback srv L now r = .ok raw) : Accepted srv L now r raw := by
  unfold readAndVerifyProviderCallback at h
  split at h
  · cases h
  · rename_i raw' hraw
    split at h
    · cases h
    · split at h
      · cases h
      · dsimp only at h
        split at h
        · cases h
        · split at h
          · cases h
          · rename_i epoch hepoch
            split at h
            · cases h
            · rename_i hdelta
              obtain ⟨hhigh, hlow⟩ := not_or.mp hdelta
              split at h
              · cases h
              · rename_i hsignature
                cases h
                exact ⟨hraw, ⟨epoch, hepoch, not_lt.mp hhigh, not_lt.mp hlow⟩,
                  not_not.mp hsignature⟩

/-- The signature covers the timestamp and the body. -/
theorem signature_covers (hinj : Function.Injective (L.hmac srv.secret))
    {r r' : CallbackRequest} {raw raw' : GoString} (h : Accepted srv L now r raw)
    (h' : Accepted srv L now' r' raw') (hsame : trimSpace r.signature = trimSpace r'.signature) :
    trimSpace r.timestamp = trimSpace r'.timestamp ∧ raw = raw' := by
  obtain ⟨epoch, hepoch, -⟩ := h.timestamp
  obtain ⟨epoch', hepoch', -⟩ := h'.timestamp
  rw [h.signature, h'.signature, providerCallbackSignature, providerCallbackSignature] at hsame
  have hmessage := hinj (hexEncode_injective (List.append_cancel_left hsame))
  have hbyte : go "." = [46] := by decide
  simp only [hbyte, List.append_assoc, List.singleton_append] at hmessage
  have hdot : ∀ {s : GoString} {n : Int}, parseInt s = some n → 46 ∉ s :=
    fun hs => parseInt_notMem hs (by decide) (by decide) (by decide)
  exact append_sep_inj (hdot hepoch) (hdot hepoch') hmessage

/-- A difference that the largest duration does not cut off is within the
tolerance. -/
theorem within_tolerance (srv : Server) {t u : Int}
    (hhigh : timeSub t u ≤ srv.security.signatureTolerance)
    (hlow : -srv.security.signatureTolerance ≤ timeSub t u) :
    -srv.security.signatureTolerance ≤ t - u ∧
      (t - u ≤ srv.security.signatureTolerance ∨ srv.security.signatureTolerance = 2 ^ 63 - 1) := by
  have hpos := srv.tolerance_pos
  obtain ⟨-, hfits⟩ := srv.security.fits
  unfold timeSub Duration at *
  omega

/-- The callback of a request that the endpoint takes. -/
theorem spiCallbacks_ok {receivedAt : Time} {r : CallbackRequest} {cb : SettlementCallback}
    (h : spiCallbacks srv L now receivedAt r = .ok cb) :
    ∃ key raw payload, srv.keys.lookup r.token = some key ∧ key.hasRole roleProvider = true ∧
      readAndVerifyProviderCallback srv L now r = .ok raw ∧ L.unmarshal raw = some payload ∧
      cb.tenantID = key.tenantID ∧ cb.transferID = r.id ∧
      cb.spiMessageID = payload.spiMessageID := by
  unfold spiCallbacks at h
  split at h
  · cases h
  · rename_i tenantID hauth
    obtain ⟨key, hkey, hrole, rfl⟩ := authRole_eq_handled.mp hauth
    unfold recordSettlement at h
    split at h
    · cases h
    · rename_i raw hraw
      split at h
      · cases h
      · rename_i payload hpayload
        cases h
        exact ⟨key, raw, payload, hkey, hrole, hraw, hpayload, rfl, rfl, rfl⟩

end accepted

end PixRail.Api
