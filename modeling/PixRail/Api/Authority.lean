import PixRail.Api.Callbacks
import PixRail.Settlement.Once
import PixRail.Switcher.Sample

/-!
# The authority of a signed callback

Neither the path nor the tenant of a callback is covered by its signature.
They cannot send it to another transfer all the same: the switch settles a
transfer only for the SPI message id in the body, and only if the transfer
belongs to the tenant of the key (`Authority.confined`).  Since message ids
are distinct, a signature can change one transfer, once (`Authority.spent`).
-/

namespace PixRail.Api

open Go Config Rail Store Interleave Switcher Lifecycle Settlement

/-- Stored transfers have distinct SPI message ids. -/
def DistinctMessageIDs (s : MemoryStore) : Prop :=
  ∀ id id' t t', s.transfers.lookup id = some t → s.transfers.lookup id' = some t' →
    t.spiMessageID ≠ [] → t.spiMessageID = t'.spiMessageID → id = id'

section runs

variable {E : Env} {tl dl : Option E.Lim} {tr : Trace (switch E)} {w w' : World (switch E)}
  {cid : Nat} {cb : SettlementCallback} {a : Action sig Input}

/-- What an operation of a settlement call changes: the transfer that the
callback names, from approved to a terminal status. -/
theorem settlement_changes (h : Runs E tl dl tr w)
    (hc : spawnEv cid (.recordSettlement cb) ∈ tr) (hstep : Step w (.act cid a) w')
    (hchange : w'.state.store.transfers ≠ w.state.store.transfers) :
    ∃ t t', w.state.store.transfers.lookup cb.transferID = some t ∧
      w'.state.store.transfers = w.state.store.transfers.insert cb.transferID t' ∧
      t.tenantID = cb.tenantID ∧ t.spiMessageID = cb.spiMessageID ∧ cb.spiMessageID ≠ [] ∧
      t.status = .approved ∧ t'.spiMessageID = cb.spiMessageID ∧ t'.status.Terminal := by
  rcases settlement_writes h hc hstep with he | ⟨t, t', at_, cor, hne, hfind, hsettle, hinsert⟩
  · exact absurd (congrArg (·.transfers) he) hchange
  · obtain ⟨hl, htenant⟩ := MemoryStore.owned_eq_some.mp hfind
    obtain ⟨-, hspi, hstatus, st, hst, rfl⟩ := Transfer.recordSettlement_eq_ok.mp hsettle
    have hid : t.id = cb.transferID := runs_keyed h _ _ hl
    rw [hid] at hinsert
    refine ⟨t, _, hl, hinsert, htenant, hspi, hne, hstatus, hspi, ?_⟩
    cases hcb : (received E.toLib cb at_ cor).status with
    | accepted =>
      rw [hcb] at hst
      cases hst
      exact .inr (.inl rfl)
    | rejected =>
      rw [hcb] at hst
      cases hst
      exact .inr (.inr rfl)
    | other raw hraw =>
      rw [hcb] at hst
      cases hst

/-- After a callback has changed a transfer, no callback with its message id
changes one. -/
theorem settlement_final (h : Runs E tl dl tr w) {w₁ : World (switch E)}
    (hc : spawnEv cid (.recordSettlement cb) ∈ tr) (hstep : Step w (.act cid a) w₁)
    (hchange : w₁.state.store.transfers ≠ w.state.store.transfers) {tr' : Trace (switch E)}
    {w₂ : World (switch E)} (hrun : Run w₁ tr' w₂) (hdistinct : DistinctMessageIDs w₂.state.store)
    {cid' : Nat} {cb' : SettlementCallback} {a' : Action sig Input}
    (hc' : spawnEv cid' (.recordSettlement cb') ∈ tr ++ .act cid a :: tr')
    (hstep' : Step w₂ (.act cid' a') w') (hsame : cb.spiMessageID = cb'.spiMessageID) :
    w'.state.store.transfers = w₂.state.store.transfers := by
  by_contra hchange'
  have h₁ : Runs E tl dl (tr ++ [.act cid a]) w₁ := h.snoc hstep
  have h₂ : Runs E tl dl (tr ++ .act cid a :: tr') w₂ := by
    rw [List.append_cons]
    exact h₁.append hrun
  obtain ⟨t, t₁, hl, hinsert, -, -, hne, -, hspi₁, hterm⟩ := settlement_changes h hc hstep hchange
  obtain ⟨t', -, hl', -, -, hspi', -, hstatus', -⟩ := settlement_changes h₂ hc' hstep' hchange'
  -- the settled transfer is still there, so the second one is the same
  have hl₁ : w₁.state.store.transfers.lookup cb.transferID = some t₁ := by
    rw [hinsert, Finmap.lookup_insert]
  obtain ⟨t₂, hl₂, hfrozen⟩ := run_frozen h₁ hrun hl₁
  obtain rfl := hfrozen.terminal hterm
  have hids : cb.transferID = cb'.transferID := by
    refine hdistinct _ _ _ _ hl₂ hl' (by rwa [hspi₁]) ?_
    rw [hspi₁, hsame, hspi']
  -- but a settlement finds its transfer approved
  rw [hids, hl', Option.some.injEq] at hl₂
  rw [← hl₂, hstatus'] at hterm
  exact absurd hterm (by decide)

end runs

/-- Call `cid` of the trace handles the request, which the endpoint has taken
as the callback. -/
structure Handles {E : Env} (srv : Server) (L : CallbackLib) (tr : Trace (switch E)) (cid : Nat)
    (r : CallbackRequest) (cb : SettlementCallback) : Prop where
  taken : ∃ now receivedAt, spiCallbacks srv L now receivedAt r = .ok cb
  started : spawnEv cid (.recordSettlement cb) ∈ tr

/-- Requests with one signature have the message id of the one signed body. -/
theorem Handles.same_message {E : Env} {srv : Server} {L : CallbackLib}
    (hinj : Function.Injective (L.hmac srv.secret)) {tr tr' : Trace (switch E)} {cid cid' : Nat}
    {r r' : CallbackRequest} {cb cb' : SettlementCallback} (h : Handles srv L tr cid r cb)
    (h' : Handles srv L tr' cid' r' cb') (hsame : trimSpace r.signature = trimSpace r'.signature) :
    cb.spiMessageID = cb'.spiMessageID := by
  obtain ⟨now, receivedAt, htaken⟩ := h.taken
  obtain ⟨now', receivedAt', htaken'⟩ := h'.taken
  obtain ⟨-, raw, payload, -, -, hraw, hpayload, -, -, hmessage⟩ := spiCallbacks_ok htaken
  obtain ⟨-, raw', payload', -, -, hraw', hpayload', -, -, hmessage'⟩ := spiCallbacks_ok htaken'
  obtain ⟨-, rfl⟩ := signature_covers hinj (readAndVerify_ok hraw) (readAndVerify_ok hraw') hsame
  obtain rfl := Option.some.inj (hpayload.symm.trans hpayload')
  exact hmessage.trans hmessage'.symm

/-- What an accepted request stands for. -/
structure Authority (srv : Server) (L : CallbackLib) : Prop where
  /-- A signature is one for one timestamp and one body. -/
  signed : ∀ {now now' : Time} {r r' : CallbackRequest} {raw raw' : GoString},
    readAndVerifyProviderCallback srv L now r = .ok raw →
    readAndVerifyProviderCallback srv L now' r' = .ok raw' →
    trimSpace r.signature = trimSpace r'.signature →
      trimSpace r.timestamp = trimSpace r'.timestamp ∧ r.body = r'.body
  /-- The timestamp is within the tolerance.  A tolerance of the largest
  duration has no limit for older timestamps, which `time.Unix` may have
  wrapped. -/
  fresh : ∀ {now : Time} {r : CallbackRequest} {raw : GoString},
    readAndVerifyProviderCallback srv L now r = .ok raw →
    ∃ epoch, parseInt (trimSpace r.timestamp) = some epoch ∧
      -srv.security.signatureTolerance ≤ now - timeUnix epoch ∧
      (now - timeUnix epoch ≤ srv.security.signatureTolerance ∧
          (0 ≤ now → timeUnix epoch = unixEpoch + epoch * second) ∨
        srv.security.signatureTolerance = 2 ^ 63 - 1)
  /-- Handling a request changes at most the transfer of the path, and only if
  it is one of the tenant of the key with the message id of the body. -/
  confined : ∀ {E : Env} {tl dl : Option E.Lim} {tr : Trace (switch E)} {w w' : World (switch E)}
    {cid : Nat} {a : Action sig Input} {r : CallbackRequest} {cb : SettlementCallback},
    Runs E tl dl tr w → Handles srv L tr cid r cb → Step w (.act cid a) w' →
    ∀ id, w'.state.store.transfers.lookup id ≠ w.state.store.transfers.lookup id →
      id = r.id ∧ ∃ key raw payload t, srv.keys.lookup r.token = some key ∧
        key.hasRole roleProvider = true ∧ r.body = some raw ∧ L.unmarshal raw = some payload ∧
        w.state.store.transfers.lookup id = some t ∧ t.tenantID = key.tenantID ∧
        t.spiMessageID = payload.spiMessageID ∧ t.spiMessageID ≠ []
  /-- After a request has changed a transfer, no request with its signature
  changes one. -/
  spent : ∀ {E : Env} {tl dl : Option E.Lim} {tr tr' : Trace (switch E)}
    {w w₁ w₂ w' : World (switch E)} {cid cid' : Nat} {a a' : Action sig Input}
    {r r' : CallbackRequest} {cb cb' : SettlementCallback},
    Runs E tl dl tr w → Step w (.act cid a) w₁ → Run w₁ tr' w₂ → Step w₂ (.act cid' a') w' →
    Handles srv L tr cid r cb → Handles srv L (tr ++ .act cid a :: tr') cid' r' cb' →
    trimSpace r.signature = trimSpace r'.signature → DistinctMessageIDs w₂.state.store →
    w₁.state.store.transfers ≠ w.state.store.transfers →
      w'.state.store.transfers = w₂.state.store.transfers

theorem callback_authority (srv : Server) (L : CallbackLib)
    (hinj : Function.Injective (L.hmac srv.secret)) : Authority srv L where
  signed := by
    intro now now' r r' raw raw' h h' hsame
    obtain ⟨htimestamp, rfl⟩ :=
      signature_covers hinj (readAndVerify_ok h) (readAndVerify_ok h') hsame
    exact ⟨htimestamp, (readAndVerify_ok h).body.trans (readAndVerify_ok h').body.symm⟩
  fresh := by
    intro now r raw h
    obtain ⟨epoch, hepoch, hhigh, hlow⟩ := (readAndVerify_ok h).timestamp
    obtain ⟨hnewer, holder⟩ := within_tolerance srv hhigh hlow
    refine ⟨epoch, hepoch, hnewer, holder.imp_left fun hle => ⟨hle, fun hnow => ?_⟩⟩
    obtain ⟨hlo, hhi⟩ := parseInt_fits hepoch
    have hfits := srv.security.fits.2
    exact timeUnix_of_recent hlo hhi (by unfold Time Duration at *; omega)
  confined := by
    intro E tl dl tr w w' cid a r cb h hhandles hstep id hchange
    obtain ⟨now, receivedAt, htaken⟩ := hhandles.taken
    obtain ⟨key, raw, payload, hkey, hrole, hraw, hpayload, htenant, hid, hspi⟩ :=
      spiCallbacks_ok htaken
    obtain ⟨t, t', hl, hinsert, ht, hmessage, hne, -⟩ :=
      settlement_changes h hhandles.started hstep fun he => hchange (by rw [he])
    obtain rfl : id = cb.transferID := by
      by_contra hother
      exact hchange (by rw [hinsert, Finmap.lookup_insert_of_ne _ hother])
    exact ⟨hid, key, raw, payload, t, hkey, hrole, (readAndVerify_ok hraw).body, hpayload, hl,
      ht.trans htenant, hmessage.trans hspi, by rwa [hmessage]⟩
  spent := by
    intro E tl dl tr tr' w w₁ w₂ w' cid cid' a a' r r' cb cb' h hstep hrun hstep' hhandles
      hhandles' hsame hdistinct hchange
    exact settlement_final h hhandles.started hstep hchange hrun hdistinct hhandles'.started hstep'
      (hhandles.same_message hinj hhandles' hsame)

/-! ## The callback of the sample payment -/

def providerKey : APIKey where
  tenantID := go "tenant-a"
  secret := go "provider-secret"
  roles := Finmap.singleton roleProvider true

/-- A server with the given tolerance, in nanoseconds. -/
def sampleServer (tolerance : Duration) (fits : -2 ^ 63 ≤ tolerance ∧ tolerance < 2 ^ 63) :
    Server :=
  newServer (Finmap.singleton (go "provider-secret") providerKey)
    (some ⟨go "provider-callback-secret", tolerance, fits⟩)

def callbackBody : GoString :=
  go "\x7b\"spi_message_id\":\"spi_1\",\"status\":\"accepted\",\"code\":\"00\"\x7d"

/-- The codes of the callback at midnight of 2026-01-01 and at the epoch
-9000000000, under the secret of the server. -/
def callbackCodes : List (GoString × GoString) :=
  [(go "1767225600." ++ callbackBody,
      [0x63, 0x12, 0x1f, 0x54, 0x83, 0xa4, 0xb5, 0x33, 0xf3, 0x81, 0x78, 0xf5, 0x65, 0xcb, 0x68,
        0x1e, 0xe0, 0xb9, 0x49, 0x71, 0x95, 0x10, 0x13, 0x7e, 0x45, 0x60, 0xf9, 0x18, 0xa3, 0xa0,
        0x0f, 0x8e]),
    (go "-9000000000." ++ callbackBody,
      [0xdd, 0xce, 0xad, 0xb4, 0x97, 0x92, 0x16, 0xda, 0xa0, 0xb3, 0x1a, 0xb6, 0x95, 0x83, 0x76,
        0x03, 0xfb, 0xcf, 0x26, 0x1c, 0x54, 0xbd, 0xb5, 0x7c, 0x59, 0xe6, 0x70, 0x96, 0x6f, 0x63,
        0x6a, 0x57])]

def sampleLib : CallbackLib where
  hmac _ := tableSum callbackCodes
  unmarshal raw :=
    if raw = callbackBody then some ⟨go "spi_1", .accepted, go "00"⟩ else none

theorem sampleLib_injective (secret : GoString) : Function.Injective (sampleLib.hmac secret) :=
  tableSum_injective (by decide +kernel) (by decide +kernel)

def signedRequest (timestamp signature : String) : CallbackRequest where
  authorization := go "Bearer provider-secret"
  id := sampleID
  timestamp := go timestamp
  signature := go signature
  body := some callbackBody
  correlationID := go "corr-1"

/-- The callback at midnight of 2026-01-01. -/
def freshRequest : CallbackRequest :=
  signedRequest " 1767225600"
    "sha256=63121f5483a4b533f38178f565cb681ee0b949719510137e4560f918a3a00f8e"

/-- The callback with a timestamp of the year 1684. -/
def oldRequest : CallbackRequest :=
  signedRequest "-9000000000"
    "sha256=ddceadb4979216daa0b31ab695837603fbcf261c54bdb57c59e670966f636a57"

def signedCallback : SettlementCallback :=
  { sampleCallback with correlationID := go "corr-1", receivedAt := newYear }

/-- The sample payment up to the record, and then the signed callback. -/
def signedLabels : List (Label (switch sampleEnv)) :=
  createLabels ++ claimLabels 1 newYear 7 (go "tenant-a") sampleID ++
    recordLabels 1 newYear 8 sampleMessage ++
    [.spawn 2 (.recordSettlement signedCallback), .step 2 (tick newYear), .step 2 (draw newYear 10),
      .step 2 (tick newYear)]

set_option maxRecDepth 20000 in
theorem signedLabels_isSome :
    ((World.init (State.initial sampleEnv none none)).exec signedLabels).isSome := by
  decide +kernel

/-- The server takes the signed callback, which settles the transfer. -/
theorem callback_authority_sample :
    spiCallbacks (sampleServer (5 * minute) (by decide)) sampleLib newYear newYear freshRequest =
        .ok signedCallback ∧
      ((World.ran _ signedLabels signedLabels_isSome).2.state.store.transfers.lookup
        sampleID).map (·.status) = some .settled ∧
      Authority (sampleServer (5 * minute) (by decide)) sampleLib :=
  ⟨by decide +kernel, by decide +kernel,
    callback_authority (sampleServer (5 * minute) (by decide)) sampleLib (sampleLib_injective _)⟩

/-- A server with the largest tolerance, which is less than 293 years, takes in
2026 a callback of the year 1684. -/
theorem old_callback_accepted :
    readAndVerifyProviderCallback (sampleServer (2 ^ 63 - 1) (by decide)) sampleLib newYear
        oldRequest = .ok callbackBody ∧
      Function.Injective (sampleLib.hmac (sampleServer (2 ^ 63 - 1) (by decide)).secret) ∧
      parseInt (trimSpace oldRequest.timestamp) = some (-9000000000) ∧
      (sampleServer (2 ^ 63 - 1) (by decide)).security.signatureTolerance <
        newYear - timeUnix (-9000000000) :=
  ⟨by decide +kernel, sampleLib_injective _, by decide +kernel, by decide +kernel⟩

end PixRail.Api
