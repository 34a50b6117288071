import PixRail.Go.Segments
import PixRail.Idempotency.Once

/-!
# What a request fingerprint tells apart

`Fingerprint` joins seven fields of a request with a NUL byte and hashes the
result.  `Validate` lets a NUL byte pass in the tenant, the account, the
receiver key and the description, so the joined bytes can have more than one
reading as a request: a field may end at another separator.

`OneReading` says of the bytes of a request that they have no other reading.
It is what the comparison of fingerprints needs, no more and no less
(`determines_iff_oneReading`).  A request without NUL bytes has one reading.
-/

namespace PixRail.Idempotency

open Go Rail Events Store Interleave Switcher

/-! ## The payload of a request -/

/-- The fields of a request that the idempotency key stands for, as
`CreateTransfer` normalises them. -/
structure Order where
  tenantID : GoString
  accountID : GoString
  amountCents : Int
  currency : GoString
  receiverKey : GoString
  receiverKeyType : DictKeyType
  description : GoString
  deriving DecidableEq

def order (r : CreateTransferRequest) : Order where
  tenantID := trimSpace r.tenantID
  accountID := trimSpace r.accountID
  amountCents := r.amountCents
  currency := (normalize r 0).currency
  receiverKey := trimSpace r.receiverKey
  receiverKeyType := r.receiverKeyType
  description := trimSpace r.description

/-- The request passes `CreateTransfer`'s normalisation and `Validate`. -/
def Accepted (r : CreateTransferRequest) : Prop := (normalize r 0).validate = .ok ()

instance (r : CreateTransferRequest) : Decidable (Accepted r) :=
  inferInstanceAs (Decidable (_ = _))

/-- The bytes that `Fingerprint` hashes. -/
def preimage (r : CreateTransferRequest) : GoString := join r.fingerprintParts [0]

theorem fingerprint_inj {H : Digest} (hinj : Function.Injective H.sum256)
    {r r' : CreateTransferRequest} :
    r.fingerprint H = r'.fingerprint H ↔ preimage r = preimage r' := by
  constructor
  · intro h
    exact hinj (hexEncode_injective h)
  · intro h
    exact congrArg (fun s => hexEncode (H.sum256 s)) h

/-! ## Readings of the bytes -/

/-- Segments that make up a field: joined, they are trimmed and not empty. -/
def Field (ps : List GoString) : Prop :=
  trimSpace (join ps [0]) = join ps [0] ∧ join ps [0] ≠ []

/-- How many segments the tenant, the account and the receiver key take up. -/
structure Cut where
  tenantID : Nat
  accountID : Nat
  receiverKey : Nat
  deriving DecidableEq

/-- The segments `l`, cut at `c`, are the fields of a valid request: tenant,
account, amount, currency, receiver key, key type and description. -/
structure Reads (l : List GoString) (c : Cut) (tn acct key desc : List GoString) (amount : Int)
    (ty : DictKeyType) : Prop where
  split : l = tn ++ acct ++ [itoa amount, go "BRL"] ++ key ++ [ty.text] ++ desc
  cut : c = ⟨tn.length, acct.length, key.length⟩
  tenantID : Field tn
  accountID : Field acct
  receiverKey : Field key
  description : desc ≠ [] ∧ trimSpace (join desc [0]) = join desc [0]
  amountCents : 1 ≤ amount ∧ amount ≤ 2000000
  receiverKeyType : ty.Known

/-- Where a request cuts its own bytes. -/
def cutOf (r : CreateTransferRequest) : Cut where
  tenantID := (segments 0 (trimSpace r.tenantID)).length
  accountID := (segments 0 (trimSpace r.accountID)).length
  receiverKey := (segments 0 (trimSpace r.receiverKey)).length

/-- The bytes of the request can be cut into a valid request in one place
only. -/
def OneReading (r : CreateTransferRequest) : Prop :=
  ∀ c tn acct key desc amount ty,
    Reads (segments 0 (preimage r)) c tn acct key desc amount ty → c = cutOf r

theorem Field.ne_nil {ps : List GoString} (h : Field ps) : ps ≠ [] := by
  rintro rfl
  exact h.2 rfl

theorem field_segments {s : GoString} (hne : trimSpace s ≠ []) :
    Field (segments 0 (trimSpace s)) := by
  rw [Field, join_segments, trimSpace_trimSpace]
  exact ⟨rfl, hne⟩

theorem text_notMem {ty : DictKeyType} (h : ty.Known) : 0 ∉ ty.text := by
  cases ty with
  | other raw hraw => exact absurd h id
  | _ => decide +kernel

theorem text_injective {ty ty' : DictKeyType} (h : ty.Known) (h' : ty'.Known)
    (he : ty.text = ty'.text) : ty = ty' := by
  cases ty with
  | other raw hraw => exact absurd h id
  | _ =>
    cases ty' with
    | other raw hraw => exact absurd h' id
    | _ => first | rfl | exact absurd he (by decide +kernel)

/-- The fields of an accepted request. -/
theorem Accepted.valid {r : CreateTransferRequest} (h : Accepted r) :
    (normalize r 0).Valid :=
  CreateTransferRequest.validate_eq_ok.mp h

theorem Accepted.currency {r : CreateTransferRequest} (h : Accepted r) :
    (normalize r 0).currency = go "BRL" ∧ (r.currency = [] ∨ r.currency = go "BRL") := by
  have hcur := h.valid.currency
  by_cases hnil : r.currency = []
  · exact ⟨if_pos hnil, .inl hnil⟩
  · have he : (normalize r 0).currency = r.currency := if_neg hnil
    rw [he] at hcur ⊢
    exact ⟨hcur.resolve_left hnil, hcur⟩

theorem Accepted.preimage_eq {r : CreateTransferRequest} (h : Accepted r) :
    preimage r = join [trimSpace r.tenantID, trimSpace r.accountID, itoa r.amountCents, go "BRL",
      trimSpace r.receiverKey, r.receiverKeyType.text, trimSpace r.description] [0] := by
  have hcur : (if trimSpace r.currency = [] then go "BRL" else trimSpace r.currency) =
      go "BRL" := by
    rcases h.currency.2 with hc | hc <;> rw [hc] <;> decide +kernel
  simp only [preimage, CreateTransferRequest.fingerprintParts, hcur]

/-- A request is a reading of its own bytes. -/
theorem Accepted.reads {r : CreateTransferRequest} (h : Accepted r) :
    Reads (segments 0 (preimage r)) (cutOf r) (segments 0 (trimSpace r.tenantID))
      (segments 0 (trimSpace r.accountID)) (segments 0 (trimSpace r.receiverKey))
      (segments 0 (trimSpace r.description)) r.amountCents r.receiverKeyType := by
  have hv := h.valid
  have hpos : 1 ≤ r.amountCents := hv.positive
  have hamount := segments_of_notMem (zero_notMem_itoa (n := r.amountCents) (by omega))
  have hbrl : segments 0 (go "BRL") = [go "BRL"] := segments_of_notMem (by decide +kernel)
  have hty := segments_of_notMem (text_notMem hv.receiverKeyType)
  refine ⟨?_, rfl, field_segments ?_, field_segments ?_, field_segments ?_, ?_, ⟨hpos, hv.bounded⟩,
    hv.receiverKeyType⟩
  · rw [h.preimage_eq, segments_join 0 (List.cons_ne_nil _ _)]
    simp only [List.flatMap_cons, List.flatMap_nil, hamount, hbrl]
    rw [show segments 0 r.receiverKeyType.text = [r.receiverKeyType.text] from hty]
    simp
  · have := hv.tenantID
    rwa [show (normalize r 0).tenantID = trimSpace r.tenantID from rfl, trimSpace_trimSpace] at this
  · have := hv.accountID
    rwa [show (normalize r 0).accountID = trimSpace r.accountID from rfl,
      trimSpace_trimSpace] at this
  · have := hv.receiverKey
    rwa [show (normalize r 0).receiverKey = trimSpace r.receiverKey from rfl,
      trimSpace_trimSpace] at this
  · rw [join_segments, trimSpace_trimSpace]
    exact ⟨segments_ne_nil _ _, rfl⟩

/-- The request of a reading. -/
def ofReading (r : CreateTransferRequest) (tn acct key desc : List GoString) (amount : Int)
    (ty : DictKeyType) : CreateTransferRequest :=
  { r with
    tenantID := join tn [0]
    accountID := join acct [0]
    amountCents := amount
    currency := go "BRL"
    receiverKey := join key [0]
    receiverKeyType := ty
    description := join desc [0] }

section reading

variable {r : CreateTransferRequest} {c : Cut} {tn acct key desc : List GoString} {amount : Int}
  {ty : DictKeyType}

theorem Reads.accepted (h : Accepted r)
    (hr : Reads (segments 0 (preimage r)) c tn acct key desc amount ty) :
    Accepted (ofReading r tn acct key desc amount ty) := by
  have hfield : ∀ {ps}, Field ps → trimSpace (trimSpace (join ps [0])) ≠ [] := by
    intro ps hf
    rw [trimSpace_trimSpace, hf.1]
    exact hf.2
  refine CreateTransferRequest.validate_eq_ok.mpr ⟨hfield hr.tenantID, hfield hr.accountID,
    h.valid.idempotencyKey, hr.amountCents.1, hr.amountCents.2, .inr ?_, hfield hr.receiverKey,
    hr.receiverKeyType⟩
  show (if go "BRL" = [] then go "BRL" else go "BRL") = go "BRL"
  split <;> rfl

/-- The request of a reading has the same bytes. -/
theorem Reads.preimage_eq (h : Accepted r)
    (hr : Reads (segments 0 (preimage r)) c tn acct key desc amount ty) :
    preimage (ofReading r tn acct key desc amount ty) = preimage r := by
  have hjoin := join_map_join 0 [tn, acct, [itoa amount], [go "BRL"], key, [ty.text], desc] (by
      simp [hr.tenantID.ne_nil, hr.accountID.ne_nil, hr.receiverKey.ne_nil, hr.description.1])
  rw [(hr.accepted h).preimage_eq, ← join_segments 0 (preimage r), hr.split]
  simp only [ofReading, hr.tenantID.1, hr.accountID.1, hr.receiverKey.1, hr.description.2]
  simpa using hjoin

/-- The pieces of a reading hold no separator. -/
theorem Reads.notMem (hr : Reads (segments 0 (preimage r)) c tn acct key desc amount ty) :
    ∀ ps ∈ [tn, acct, key], ∀ p ∈ ps, (0 : UInt8) ∉ p := by
  intro ps hps p hp
  refine notMem_of_mem_segments (s := preimage r) ?_
  rw [hr.split]
  simp only [List.mem_cons, List.not_mem_nil, or_false] at hps
  rcases hps with rfl | rfl | rfl <;> simp [hp]

/-- A reading cuts the bytes where its request does. -/
theorem Reads.cut_eq (hr : Reads (segments 0 (preimage r)) c tn acct key desc amount ty)
    (ho : order (ofReading r tn acct key desc amount ty) = order r) : c = cutOf r := by
  have hcut : ∀ {ps s}, ps ∈ [tn, acct, key] → Field ps → trimSpace (join ps [0]) = s →
      ps.length = (segments 0 s).length := by
    intro ps s hps hf hs
    rw [← hs, hf.1, segments_join_of_notMem hf.ne_nil (hr.notMem ps hps)]
  rw [hr.cut, cutOf,
    hcut (by simp) hr.tenantID (congrArg Order.tenantID ho),
    hcut (by simp) hr.accountID (congrArg Order.accountID ho),
    hcut (by simp) hr.receiverKey (congrArg Order.receiverKey ho)]
  rfl

/-- Readings with the same cut are the same. -/
theorem Reads.unique {l tn' acct' key' desc' : List GoString} {amount' : Int}
    {ty' : DictKeyType} (hr : Reads l c tn acct key desc amount ty)
    (hr' : Reads l c tn' acct' key' desc' amount' ty') :
    tn = tn' ∧ acct = acct' ∧ amount = amount' ∧ key = key' ∧ ty = ty' ∧ desc = desc' := by
  have hcut := hr.cut.symm.trans hr'.cut
  injection hcut with htn hacct hkey
  have hsplit := hr.split.symm.trans hr'.split
  simp only [List.append_assoc] at hsplit
  obtain ⟨h1, hsplit⟩ := List.append_inj hsplit htn
  obtain ⟨h2, hsplit⟩ := List.append_inj hsplit hacct
  obtain ⟨h3, hsplit⟩ := List.append_inj hsplit rfl
  obtain ⟨h4, hsplit⟩ := List.append_inj hsplit hkey
  obtain ⟨h5, h6⟩ := List.append_inj hsplit rfl
  have hpos := hr.amountCents.1
  have hpos' := hr'.amountCents.1
  exact ⟨h1, h2, itoa_injective (by omega) (by omega) (List.cons.inj h3).1, h4,
    text_injective hr.receiverKeyType hr'.receiverKeyType (List.cons.inj h5).1, h6⟩

end reading

/-! ## What equal fingerprints say -/

/-- Among the accepted requests, only those with the payload of `r` have its
fingerprint. -/
def Determines (H : Digest) (r : CreateTransferRequest) : Prop :=
  ∀ r', Accepted r' → r'.fingerprint H = r.fingerprint H → order r' = order r

theorem oneReading_of_determines {H : Digest} {r : CreateTransferRequest} (h : Accepted r)
    (hd : Determines H r) : OneReading r := by
  intro c tn acct key desc amount ty hr
  refine hr.cut_eq (hd _ (hr.accepted h) ?_)
  exact congrArg (fun s => hexEncode (H.sum256 s)) (hr.preimage_eq h)

theorem OneReading.determines {H : Digest} (hinj : Function.Injective H.sum256)
    {r : CreateTransferRequest} (h : Accepted r) (hone : OneReading r) : Determines H r := by
  intro r' h' hfp
  have hbytes : preimage r' = preimage r := (fingerprint_inj hinj).mp hfp
  have hr := h.reads
  have hr' := h'.reads
  rw [hbytes] at hr'
  rw [hone _ _ _ _ _ _ _ hr'] at hr'
  obtain ⟨htn, hacct, hamount, hkey, hty, hdesc⟩ := hr'.unique hr
  have hfield : ∀ {s s' : GoString}, segments 0 s = segments 0 s' → s = s' := by
    intro s s' hs
    rw [← join_segments 0 s, hs, join_segments]
  rw [order, order, hfield htn, hfield hacct, hamount, hfield hkey, hty, hfield hdesc,
    h.currency.1, h'.currency.1]

/-- A fingerprint determines the payload of its request exactly when its
bytes have one reading. -/
theorem determines_iff_oneReading {H : Digest} (hinj : Function.Injective H.sum256)
    {r : CreateTransferRequest} (h : Accepted r) : Determines H r ↔ OneReading r :=
  ⟨oneReading_of_determines h, fun hone => hone.determines hinj h⟩

/-- A request without NUL bytes has one reading. -/
theorem oneReading_of_notMem {r : CreateTransferRequest} (h : Accepted r)
    (htn : 0 ∉ trimSpace r.tenantID) (hacct : 0 ∉ trimSpace r.accountID)
    (hkey : 0 ∉ trimSpace r.receiverKey) (hdesc : 0 ∉ trimSpace r.description) :
    OneReading r := by
  intro c tn acct key desc amount ty hr
  have hlen := congrArg List.length (h.reads.split.symm.trans hr.split)
  have htn' := List.length_pos_iff.mpr hr.tenantID.ne_nil
  have hacct' := List.length_pos_iff.mpr hr.accountID.ne_nil
  have hkey' := List.length_pos_iff.mpr hr.receiverKey.ne_nil
  have hdesc' := List.length_pos_iff.mpr hr.description.1
  simp only [segments_of_notMem htn, segments_of_notMem hacct, segments_of_notMem hkey,
    segments_of_notMem hdesc, List.length_append, List.length_cons, List.length_nil] at hlen
  rw [hr.cut, cutOf, segments_of_notMem htn, segments_of_notMem hacct, segments_of_notMem hkey]
  simp only [Cut.mk.injEq, List.length_singleton]
  omega

/-! ## A key used again -/

section reuse

variable {E : Env} {tl dl : Option E.Lim} {tr : Trace (switch E)} {w : World (switch E)}
  {cid : Nat}

/-- The error for a key that is stored with another fingerprint. -/
def keyReused : Err :=
  ErrKind.conflict.wrap (go "idempotency key reused with different request payload")

/-- The result for a request whose key is stored with another payload, or the
error of a context that is done at the lookup. -/
def ConflictResult (req : CreateTransferRequest) (h : History) (r : Except Err Result) : Prop :=
  r = .error keyReused ∨
    ∃ e i, r = .error e.err ∧ i.ctx = some e ∧
      (⟨.store (findFor req), i, .error e.err⟩ : Action sig Input) ∈ h

theorem LateResult.conflict {H : Digest} {req : CreateTransferRequest} {t : Transfer}
    (hacc : Accepted req) (hne : t.requestHash ≠ []) (hhash : t.requestHash ≠ req.fingerprint H)
    {h : History} {r : Except Err Result} (hr : LateResult H req t h r) :
    ConflictResult req h r := by
  rcases hr with ⟨t', rfl, hsame⟩ | ⟨e, -, he⟩ | hr
  · refine .inl (if_pos ?_)
    rw [hsame.requestHash]
    exact ⟨hne, hhash⟩
  · rw [Accepted] at hacc
    rw [hacc] at he
    exact absurd he (by simp)
  · exact .inr hr

/-- The call `cid` stored the transfer of its request. -/
def StoredBy (tr : Trace (switch E)) (cid : Nat) (r : CreateTransferRequest) : Prop :=
  spawnEv cid (.createTransfer r) ∈ tr ∧
    ∃ t evs auds i, actEv cid (.store (.insertTransfer t evs auds)) i (.ok ()) ∈ tr

/-- The two requests name the same tenant and idempotency key. -/
def SameKey (r r' : CreateTransferRequest) : Prop :=
  trimSpace r.tenantID = trimSpace r'.tenantID ∧
    trimSpace r.idempotencyKey = trimSpace r'.idempotencyKey

instance (r r' : CreateTransferRequest) : Decidable (SameKey r r') :=
  inferInstanceAs (Decidable (_ ∧ _))

theorem StoredBy.has (h : Runs E tl dl tr w) {r₀ : CreateTransferRequest}
    (hst : StoredBy tr cid r₀) :
    Accepted r₀ ∧ ∃ t, Has w.state.store (trimSpace r₀.tenantID) (trimSpace r₀.idempotencyKey) t ∧
      t.requestHash = r₀.fingerprint E.digest := by
  obtain ⟨hc, t, evs, auds, i, ha⟩ := hst
  obtain ⟨-, hhash, t', hhas, hsame⟩ := created_has h hc ⟨i, mem_hist.mpr ha⟩
  refine ⟨?_, t', hhas, by rw [hsame.requestHash, hhash]⟩
  obtain ⟨t₁, t₂, rfl⟩ := List.append_of_mem ha
  obtain ⟨c, hc', hallow⟩ := (contract E tl dl).allows_at h
  cases hallow with
  | insert hcr hvalid hstatus hfirst hid hfind ht hevs =>
    have he := h.spawn_unique hc (List.mem_append_left _ hc')
    rw [hcr] at he
    obtain rfl : r₀ = _ := by injection he
    exact hvalid

/-- What a run guarantees to the request that stored the transfer of a key. -/
structure Guarded (E : Env) (tl dl : Option E.Lim) (tr : Trace (switch E))
    (w : World (switch E)) (r₀ : CreateTransferRequest) (cid₀ : Nat) : Prop where
  /-- A call that succeeds under the key, as a replay or not, has its payload. -/
  success : StoredBy tr cid₀ r₀ → ∀ cid r res,
    Returned w cid (.createTransfer r) (.result (.ok res)) → Accepted r → SameKey r r₀ →
    order r = order r₀
  /-- A later call with another payload is answered with the conflict. -/
  conflict : ∀ t₁ t₂ w₁ cid r, tr = t₁ ++ spawnEv cid (.createTransfer r) :: t₂ →
    Runs E tl dl t₁ w₁ → Run w₁ (spawnEv cid (.createTransfer r) :: t₂) w →
    StoredBy t₁ cid₀ r₀ → Accepted r → SameKey r r₀ → order r ≠ order r₀ →
    LateCall w cid r (ConflictResult r) (hist cid t₂)

theorem guarded_of_oneReading (hinj : Function.Injective E.digest.sum256)
    (hcolon : ColonFree tr) (h : Runs E tl dl tr w) {r₀ : CreateTransferRequest}
    (hone : OneReading r₀) (cid₀ : Nat) : Guarded E tl dl tr w r₀ cid₀ where
  success := by
    intro hst cid r res hret hacc hkey
    obtain ⟨hacc₀, t, hhas, hhash⟩ := hst.has h
    obtain ⟨t', hhas', -, hhash'⟩ := returned_ok hcolon h hret
    rw [hkey.1, hkey.2] at hhas'
    obtain rfl := hhas.unique (runs_filed h) hhas'
    exact hone.determines hinj hacc₀ r hacc (hhash'.symm.trans hhash)
  conflict := by
    intro t₁ t₂ w₁ cid r _ h₁ h₂ hst hacc hkey hne
    obtain ⟨hacc₀, t, hhas, hhash⟩ := hst.has h₁
    rw [← hkey.1, ← hkey.2] at hhas
    refine (late_call h₁ h₂ hhas).mono fun res => LateResult.conflict hacc ?_ ?_
    · rw [hhash]
      exact fingerprint_ne_nil _ _
    · intro hfp
      exact hne (hone.determines hinj hacc₀ r hacc (hfp.symm.trans hhash))

end reuse

/-- With an injective digest, an accepted request is the only one with its
fingerprint, up to the payload, exactly when its bytes have one reading; and
in every run a key stored with such a request is guarded. -/
theorem fingerprint_tells_apart {E : Env} (hinj : Function.Injective E.digest.sum256) :
    (∀ r, Accepted r → (Determines E.digest r ↔ OneReading r)) ∧
      ∀ tl dl tr w, ColonFree tr → Runs E tl dl tr w → ∀ r₀, OneReading r₀ →
        ∀ cid₀, Guarded E tl dl tr w r₀ cid₀ :=
  ⟨fun _ h => determines_iff_oneReading hinj h,
    fun _ _ _ _ hcolon h _ hone cid₀ => guarded_of_oneReading hinj hcolon h hone cid₀⟩

/-- The sample request for one cent more. -/
def dearerRequest : CreateTransferRequest := { sampleRequest with amountCents := 1501 }

/-- A request whose description goes on after a NUL byte. -/
def nulRequest : CreateTransferRequest :=
  { sampleRequest with description := join [go "order 42", go "CPF", go "rent"] [0] }

/-- The bytes of `nulRequest`, read with a longer receiver key of another
type. -/
def shiftedRequest : CreateTransferRequest :=
  { sampleRequest with
    receiverKey := join [go "maria@example.com", go "EMAIL", go "order 42"] [0]
    receiverKeyType := .cpf
    description := go "rent" }

def reuseTable : List (GoString × GoString) :=
  (preimage dearerRequest,
    [0x38, 0x20, 0x7a, 0x77, 0x8e, 0x0e, 0x3d, 0xe0, 0x34, 0xda, 0x8f, 0x6c, 0xea, 0xdf, 0xe3,
      0x51, 0xd0, 0x29, 0x3b, 0xbd, 0x4f, 0x1d, 0x8a, 0x73, 0x52, 0xf4, 0x9f, 0xb9, 0x76, 0xe8,
      0xe7, 0x09]) ::
  (preimage nulRequest,
    [0x69, 0x2b, 0xbf, 0x7e, 0x65, 0x8e, 0xe9, 0x8e, 0x2e, 0x37, 0x91, 0x1e, 0x6e, 0xd7, 0x0e,
      0x4e, 0xdb, 0xd3, 0xdc, 0x31, 0x3b, 0xbf, 0x8d, 0xd8, 0xbd, 0xbd, 0x6f, 0x25, 0xd1, 0xe1,
      0xdc, 0xa5]) :: sampleTable

theorem reuseTable_length : ∀ p ∈ reuseTable, p.2.length = 32 := by
  decide +kernel

def reuseEnv : Env := tableEnv reuseTable reuseTable_length

/-- The first request is stored, then the second one uses its key again. -/
def reuseLabels (r r' : CreateTransferRequest) : List (Label (switch reuseEnv)) :=
  decideLabels 0 newYear r sampleDict sampleFraud ++ buildLabels 0 newYear 1 5 ++
    [.step 0 (tick newYear), .spawn 1 (.createTransfer r'), .step 1 (tick newYear),
      .step 1 (tick newYear)]

set_option maxRecDepth 20000 in
theorem reuse_isSome : ((World.init (State.initial reuseEnv none none)).exec
    (reuseLabels sampleRequest dearerRequest)).isSome := by
  decide +kernel

def reuse : Trace (switch reuseEnv) × World (switch reuseEnv) :=
  World.ran _ (reuseLabels sampleRequest dearerRequest) reuse_isSome

/-- The sample request has one reading, and its key used again for one cent
more is refused. -/
theorem fingerprint_tells_apart_dearer :
    OneReading sampleRequest ∧ order dearerRequest ≠ order sampleRequest ∧
      (reuse.2.result 1).bind failure = some keyReused ∧
      Guarded reuseEnv none none reuse.1 reuse.2 sampleRequest 0 := by
  have hone : OneReading sampleRequest := oneReading_of_notMem (by decide +kernel)
    (by decide +kernel) (by decide +kernel) (by decide +kernel) (by decide +kernel)
  refine ⟨hone, by decide +kernel, by decide +kernel, ?_⟩
  exact (fingerprint_tells_apart (E := reuseEnv)
    (tableSum_injective reuseTable_length (by decide +kernel))).2 none none _ _
    (by decide +kernel) (World.run_ran _ _ _) sampleRequest hone 0

set_option maxRecDepth 20000 in
theorem collision_isSome : ((World.init (State.initial reuseEnv none none)).exec
    (reuseLabels nulRequest shiftedRequest)).isSome := by
  decide +kernel

def collision : Trace (switch reuseEnv) × World (switch reuseEnv) :=
  World.ran _ (reuseLabels nulRequest shiftedRequest) collision_isSome

/-- Two accepted requests with the same key and different payloads have the
same fingerprint, and the second one is answered with a replay of the first. -/
theorem fingerprint_collides :
    Accepted nulRequest ∧ Accepted shiftedRequest ∧ SameKey shiftedRequest nulRequest ∧
      order shiftedRequest ≠ order nulRequest ∧
      (∀ H, shiftedRequest.fingerprint H = nulRequest.fingerprint H) ∧
      (collision.2.result 0).bind replayFlag = some false ∧
      (collision.2.result 1).bind replayFlag = some true := by
  refine ⟨by decide +kernel, by decide +kernel, by decide +kernel, by decide +kernel, ?_,
    by decide +kernel⟩
  have hbytes : preimage shiftedRequest = preimage nulRequest := by decide +kernel
  intro H
  exact congrArg (fun s => hexEncode (H.sum256 s)) hbytes

end PixRail.Idempotency
