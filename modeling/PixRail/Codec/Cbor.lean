import PixRail.Codec.Events

/-!
# CBOR

`CBORCodec` and `ParticipantProfileCBORCodec`: a head with a major type and a
number in one of five sizes, texts as a head and their bytes, and arrays as a
head and their elements.  What a codec writes, it reads back
(`cbor_roundTrip`).
-/

namespace PixRail.Codec

open Go Wire Wire.Reader

/-! ## Writers -/

/-- The bytes that `appendCBORMajor` appends. -/
def appendCBORMajor (major : UInt8) (value : UInt64) : List UInt8 :=
  let head := major <<< 5
  if value < 24 then [head ||| value.toUInt8]
  else if value ≤ 0xff then [head ||| 24, value.toUInt8]
  else if value ≤ 0xffff then (head ||| 25) :: beBytes 2 value.toNat
  else if value ≤ 0xffffffff then (head ||| 26) :: beBytes 4 value.toNat
  else (head ||| 27) :: beBytes 8 value.toNat

/-- `appendCBORArray`. -/
def appendCBORArray (length : Nat) : List UInt8 := appendCBORMajor 4 (.ofNat length)

/-- `appendCBORText`. -/
def appendCBORText (value : GoString) : List UInt8 :=
  appendCBORMajor 3 (.ofNat value.length) ++ value

/-- `appendCBORUint`. -/
def appendCBORUint (value : UInt64) : List UInt8 := appendCBORMajor 0 value

/-! ## `cborReader` -/

namespace CborReader

/-- `readHead` after the first byte: the number in the size that the
additional information names. -/
def readArgument (major additional : UInt8) : Reader CodecErr (UInt8 × UInt64) :=
  if additional = 24 then do
    need .unexpectedEOF 1
    let b ← next
    return (major, b.toUInt64)
  else if additional = 25 then do
    need .unexpectedEOF 2
    let bs ← slice 2
    return (major, .ofNat (beNat bs))
  else if additional = 26 then do
    need .unexpectedEOF 4
    let bs ← slice 4
    return (major, .ofNat (beNat bs))
  else if additional = 27 then do
    need .unexpectedEOF 8
    let bs ← slice 8
    return (major, .ofNat (beNat bs))
  else if additional < 24 then return (major, additional.toUInt64)
  else fail (.malformed (go "unsupported cbor additional info " ++ itoa additional.toNat))

/-- `readHead`: the major type and the number. -/
def readHead : Reader CodecErr (UInt8 × UInt64) := do
  need .unexpectedEOF 1
  let head ← next
  readArgument (head >>> 5) (head &&& 0x1f)

/-- A head of the major type `expected`, or an error that names what was
expected. -/
def expectMajor (expected : UInt8) (what : GoString) : Reader CodecErr UInt64 := do
  let (major, value) ← readHead
  if major ≠ expected then
    fail (.malformed (go "expected cbor " ++ what ++ go ", got major " ++ itoa major.toNat))
  else return value

/-- `readArrayLen`.  The result is an `int`. -/
def readArrayLen : Reader CodecErr Int := do
  let value ← expectMajor 4 (go "array")
  return value.toInt64.toInt

/-- `readText`. -/
def readText : Reader CodecErr GoString := do
  let value ← expectMajor 3 (go "text")
  need .unexpectedEOF value.toNat
  slice value.toNat

/-- `readUint`. -/
def readUint : Reader CodecErr UInt64 := expectMajor 0 (go "uint")

/-- `readTextArray`. -/
def readTextArray : Reader CodecErr (List GoString) := do
  let length ← readArrayLen
  makeStrings length
  times readText length.toNat

end CborReader

/-! ## Codecs -/

namespace CBORCodec

open CborReader

/-- `CBORCodec.Marshal`. -/
def marshal (event : PaymentEvent) : List UInt8 :=
  appendCBORArray paymentEventFieldCount ++ appendCBORText event.eventID ++
    appendCBORText event.eventType ++ appendCBORText event.tenantID ++
    appendCBORText event.accountID ++ appendCBORText event.transferID ++
    appendCBORText event.correlationID ++ appendCBORUint event.occurredAtUnixNano.toUInt64 ++
    appendCBORUint event.amountCents.toUInt64 ++ appendCBORText event.currency ++
    appendCBORText event.receiverKeyType ++ appendCBORText event.decisionReason ++
    appendCBORText event.spiMessageID ++ appendCBORText event.endToEndID ++
    appendCBORUint event.fraudScore.toUInt64 ++ appendCBORArray event.fraudRules.length ++
    event.fraudRules.flatMap appendCBORText

/-- The fields of an event, in the order of `CBORCodec.Unmarshal`. -/
def readEvent : Reader CodecErr PaymentEvent := do
  let count ← readArrayLen
  if count ≠ paymentEventFieldCount then
    fail (.malformed (go "cbor field count " ++ itoa count))
  else
    let eventID ← readText
    let eventType ← readText
    let tenantID ← readText
    let accountID ← readText
    let transferID ← readText
    let correlationID ← readText
    let occurredAt ← readUint
    let amount ← readUint
    let currency ← readText
    let receiverKeyType ← readText
    let decisionReason ← readText
    let spiMessageID ← readText
    let endToEndID ← readText
    let score ← readUint
    let fraudRules ← readTextArray
    return {
      eventID, eventType, tenantID, accountID, transferID, correlationID
      occurredAtUnixNano := occurredAt.toInt64
      amountCents := amount.toInt64
      currency, receiverKeyType, decisionReason, spiMessageID, endToEndID
      fraudScore := score.toInt64
      fraudRules }

/-- `CBORCodec.Unmarshal`. -/
def unmarshal (raw : List UInt8) : Except (Fault CodecErr) PaymentEvent :=
  finish (go "cbor trailing bytes ") readEvent raw

end CBORCodec

namespace ParticipantProfileCBORCodec

open CborReader

/-- `ParticipantProfileCBORCodec.Marshal`. -/
def marshal (profile : ParticipantProfileCache) : Except CodecErr (List UInt8) :=
  match validateParticipantProfileCache profile with
  | .error err => .error err
  | .ok () =>
    .ok (appendCBORArray participantProfileFieldCount ++ appendCBORText profile.receiverID ++
      appendCBORText profile.bankISPB ++ appendCBORText profile.name ++
      appendCBORUint profile.riskSignal.toUInt64 ++
      appendCBORUint profile.resolvedAtUnixNano.toUInt64 ++
      appendCBORUint profile.expiresAtUnixNano.toUInt64)

/-- The fields of a profile, in the order of
`ParticipantProfileCBORCodec.Unmarshal`. -/
def readProfile : Reader CodecErr ParticipantProfileCache := do
  let count ← readArrayLen
  if count ≠ participantProfileFieldCount then
    fail (.malformed (go "participant profile cbor field count " ++ itoa count))
  else
    let receiverID ← readText
    let bankISPB ← readText
    let name ← readText
    let risk ← readUint
    let resolvedAt ← readUint
    let expiresAt ← readUint
    return {
      receiverID, bankISPB, name
      riskSignal := risk.toInt64
      resolvedAtUnixNano := resolvedAt.toInt64
      expiresAtUnixNano := expiresAt.toInt64 }

/-- `ParticipantProfileCBORCodec.Unmarshal`. -/
def unmarshal (raw : List UInt8) : Except (Fault CodecErr) ParticipantProfileCache :=
  finish (go "participant profile cbor trailing bytes ") readProfile raw

end ParticipantProfileCBORCodec

/-! ## What is written is read back -/

open CborReader

/-- A head byte has the major type in its first three bits. -/
theorem head_parts {major a : UInt8} (hm : major < 8) (ha : a < 32) :
    (major <<< 5 ||| a) >>> 5 = major ∧ (major <<< 5 ||| a) &&& 0x1f = a := by
  have hall : ∀ m < 8, ∀ n < 32,
      (UInt8.ofNat m <<< 5 ||| UInt8.ofNat n) >>> 5 = UInt8.ofNat m ∧
        (UInt8.ofNat m <<< 5 ||| UInt8.ofNat n) &&& 0x1f = UInt8.ofNat n := by
    decide +kernel
  have h := hall major.toNat hm a.toNat ha
  rwa [UInt8.ofNat_toNat, UInt8.ofNat_toNat] at h

theorem reads_head_byte {major a : UInt8} (hm : major < 8) (ha : a < 32) {bs : List UInt8}
    {r : UInt8 × UInt64} (h : Reads (readArgument major a) bs r) :
    Reads readHead ((major <<< 5 ||| a) :: bs) r := by
  obtain ⟨hmajor, hadd⟩ := head_parts hm ha
  refine Reads.need (by simp) (Reads.bind (reads_next _) ?_)
  rwa [hmajor, hadd]

/-- A number in `k` bytes. -/
theorem reads_number {ε : Type} (major : UInt8) {k : Nat} {value : UInt64} (e : ε)
    (hk : value.toNat < 256 ^ k) :
    Reads (do need e k; let bs ← slice k; return (major, UInt64.ofNat (beNat bs)))
      (beBytes k value.toNat) (major, value) := by
  have hslice := reads_slice (ε := ε) (beBytes k value.toNat)
  rw [beBytes_length] at hslice
  have hvalue : UInt64.ofNat (beNat (beBytes k value.toNat)) = value := by
    rw [beNat_beBytes, Nat.mod_eq_of_lt hk, UInt64.ofNat_toNat]
  exact Reads.need (by simp) (hslice.last (by rw [hvalue]))

theorem reads_head {major : UInt8} (hm : major < 8) (value : UInt64) :
    Reads readHead (appendCBORMajor major value) (major, value) := by
  have hlt := value.toNat_lt
  unfold appendCBORMajor
  dsimp only
  by_cases h24 : value < 24
  · have hv : value.toNat < 24 := h24
    have hbyte : value.toUInt8.toNat = value.toNat := by
      rw [UInt64.toNat_toUInt8]
      omega
    have hsmall : value.toUInt8 < 24 := by
      show value.toUInt8.toNat < 24
      omega
    rw [if_pos h24]
    refine reads_head_byte hm (UInt8.lt_trans hsmall (by decide)) ?_
    have hne : ∀ n : UInt8, 24 ≤ n → value.toUInt8 ≠ n := by
      rintro n hn rfl
      exact absurd hsmall (UInt8.not_lt.mpr hn)
    have hback : value.toUInt8.toUInt64 = value := by
      refine UInt64.toNat_inj.mp ?_
      rw [UInt8.toNat_toUInt64, hbyte]
    unfold readArgument
    rw [if_neg (hne 24 (by decide)), if_neg (hne 25 (by decide)), if_neg (hne 26 (by decide)),
      if_neg (hne 27 (by decide)), if_pos hsmall, hback]
    exact reads_pure _
  · rw [if_neg h24]
    by_cases h8 : value ≤ 0xff
    · have hv : value.toNat ≤ 255 := h8
      have hback : value.toUInt8.toUInt64 = value := by
        refine UInt64.toNat_inj.mp ?_
        rw [UInt8.toNat_toUInt64, UInt64.toNat_toUInt8]
        omega
      rw [if_pos h8]
      refine reads_head_byte hm (by decide) ?_
      exact Reads.need (by simp) ((reads_next _).last (by rw [hback]))
    · rw [if_neg h8]
      by_cases h16 : value ≤ 0xffff
      · have hv : value.toNat ≤ 65535 := h16
        rw [if_pos h16]
        exact reads_head_byte hm (by decide) (reads_number major _ (by omega))
      · rw [if_neg h16]
        by_cases h32 : value ≤ 0xffffffff
        · have hv : value.toNat ≤ 4294967295 := h32
          rw [if_pos h32]
          exact reads_head_byte hm (by decide) (reads_number major _ (by omega))
        · rw [if_neg h32]
          exact reads_head_byte hm (by decide) (reads_number major _ (by omega))

theorem reads_major {major : UInt8} (hm : major < 8) (what : GoString) (value : UInt64) :
    Reads (expectMajor major what) (appendCBORMajor major value) value := by
  refine (reads_head hm value).check ?_
  dsimp only
  rw [if_neg (not_not.mpr rfl)]
  exact reads_pure value

theorem reads_uint (value : UInt64) : Reads readUint (appendCBORUint value) value :=
  reads_major (by decide) _ value

theorem reads_text {s : GoString} (hs : s.length ≤ maxInt) : Reads readText (appendCBORText s) s := by
  refine (reads_major (by decide) _ _).bind ?_
  rw [toNat_length hs]
  exact Reads.need le_rfl (reads_slice s)

theorem reads_arrayLen {n : Nat} (h : n ≤ maxInt) :
    Reads readArrayLen (appendCBORArray n) n := by
  have hint : (UInt64.ofNat n).toInt64.toInt = n := by
    rw [UInt64.toInt64_ofNat']
    exact Int64.toInt_ofNat_of_lt (by unfold maxInt at h; omega)
  exact (reads_major (by decide) _ _).last hint

theorem reads_textArray {l : List GoString} (hl : l.length ≤ maxInt)
    (htexts : ∀ s ∈ l, s.length ≤ maxInt) :
    Reads readTextArray (appendCBORArray l.length ++ l.flatMap appendCBORText) l := by
  refine (reads_arrayLen hl).bind ?_
  rw [makeStrings_length]
  exact reads_times fun s hs => reads_text (htexts s hs)

theorem cbor_reads_event {event : PaymentEvent} (h : event.Sized) :
    Reads CBORCodec.readEvent (CBORCodec.marshal event) event := by
  have htext : ∀ s ∈ event.texts, Reads readText (appendCBORText s) s :=
    fun s hs => reads_text (h.texts s hs)
  simp only [PaymentEvent.texts, List.forall_mem_cons] at htext
  obtain ⟨h₁, h₂, h₃, h₄, h₅, h₆, h₇, h₈, h₉, h₁₀, h₁₁, -⟩ := htext
  unfold CBORCodec.marshal
  simp only [List.append_assoc]
  refine (reads_arrayLen (by decide)).bind ?_
  rw [if_neg (not_not.mpr rfl)]
  refine h₁.bind (h₂.bind (h₃.bind (h₄.bind (h₅.bind (h₆.bind ?_)))))
  refine (reads_uint _).bind ((reads_uint _).bind ?_)
  refine h₇.bind (h₈.bind (h₉.bind (h₁₀.bind (h₁₁.bind ?_))))
  refine (reads_uint _).bind ?_
  exact (reads_textArray h.rules h.ruleTexts).last (by simp only [Int64.toInt64_toUInt64])

theorem cbor_reads_profile {profile : ParticipantProfileCache} (h : profile.Sized) :
    Reads ParticipantProfileCBORCodec.readProfile
      (appendCBORArray participantProfileFieldCount ++ appendCBORText profile.receiverID ++
        appendCBORText profile.bankISPB ++ appendCBORText profile.name ++
        appendCBORUint profile.riskSignal.toUInt64 ++
        appendCBORUint profile.resolvedAtUnixNano.toUInt64 ++
        appendCBORUint profile.expiresAtUnixNano.toUInt64) profile := by
  have htext : ∀ s ∈ profile.texts, Reads readText (appendCBORText s) s :=
    fun s hs => reads_text (h s hs)
  simp only [ParticipantProfileCache.texts, List.forall_mem_cons] at htext
  obtain ⟨h₁, h₂, h₃, -⟩ := htext
  simp only [List.append_assoc]
  refine (reads_arrayLen (by decide)).bind ?_
  rw [if_neg (not_not.mpr rfl)]
  refine h₁.bind (h₂.bind (h₃.bind ((reads_uint _).bind ((reads_uint _).bind ?_))))
  exact (reads_uint _).last (by simp only [Int64.toInt64_toUInt64])

/-- Every event, and every profile that passes the validation, is what
`Unmarshal` makes of the output of `Marshal`. -/
theorem cbor_roundTrip :
    (∀ event : PaymentEvent, event.Sized →
      CBORCodec.unmarshal (CBORCodec.marshal event) = .ok event) ∧
    ∀ profile : ParticipantProfileCache, profile.Sized →
      validateParticipantProfileCache profile = .ok () →
      ∃ raw, ParticipantProfileCBORCodec.marshal profile = .ok raw ∧
        ParticipantProfileCBORCodec.unmarshal raw = .ok profile := by
  constructor
  · intro event hsized
    exact finish_reads (cbor_reads_event hsized)
  · intro profile hsized hvalid
    refine ⟨_, ?_, finish_reads (cbor_reads_profile hsized)⟩
    unfold ParticipantProfileCBORCodec.marshal
    rw [hvalid]

/-- A blocked payment with a negative amount, and the sample profile. -/
theorem cbor_roundTrip_samples :
    CBORCodec.unmarshal (CBORCodec.marshal { samplePixTransferBlocked with amountCents := -1 }) =
        .ok { samplePixTransferBlocked with amountCents := -1 } ∧
      ∃ raw, ParticipantProfileCBORCodec.marshal sampleParticipantProfileCache = .ok raw ∧
        ParticipantProfileCBORCodec.unmarshal raw = .ok sampleParticipantProfileCache :=
  ⟨cbor_roundTrip.1 _ ⟨by decide +kernel, by decide +kernel, by decide +kernel⟩,
    cbor_roundTrip.2 _ (by decide +kernel) (by decide +kernel)⟩

end PixRail.Codec
