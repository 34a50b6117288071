import PixRail.Codec.Events

/-!
# MessagePack

`MsgPackCodec` and `ParticipantProfileMsgPackCodec`.  A string has its length
in five bits or in sixteen, an array in four bits or in sixteen, an integer
is one byte or nine.  `Marshal` keeps the last sixteen bits of a length that
is larger, and reports no error.  So a value is read back exactly when none
of its lengths is larger (`msgPack_roundTrip_iff`).
-/

namespace PixRail.Codec

open Go Wire Wire.Reader

/-! ## Writers -/

/-- The bytes that `appendMsgPackString` appends. -/
def appendMsgPackString (value : GoString) : List UInt8 :=
  if value.length ≤ 31 then (0xa0 ||| UInt8.ofNat value.length) :: value
  else 0xda :: beBytes 2 value.length ++ value

/-- `appendMsgPackInt64`. -/
def appendMsgPackInt64 (value : Int64) : List UInt8 :=
  if 0 ≤ value ∧ value ≤ 127 then [value.toUInt64.toUInt8]
  else 0xd3 :: beBytes 8 value.toUInt64.toNat

/-- `appendMsgPackStringArray`. -/
def appendMsgPackStringArray (values : List GoString) : List UInt8 :=
  (if values.length ≤ 15 then [0x90 ||| UInt8.ofNat values.length]
    else 0xdc :: beBytes 2 values.length) ++ values.flatMap appendMsgPackString

/-! ## `msgPackReader` -/

/-- The verb `%x` on a byte. -/
def hexByte (b : UInt8) : GoString :=
  if b < 16 then [hexDigit b.toNat] else [hexDigit (b.toNat / 16), hexDigit (b.toNat % 16)]

namespace MsgPackReader

/-- A length in two bytes. -/
def readLen16 : Reader CodecErr Nat := do
  need .unexpectedEOF 2
  let bs ← slice 2
  return beNat bs

/-- `readArrayLen`. -/
def readArrayLen : Reader CodecErr Nat := do
  need .unexpectedEOF 1
  let head ← next
  if 0x90 ≤ head ∧ head ≤ 0x9f then return (head &&& 0x0f).toNat
  else if head = 0xdc then readLen16
  else fail (.malformed (go "unsupported msgpack array prefix 0x" ++ hexByte head))

/-- The length of a string, after its first byte. -/
def readStringLen (head : UInt8) : Reader CodecErr Nat :=
  if 0xa0 ≤ head ∧ head ≤ 0xbf then return (head &&& 0x1f).toNat
  else if head = 0xda then readLen16
  else fail (.malformed (go "unsupported msgpack string prefix 0x" ++ hexByte head))

/-- `readString`. -/
def readString : Reader CodecErr GoString := do
  need .unexpectedEOF 1
  let head ← next
  let length ← readStringLen head
  need .unexpectedEOF length
  slice length

/-- `readInt64`. -/
def readInt64 : Reader CodecErr Int64 := do
  need .unexpectedEOF 1
  let head ← next
  if head ≤ 0x7f then return head.toUInt64.toInt64
  else if head ≠ 0xd3 then
    fail (.malformed (go "unsupported msgpack int prefix 0x" ++ hexByte head))
  else
    need .unexpectedEOF 8
    let bs ← slice 8
    return (UInt64.ofNat (beNat bs)).toInt64

/-- `readStringArray`. -/
def readStringArray : Reader CodecErr (List GoString) := do
  let length ← readArrayLen
  makeStrings length
  times readString length

end MsgPackReader

/-! ## Codecs -/

namespace MsgPackCodec

open MsgPackReader

/-- `MsgPackCodec.Marshal`. -/
def marshal (event : PaymentEvent) : List UInt8 :=
  [0xdc, 0x00, UInt8.ofNat paymentEventFieldCount] ++ appendMsgPackString event.eventID ++
    appendMsgPackString event.eventType ++ appendMsgPackString event.tenantID ++
    appendMsgPackString event.accountID ++ appendMsgPackString event.transferID ++
    appendMsgPackString event.correlationID ++ appendMsgPackInt64 event.occurredAtUnixNano ++
    appendMsgPackInt64 event.amountCents ++ appendMsgPackString event.currency ++
    appendMsgPackString event.receiverKeyType ++ appendMsgPackString event.decisionReason ++
    appendMsgPackString event.spiMessageID ++ appendMsgPackString event.endToEndID ++
    appendMsgPackInt64 event.fraudScore ++ appendMsgPackStringArray event.fraudRules

/-- The fields of an event, in the order of `MsgPackCodec.Unmarshal`. -/
def readEvent : Reader CodecErr PaymentEvent := do
  let count ← readArrayLen
  if count ≠ paymentEventFieldCount then
    fail (.malformed (go "msgpack field count " ++ itoa count))
  else
    let eventID ← readString
    let eventType ← readString
    let tenantID ← readString
    let accountID ← readString
    let transferID ← readString
    let correlationID ← readString
    let occurredAtUnixNano ← readInt64
    let amountCents ← readInt64
    let currency ← readString
    let receiverKeyType ← readString
    let decisionReason ← readString
    let spiMessageID ← readString
    let endToEndID ← readString
    let fraudScore ← readInt64
    let fraudRules ← readStringArray
    return {
      eventID, eventType, tenantID, accountID, transferID, correlationID, occurredAtUnixNano,
      amountCents, currency, receiverKeyType, decisionReason, spiMessageID, endToEndID, fraudScore,
      fraudRules }

/-- `MsgPackCodec.Unmarshal`. -/
def unmarshal (raw : List UInt8) : Except (Fault CodecErr) PaymentEvent :=
  finish (go "msgpack trailing bytes ") readEvent raw

end MsgPackCodec

namespace ParticipantProfileMsgPackCodec

open MsgPackReader

/-- The bytes of a profile that is valid. -/
def fields (profile : ParticipantProfileCache) : List UInt8 :=
  [0xdc, 0x00, UInt8.ofNat participantProfileFieldCount] ++
    appendMsgPackString profile.receiverID ++ appendMsgPackString profile.bankISPB ++
    appendMsgPackString profile.name ++ appendMsgPackInt64 profile.riskSignal ++
    appendMsgPackInt64 profile.resolvedAtUnixNano ++ appendMsgPackInt64 profile.expiresAtUnixNano

/-- `ParticipantProfileMsgPackCodec.Marshal`. -/
def marshal (profile : ParticipantProfileCache) : Except CodecErr (List UInt8) :=
  match validateParticipantProfileCache profile with
  | .error err => .error err
  | .ok () => .ok (fields profile)

theorem marshal_eq_ok {profile : ParticipantProfileCache} {raw : List UInt8}
    (h : marshal profile = .ok raw) : raw = fields profile := by
  unfold marshal at h
  split at h
  · exact nomatch h
  · exact (Except.ok.inj h).symm

/-- The fields of a profile, in the order of
`ParticipantProfileMsgPackCodec.Unmarshal`. -/
def readProfile : Reader CodecErr ParticipantProfileCache := do
  let count ← readArrayLen
  if count ≠ participantProfileFieldCount then
    fail (.malformed (go "participant profile msgpack field count " ++ itoa count))
  else
    let receiverID ← readString
    let bankISPB ← readString
    let name ← readString
    let riskSignal ← readInt64
    let resolvedAtUnixNano ← readInt64
    let expiresAtUnixNano ← readInt64
    return { receiverID, bankISPB, name, riskSignal, resolvedAtUnixNano, expiresAtUnixNano }

/-- `ParticipantProfileMsgPackCodec.Unmarshal`. -/
def unmarshal (raw : List UInt8) : Except (Fault CodecErr) ParticipantProfileCache :=
  finish (go "participant profile msgpack trailing bytes ") readProfile raw

end ParticipantProfileMsgPackCodec

/-! ## What is written is read back -/

open MsgPackReader

/-- The largest length that sixteen bits hold. -/
def maxLen16 : Nat := 65535

theorem reads_len16 {n : Nat} (h : n ≤ maxLen16) : Reads readLen16 (beBytes 2 n) n := by
  unfold maxLen16 at h
  have hslice := reads_slice (ε := CodecErr) (beBytes 2 n)
  rw [beBytes_length] at hslice
  refine Reads.need (by simp) (hslice.last ?_)
  rw [beNat_beBytes, Nat.mod_eq_of_lt (by omega)]

theorem short_len {n : Nat} (h : n < 32) :
    ((0xa0 : UInt8) ≤ 0xa0 ||| UInt8.ofNat n ∧ 0xa0 ||| UInt8.ofNat n ≤ (0xbf : UInt8)) ∧
      ((0xa0 ||| UInt8.ofNat n) &&& 0x1f).toNat = n := by
  have hall : ∀ n < 32,
      ((0xa0 : UInt8) ≤ 0xa0 ||| UInt8.ofNat n ∧ 0xa0 ||| UInt8.ofNat n ≤ (0xbf : UInt8)) ∧
        ((0xa0 ||| UInt8.ofNat n) &&& 0x1f).toNat = n := by
    decide +kernel
  exact hall n h

theorem short_arrayLen {n : Nat} (h : n < 16) :
    ((0x90 : UInt8) ≤ 0x90 ||| UInt8.ofNat n ∧ 0x90 ||| UInt8.ofNat n ≤ (0x9f : UInt8)) ∧
      ((0x90 ||| UInt8.ofNat n) &&& 0x0f).toNat = n := by
  have hall : ∀ n < 16,
      ((0x90 : UInt8) ≤ 0x90 ||| UInt8.ofNat n ∧ 0x90 ||| UInt8.ofNat n ≤ (0x9f : UInt8)) ∧
        ((0x90 ||| UInt8.ofNat n) &&& 0x0f).toNat = n := by
    decide +kernel
  exact hall n h

theorem reads_string {s : GoString} (h : s.length ≤ maxLen16) :
    Reads readString (appendMsgPackString s) s := by
  have hbody : Reads (do need CodecErr.unexpectedEOF s.length; slice s.length) s s :=
    Reads.need le_rfl (reads_slice s)
  unfold appendMsgPackString
  by_cases hshort : s.length ≤ 31
  · obtain ⟨hrange, hlen⟩ := short_len (n := s.length) (by omega)
    have hstr : readStringLen (0xa0 ||| UInt8.ofNat s.length) = pure s.length := by
      unfold readStringLen
      rw [if_pos hrange, hlen]
    rw [if_pos hshort]
    refine Reads.need (by simp) ((reads_next _).bind ?_)
    rw [hstr]
    exact hbody
  · rw [if_neg hshort]
    refine Reads.need (by simp) ((reads_next 0xda).bind ?_)
    exact (reads_len16 h).bind hbody

theorem reads_arrayLen16 {n : Nat} (h : n ≤ maxLen16) :
    Reads readArrayLen (0xdc :: beBytes 2 n) n :=
  Reads.need (by simp) ((reads_next 0xdc).bind (reads_len16 h))

theorem reads_stringArray {l : List GoString} (hl : l.length ≤ maxLen16)
    (htexts : ∀ s ∈ l, s.length ≤ maxLen16) :
    Reads readStringArray (appendMsgPackStringArray l) l := by
  have hlen : Reads readArrayLen (if l.length ≤ 15 then [0x90 ||| UInt8.ofNat l.length]
      else 0xdc :: beBytes 2 l.length) l.length := by
    by_cases hshort : l.length ≤ 15
    · obtain ⟨hrange, hlen⟩ := short_arrayLen (n := l.length) (by omega)
      rw [if_pos hshort]
      refine Reads.need (by simp) ((reads_next _).check ?_)
      rw [if_pos hrange, hlen]
      exact reads_pure l.length
    · rw [if_neg hshort]
      exact reads_arrayLen16 hl
  refine hlen.bind ?_
  rw [makeStrings_length]
  exact reads_times fun s hs => reads_string (htexts s hs)

theorem small_int64 {value : Int64} (h : 0 ≤ value ∧ value ≤ 127) :
    value.toUInt64.toUInt8 ≤ 0x7f ∧ value.toUInt64.toUInt8.toUInt64.toInt64 = value := by
  have hall : ∀ n < 128, (Int64.ofNat n).toUInt64.toUInt8 ≤ 0x7f ∧
      (Int64.ofNat n).toUInt64.toUInt8.toUInt64.toInt64 = Int64.ofNat n := by
    decide +kernel
  have hlo : (0 : Int) ≤ value.toInt := Int64.le_iff_toInt_le.mp h.1
  have hhi : value.toInt ≤ (127 : Int) := Int64.le_iff_toInt_le.mp h.2
  have hn := hall value.toInt.toNat (by omega)
  have hvalue : Int64.ofNat value.toInt.toNat = value := by
    rw [← Int64.toInt_inj, Int64.toInt_ofNat_of_lt (by omega)]
    omega
  rwa [hvalue] at hn

theorem reads_int64 (value : Int64) : Reads readInt64 (appendMsgPackInt64 value) value := by
  unfold appendMsgPackInt64
  by_cases hsmall : 0 ≤ value ∧ value ≤ 127
  · obtain ⟨hle, hback⟩ := small_int64 hsmall
    rw [if_pos hsmall]
    refine Reads.need (by simp) ((reads_next _).check ?_)
    rw [if_pos hle, hback]
    exact reads_pure value
  · have hslice := reads_slice (ε := CodecErr) (beBytes 8 value.toUInt64.toNat)
    have hback : (UInt64.ofNat (beNat (beBytes 8 value.toUInt64.toNat))).toInt64 = value := by
      have hlt := value.toUInt64.toNat_lt
      rw [beNat_beBytes, Nat.mod_eq_of_lt (by omega), UInt64.ofNat_toNat,
        Int64.toInt64_toUInt64]
    rw [beBytes_length] at hslice
    rw [if_neg hsmall]
    refine Reads.need (by simp) ((reads_next 0xd3).bind ?_)
    exact Reads.need (by simp) (hslice.last hback)

theorem msgPack_reads_event {event : PaymentEvent} (h : event.Within maxLen16) :
    Reads MsgPackCodec.readEvent (MsgPackCodec.marshal event) event := by
  have htext : ∀ s ∈ event.texts, Reads readString (appendMsgPackString s) s :=
    fun s hs => reads_string (h.texts s hs)
  simp only [PaymentEvent.texts, List.forall_mem_cons] at htext
  obtain ⟨h₁, h₂, h₃, h₄, h₅, h₆, h₇, h₈, h₉, h₁₀, h₁₁, -⟩ := htext
  unfold MsgPackCodec.marshal
  simp only [List.append_assoc]
  refine (reads_arrayLen16 (n := paymentEventFieldCount) (by decide)).bind ?_
  rw [if_neg (not_not.mpr rfl)]
  refine h₁.bind (h₂.bind (h₃.bind (h₄.bind (h₅.bind (h₆.bind ?_)))))
  refine (reads_int64 _).bind ((reads_int64 _).bind ?_)
  refine h₇.bind (h₈.bind (h₉.bind (h₁₀.bind (h₁₁.bind ?_))))
  exact (reads_int64 _).bind ((reads_stringArray h.rules h.ruleTexts).last rfl)

theorem msgPack_reads_profile {profile : ParticipantProfileCache} (h : profile.Within maxLen16) :
    Reads ParticipantProfileMsgPackCodec.readProfile
      (ParticipantProfileMsgPackCodec.fields profile) profile := by
  have htext : ∀ s ∈ profile.texts, Reads readString (appendMsgPackString s) s :=
    fun s hs => reads_string (h s hs)
  simp only [ParticipantProfileCache.texts, List.forall_mem_cons] at htext
  obtain ⟨h₁, h₂, h₃, -⟩ := htext
  unfold ParticipantProfileMsgPackCodec.fields
  simp only [List.append_assoc]
  refine (reads_arrayLen16 (n := participantProfileFieldCount) (by decide)).bind ?_
  rw [if_neg (not_not.mpr rfl)]
  refine h₁.bind (h₂.bind (h₃.bind ((reads_int64 _).bind ((reads_int64 _).bind ?_))))
  exact (reads_int64 _).last rfl

theorem readString_unsupported {head : UInt8} (hfix : ¬ (0xa0 ≤ head ∧ head ≤ 0xbf))
    (hstr : head ≠ 0xda) (rest : List UInt8) : readString (head :: rest) =
      .error (.error (.malformed (go "unsupported msgpack string prefix 0x" ++ hexByte head))) := by
  have hneed : need CodecErr.unexpectedEOF 1 (head :: rest) = .ok ((), head :: rest) :=
    if_neg (by simp)
  refine (bind_run_ok hneed).trans ((bind_run_ok (reads_next head rest)).trans ?_)
  refine bind_run_error ?_
  unfold readStringLen
  rw [if_neg hfix, if_neg hstr]
  rfl

/-! ## No length that is read is larger than sixteen bits -/

theorem yields_len16 : Yields readLen16 (· ≤ maxLen16) := by
  refine (yields_true _).bind fun _ _ => (yields_slice 2).bind fun bs hbs => yields_pure ?_
  have hlt := beNat_lt bs
  rw [hbs] at hlt
  unfold maxLen16
  omega

theorem toNat_and_le (b mask : UInt8) : (b &&& mask).toNat ≤ mask.toNat := by
  rw [UInt8.toNat_and]
  exact Nat.and_le_right

theorem yields_arrayLen : Yields readArrayLen (· ≤ maxLen16) := by
  refine (yields_true _).bind fun _ _ => (yields_true _).bind fun head _ => ?_
  split
  · refine yields_pure ?_
    have hle : (head &&& 0x0f).toNat ≤ 15 := toNat_and_le head 0x0f
    unfold maxLen16
    omega
  · split
    · exact yields_len16
    · exact yields_fail _

theorem yields_stringLen (head : UInt8) : Yields (readStringLen head) (· ≤ maxLen16) := by
  unfold readStringLen
  split
  · refine yields_pure ?_
    have hle : (head &&& 0x1f).toNat ≤ 31 := toNat_and_le head 0x1f
    unfold maxLen16
    omega
  · split
    · exact yields_len16
    · exact yields_fail _

theorem yields_string : Yields readString (·.length ≤ maxLen16) := by
  refine (yields_true _).bind fun _ _ => (yields_true _).bind fun head _ => ?_
  refine (yields_stringLen head).bind fun length hle => (yields_true _).bind fun _ _ => ?_
  exact (yields_slice length).mono fun bs hbs => hbs ▸ hle

theorem yields_stringArray :
    Yields readStringArray fun l => l.length ≤ maxLen16 ∧ ∀ s ∈ l, s.length ≤ maxLen16 := by
  refine yields_arrayLen.bind fun length hle => (yields_true _).bind fun _ _ => ?_
  exact (yields_times yields_string length).mono fun l hl => ⟨hl.1 ▸ hle, hl.2⟩

theorem yields_event : Yields MsgPackCodec.readEvent (·.Within maxLen16) := by
  refine (yields_true _).bind fun count _ => ?_
  split
  · exact yields_fail _
  · refine yields_string.bind fun _ h₁ => yields_string.bind fun _ h₂ => ?_
    refine yields_string.bind fun _ h₃ => yields_string.bind fun _ h₄ => ?_
    refine yields_string.bind fun _ h₅ => yields_string.bind fun _ h₆ => ?_
    refine (yields_true _).bind fun _ _ => (yields_true _).bind fun _ _ => ?_
    refine yields_string.bind fun _ h₇ => yields_string.bind fun _ h₈ => ?_
    refine yields_string.bind fun _ h₉ => yields_string.bind fun _ h₁₀ => ?_
    refine yields_string.bind fun _ h₁₁ => (yields_true _).bind fun _ _ => ?_
    refine yields_stringArray.bind fun rules hrules => yields_pure ⟨?_, hrules.2, hrules.1⟩
    simp only [PaymentEvent.texts, List.forall_mem_cons]
    exact ⟨h₁, h₂, h₃, h₄, h₅, h₆, h₇, h₈, h₉, h₁₀, h₁₁, by simp⟩

theorem yields_profile : Yields ParticipantProfileMsgPackCodec.readProfile (·.Within maxLen16) := by
  refine (yields_true _).bind fun count _ => ?_
  split
  · exact yields_fail _
  · refine yields_string.bind fun _ h₁ => yields_string.bind fun _ h₂ => ?_
    refine yields_string.bind fun _ h₃ => (yields_true _).bind fun _ _ => ?_
    refine (yields_true _).bind fun _ _ => (yields_true _).bind fun _ _ => yields_pure ?_
    simp only [ParticipantProfileCache.Within, ParticipantProfileCache.texts,
      List.forall_mem_cons]
    exact ⟨h₁, h₂, h₃, by simp⟩

/-- An event, and a profile that `Marshal` takes, is read back exactly when
none of its lengths needs more than sixteen bits. -/
theorem msgPack_roundTrip_iff (event : PaymentEvent) (profile : ParticipantProfileCache) :
    (MsgPackCodec.unmarshal (MsgPackCodec.marshal event) = .ok event ↔ event.Within maxLen16) ∧
    ∀ raw, ParticipantProfileMsgPackCodec.marshal profile = .ok raw →
      (ParticipantProfileMsgPackCodec.unmarshal raw = .ok profile ↔ profile.Within maxLen16) := by
  constructor
  · constructor
    · intro h
      exact yields_event _ _ _ (finish_eq_ok h)
    · intro h
      exact finish_reads (msgPack_reads_event h)
  · intro raw hraw
    obtain rfl := ParticipantProfileMsgPackCodec.marshal_eq_ok hraw
    constructor
    · intro h
      exact yields_profile _ _ _ (finish_eq_ok h)
    · intro h
      exact finish_reads (msgPack_reads_profile h)

/-- The samples of the tests. -/
theorem msgPack_roundTrip_iff_samples :
    MsgPackCodec.unmarshal (MsgPackCodec.marshal samplePixTransferBlocked) =
        .ok samplePixTransferBlocked ∧
      ∃ raw, ParticipantProfileMsgPackCodec.marshal sampleParticipantProfileCache = .ok raw ∧
        ParticipantProfileMsgPackCodec.unmarshal raw = .ok sampleParticipantProfileCache :=
  have h := msgPack_roundTrip_iff samplePixTransferBlocked sampleParticipantProfileCache
  ⟨h.1.mpr ⟨by decide +kernel, by decide +kernel, by decide +kernel⟩,
    _, rfl, (h.2 _ rfl).mpr (by decide +kernel)⟩

/-- An event whose identifier needs seventeen bits for its length. -/
def longEvent : PaymentEvent := { eventID := List.replicate 65536 97 }

/-- The header says that the identifier is empty, and its first byte is then
taken for the header of the event type. -/
theorem msgPack_misreads_long :
    MsgPackCodec.unmarshal (MsgPackCodec.marshal longEvent) =
      .error (.error (.malformed (go "unsupported msgpack string prefix 0x61"))) := by
  have hid : appendMsgPackString longEvent.eventID =
      0xda :: beBytes 2 0 ++ 97 :: List.replicate 65535 97 := by
    unfold appendMsgPackString
    have hlen : longEvent.eventID.length = 65536 := List.length_replicate
    rw [if_neg (by omega), hlen]
    rfl
  have hempty : Reads readString (0xda :: beBytes 2 0) [] :=
    Reads.need (by simp) ((reads_next 0xda).bind
      ((reads_len16 (Nat.zero_le _)).check (Reads.need le_rfl (reads_slice []))))
  refine finish_error ?_
  unfold MsgPackCodec.marshal
  rw [hid]
  simp only [List.append_assoc]
  refine (bind_run_ok (reads_arrayLen16 (n := paymentEventFieldCount) (by decide) _)).trans ?_
  refine (bind_run_ok (hempty _)).trans (bind_run_error ?_)
  exact readString_unsupported (by decide) (by decide) _

end PixRail.Codec
