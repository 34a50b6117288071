import PixRail.Codec.Safety

/-!
# Decoded profiles

`Marshal` validates a profile before it writes it, `Unmarshal` does not
validate what it has read.  So bytes that no `Marshal` wrote can decode to a
profile with a negative risk or without a receiver (`unmarshal_invalid`).  A
decoded profile is valid exactly when the codec can write it itself, and what
the codec wrote decodes to a valid profile (`decoded_valid_iff`).
-/

namespace PixRail.Codec

open Go Wire Wire.Reader

/-- The codec writes the profile and reads it back. -/
def Storable (marshal : ParticipantProfileCache → Except CodecErr (List UInt8))
    (unmarshal : List UInt8 → Except (Fault CodecErr) ParticipantProfileCache)
    (profile : ParticipantProfileCache) : Prop :=
  ∃ raw, marshal profile = .ok raw ∧ unmarshal raw = .ok profile

theorem within_of_weight {profile : ParticipantProfileCache} {n : Nat}
    (h : profile.weight ≤ n) : profile.Within n := by
  simp only [ParticipantProfileCache.weight, ParticipantProfileCache.texts, List.map_cons,
    List.map_nil, List.sum_cons, List.sum_nil] at h
  simp only [ParticipantProfileCache.Within, ParticipantProfileCache.texts, List.forall_mem_cons]
  exact ⟨by omega, by omega, by omega, by simp⟩

theorem storable_iff {marshal : ParticipantProfileCache → Except CodecErr (List UInt8)}
    {unmarshal : List UInt8 → Except (Fault CodecErr) ParticipantProfileCache}
    {profile : ParticipantProfileCache}
    (hmarshal : (∃ raw, marshal profile = .ok raw) ↔ validateParticipantProfileCache profile = .ok ())
    (hback : ∀ raw, marshal profile = .ok raw → unmarshal raw = .ok profile) :
    validateParticipantProfileCache profile = .ok () ↔ Storable marshal unmarshal profile := by
  rw [← hmarshal]
  exact exists_congr fun raw => (and_iff_left_of_imp (hback raw)).symm

/-! ## MessagePack -/

theorem msgPack_marshal_iff {profile : ParticipantProfileCache} :
    (∃ raw, ParticipantProfileMsgPackCodec.marshal profile = .ok raw) ↔
      validateParticipantProfileCache profile = .ok () := by
  unfold ParticipantProfileMsgPackCodec.marshal
  cases validateParticipantProfileCache profile <;> simp

theorem msgPack_unmarshal_marshal {profile : ParticipantProfileCache} {raw : List UInt8}
    (h : profile.Within maxLen16) (hraw : ParticipantProfileMsgPackCodec.marshal profile = .ok raw) :
    ParticipantProfileMsgPackCodec.unmarshal raw = .ok profile := by
  rw [ParticipantProfileMsgPackCodec.marshal_eq_ok hraw]
  exact finish_reads (msgPack_reads_profile h)

/-! ## CBOR -/

section cbor

open CborReader

theorem cbor_marshal_iff {profile : ParticipantProfileCache} :
    (∃ raw, ParticipantProfileCBORCodec.marshal profile = .ok raw) ↔
      validateParticipantProfileCache profile = .ok () := by
  unfold ParticipantProfileCBORCodec.marshal
  cases validateParticipantProfileCache profile <;> simp

theorem cbor_unmarshal_marshal {profile : ParticipantProfileCache} {raw : List UInt8}
    (h : profile.Sized) (hraw : ParticipantProfileCBORCodec.marshal profile = .ok raw) :
    ParticipantProfileCBORCodec.unmarshal raw = .ok profile := by
  unfold ParticipantProfileCBORCodec.marshal at hraw
  split at hraw
  · exact nomatch hraw
  · obtain rfl := Except.ok.inj hraw
    exact finish_reads (cbor_reads_profile h)

theorem cbor_pays_profile :
    Pays 0 ParticipantProfileCBORCodec.readProfile ParticipantProfileCache.weight := by
  have htext := cbor_pays_text
  have huint : Pays 0 readUint fun _ => 0 := cbor_pays_major _ _
  refine cbor_pays_arrayLen.bind fun count => ?_
  split
  · exact pays_fail _
  · refine htext.bind fun _ => htext.bind fun _ => htext.bind fun _ => ?_
    refine huint.bind fun _ => huint.bind fun _ => huint.bind fun _ => pays_pure ?_
    simp only [ParticipantProfileCache.weight, ParticipantProfileCache.texts, List.map_cons,
      List.map_nil, List.sum_cons, List.sum_nil]
    omega

/-- A decoded text is no longer than the input. -/
theorem cbor_profile_sized {profile : ParticipantProfileCache} {raw : List UInt8}
    (hraw : raw.length ≤ maxInt) (h : ParticipantProfileCBORCodec.unmarshal raw = .ok profile) :
    profile.Sized :=
  within_of_weight (((finish_within cbor_pays_profile raw).2 profile h).trans hraw)

end cbor

/-- A profile that an `Unmarshal` returns is valid exactly when the codec can
write it and read it back.  What the codec wrote decodes to a valid profile,
if its strings are not too long for the format. -/
theorem decoded_valid_iff (raw : List UInt8) (hraw : raw.length ≤ maxInt) :
    (∀ profile, ParticipantProfileMsgPackCodec.unmarshal raw = .ok profile →
      (validateParticipantProfileCache profile = .ok () ↔
        Storable ParticipantProfileMsgPackCodec.marshal ParticipantProfileMsgPackCodec.unmarshal
          profile)) ∧
    (∀ profile, ParticipantProfileCBORCodec.unmarshal raw = .ok profile →
      (validateParticipantProfileCache profile = .ok () ↔
        Storable ParticipantProfileCBORCodec.marshal ParticipantProfileCBORCodec.unmarshal
          profile)) ∧
    (∀ profile, ParticipantProfileMsgPackCodec.marshal profile = .ok raw →
      profile.Within maxLen16 → ParticipantProfileMsgPackCodec.unmarshal raw = .ok profile ∧
        validateParticipantProfileCache profile = .ok ()) ∧
    ∀ profile, ParticipantProfileCBORCodec.marshal profile = .ok raw → profile.Sized →
      ParticipantProfileCBORCodec.unmarshal raw = .ok profile ∧
        validateParticipantProfileCache profile = .ok () := by
  refine ⟨fun profile h => ?_, fun profile h => ?_, fun profile h hlen => ?_,
    fun profile h hlen => ?_⟩
  · have hlen := yields_profile _ _ _ (finish_eq_ok h)
    exact storable_iff msgPack_marshal_iff fun _ => msgPack_unmarshal_marshal hlen
  · have hlen := cbor_profile_sized hraw h
    exact storable_iff cbor_marshal_iff fun _ => cbor_unmarshal_marshal hlen
  · exact ⟨msgPack_unmarshal_marshal hlen h, msgPack_marshal_iff.mp ⟨raw, h⟩⟩
  · exact ⟨cbor_unmarshal_marshal hlen h, cbor_marshal_iff.mp ⟨raw, h⟩⟩

/-- A profile that is valid for one nanosecond. -/
def briefProfile : ParticipantProfileCache where
  receiverID := go "r"
  bankISPB := go "1"
  name := []
  riskSignal := 3
  resolvedAtUnixNano := 5
  expiresAtUnixNano := 6

/-- Read off a short array head, which no `Marshal` of MessagePack writes, and
off what the CBOR codec writes. -/
theorem decoded_valid_iff_brief :
    Storable ParticipantProfileMsgPackCodec.marshal ParticipantProfileMsgPackCodec.unmarshal
        briefProfile ∧
      Storable ParticipantProfileCBORCodec.marshal ParticipantProfileCBORCodec.unmarshal
        briefProfile :=
  have hvalid : validateParticipantProfileCache briefProfile = .ok () := by decide +kernel
  have hmsgPack := decoded_valid_iff [0x96, 0xa1, 0x72, 0xa1, 0x31, 0xa0, 0x03, 0x05, 0x06]
    (by decide)
  have hcbor := decoded_valid_iff [0x86, 0x61, 0x72, 0x61, 0x31, 0x60, 0x03, 0x05, 0x06]
    (by decide)
  ⟨(hmsgPack.1 briefProfile (by decide +kernel)).mp hvalid,
    (hcbor.2.1 briefProfile (by decide +kernel)).mp hvalid⟩

/-- A profile with a risk of -1 that expires when it is resolved. -/
def expiredProfile : ParticipantProfileCache where
  receiverID := go "r"
  bankISPB := go "1"
  name := []
  riskSignal := -1
  resolvedAtUnixNano := 5
  expiresAtUnixNano := 5

/-- Both decoders return it. -/
theorem unmarshal_invalid :
    ParticipantProfileMsgPackCodec.unmarshal [0x96, 0xa1, 0x72, 0xa1, 0x31, 0xa0, 0xd3, 0xff, 0xff,
        0xff, 0xff, 0xff, 0xff, 0xff, 0xff, 0x05, 0x05] = .ok expiredProfile ∧
      ParticipantProfileCBORCodec.unmarshal [0x86, 0x61, 0x72, 0x61, 0x31, 0x60, 0x1b, 0xff, 0xff,
        0xff, 0xff, 0xff, 0xff, 0xff, 0xff, 0x05, 0x05] = .ok expiredProfile ∧
      validateParticipantProfileCache expiredProfile =
        .error (.invalidProfile (go "risk_signal must be non-negative")) := by
  decide +kernel

end PixRail.Codec
