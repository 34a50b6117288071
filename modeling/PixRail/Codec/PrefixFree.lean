import PixRail.Codec.Cbor
import PixRail.Codec.MsgPack
import PixRail.Wire.Delimited

/-!
# The array formats are prefix-free

CBOR and MessagePack announce how long each part is, and `Unmarshal` refuses
bytes after the last one.  So an input that is accepted is not accepted when
it is cut short, nor with bytes after it, also if no `Marshal` wrote it
(`arrayCodecs_prefixFree`).
-/

namespace PixRail.Codec

open Go Wire Wire.Reader

/-- What a decoder accepts, it rejects with an error when it is cut short and
when bytes follow it. -/
def PrefixFree {α : Type} (unmarshal : List UInt8 → Except (Fault CodecErr) α) : Prop :=
  ∀ raw a, unmarshal raw = .ok a →
    (∀ pre x, raw = pre ++ x → x ≠ [] → ∃ err, unmarshal pre = .error (.error err)) ∧
      ∀ x, x ≠ [] → ∃ err, unmarshal (raw ++ x) = .error (.error err)

theorem finish_prefixFree {α : Type} {trailing : GoString} {p : Reader CodecErr α}
    (hp : Delimited p) : PrefixFree (finish trailing p) := by
  intro raw a ha
  obtain ⟨hreads, hcut⟩ := hp.spans (finish_eq_ok ha)
  constructor
  · intro pre x hraw hx
    obtain ⟨e, he⟩ := hcut pre x hraw hx
    exact ⟨e, finish_error he⟩
  · intro x hx
    refine ⟨.malformed (trailing ++ itoa x.length), ?_⟩
    unfold finish
    rw [hreads x]
    exact if_pos fun hlen => hx (List.length_eq_zero_iff.mp hlen)

theorem delimited_makeStrings (length : Int) : Delimited (makeStrings length) := by
  unfold makeStrings
  split
  · exact delimited_crash
  · exact delimited_pure ()

/-! ## CBOR -/

section cbor

open CborReader

theorem delimited_argument (major additional : UInt8) :
    Delimited (readArgument major additional) := by
  have hnumber : ∀ k, Delimited (do
      need CodecErr.unexpectedEOF k
      let bs ← slice k
      return (major, UInt64.ofNat (beNat bs))) :=
    fun _ => Delimited.take fun _ => delimited_pure _
  unfold readArgument
  split_ifs
  · exact Delimited.byte fun _ => delimited_pure _
  · exact hnumber 2
  · exact hnumber 4
  · exact hnumber 8
  · exact delimited_pure _
  · exact delimited_fail _

theorem delimited_major (expected : UInt8) (what : GoString) :
    Delimited (expectMajor expected what) := by
  have hhead : Delimited readHead := Delimited.byte fun _ => delimited_argument _ _
  refine hhead.bind fun r => ?_
  dsimp only
  split
  · exact delimited_fail _
  · exact delimited_pure _

theorem delimited_text : Delimited readText :=
  (delimited_major _ _).bind fun _ => delimited_take _ _

theorem delimited_cborArrayLen : Delimited readArrayLen :=
  (delimited_major _ _).bind fun _ => delimited_pure _

theorem delimited_uint : Delimited readUint :=
  delimited_major _ _

theorem delimited_textArray : Delimited readTextArray :=
  delimited_cborArrayLen.bind fun length =>
    (delimited_makeStrings length).bind fun _ => delimited_times delimited_text _

theorem cbor_delimited_event : Delimited CBORCodec.readEvent := by
  have ht := delimited_text
  have hu := delimited_uint
  refine delimited_cborArrayLen.bind fun count => ?_
  split
  · exact delimited_fail _
  · refine ht.bind fun _ => ht.bind fun _ => ht.bind fun _ => ht.bind fun _ => ?_
    refine ht.bind fun _ => ht.bind fun _ => hu.bind fun _ => hu.bind fun _ => ?_
    refine ht.bind fun _ => ht.bind fun _ => ht.bind fun _ => ht.bind fun _ => ?_
    exact ht.bind fun _ => hu.bind fun _ => delimited_textArray.bind fun _ => delimited_pure _

theorem cbor_delimited_profile : Delimited ParticipantProfileCBORCodec.readProfile := by
  have ht := delimited_text
  have hu := delimited_uint
  refine delimited_cborArrayLen.bind fun count => ?_
  split
  · exact delimited_fail _
  · refine ht.bind fun _ => ht.bind fun _ => ht.bind fun _ => ?_
    exact hu.bind fun _ => hu.bind fun _ => hu.bind fun _ => delimited_pure _

end cbor

/-! ## MessagePack -/

section msgPack

open MsgPackReader

theorem delimited_len16 : Delimited readLen16 :=
  Delimited.take fun _ => delimited_pure _

theorem delimited_msgPackArrayLen : Delimited readArrayLen := by
  refine Delimited.byte fun head => ?_
  split_ifs
  · exact delimited_pure _
  · exact delimited_len16
  · exact delimited_fail _

theorem delimited_stringLen (head : UInt8) : Delimited (readStringLen head) := by
  unfold readStringLen
  split_ifs
  · exact delimited_pure _
  · exact delimited_len16
  · exact delimited_fail _

theorem delimited_string : Delimited readString :=
  Delimited.byte fun head => (delimited_stringLen head).bind fun _ => delimited_take _ _

theorem delimited_int64 : Delimited readInt64 := by
  refine Delimited.byte fun head => ?_
  split_ifs
  · exact delimited_pure _
  · exact delimited_fail _
  · exact Delimited.take fun _ => delimited_pure _

theorem delimited_stringArray : Delimited readStringArray :=
  delimited_msgPackArrayLen.bind fun length =>
    (delimited_makeStrings length).bind fun _ => delimited_times delimited_string _

theorem msgPack_delimited_event : Delimited MsgPackCodec.readEvent := by
  have hs := delimited_string
  have hi := delimited_int64
  refine delimited_msgPackArrayLen.bind fun count => ?_
  split
  · exact delimited_fail _
  · refine hs.bind fun _ => hs.bind fun _ => hs.bind fun _ => hs.bind fun _ => ?_
    refine hs.bind fun _ => hs.bind fun _ => hi.bind fun _ => hi.bind fun _ => ?_
    refine hs.bind fun _ => hs.bind fun _ => hs.bind fun _ => hs.bind fun _ => ?_
    exact hs.bind fun _ => hi.bind fun _ => delimited_stringArray.bind fun _ => delimited_pure _

theorem msgPack_delimited_profile : Delimited ParticipantProfileMsgPackCodec.readProfile := by
  have hs := delimited_string
  have hi := delimited_int64
  refine delimited_msgPackArrayLen.bind fun count => ?_
  split
  · exact delimited_fail _
  · refine hs.bind fun _ => hs.bind fun _ => hs.bind fun _ => ?_
    exact hi.bind fun _ => hi.bind fun _ => hi.bind fun _ => delimited_pure _

end msgPack

/-- No input that an array format accepts is a strict prefix of another. -/
theorem arrayCodecs_prefixFree :
    PrefixFree CBORCodec.unmarshal ∧ PrefixFree MsgPackCodec.unmarshal ∧
      PrefixFree ParticipantProfileCBORCodec.unmarshal ∧
      PrefixFree ParticipantProfileMsgPackCodec.unmarshal :=
  ⟨finish_prefixFree cbor_delimited_event, finish_prefixFree msgPack_delimited_event,
    finish_prefixFree cbor_delimited_profile, finish_prefixFree msgPack_delimited_profile⟩

end PixRail.Codec
