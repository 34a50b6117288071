import Mathlib.Algebra.BigOperators.Group.List.Basic
import PixRail.Codec.Cbor
import PixRail.Codec.MsgPack
import PixRail.Codec.ProtoWire
import PixRail.Wire.Safety

/-!
# Decoding any input

What `Unmarshal` does on bytes that no `Marshal` wrote.  The MessagePack and
protobuf decoders check every length before they use it: they end with a
value or an error, and the value is no larger than the input
(`decoders_within`).

The CBOR decoder checks the length of a text, but not the length of the list
of rules: `make([]string, 0, length)` comes before any element is read, and
`length` is a 64-bit number of the input taken as an `int`.  So it is safe
exactly when the head of that list does not announce more elements than there
are bytes after it (`cbor_safe_iff`).
-/

namespace PixRail.Codec

open Go Wire Wire.Reader

/-- A call ended with a value or an error. -/
def Returns {α : Type} (r : Except (Fault CodecErr) α) : Prop :=
  (∃ a, r = .ok a) ∨ ∃ err, r = .error (.error err)

theorem returns_iff {α : Type} {r : Except (Fault CodecErr) α} :
    Returns r ↔ r ≠ .error .panic := by
  constructor
  · rintro (⟨a, rfl⟩ | ⟨err, rfl⟩) <;> nofun
  · intro h
    cases r with
    | ok a => exact .inl ⟨a, rfl⟩
    | error e =>
      cases e with
      | error err => exact .inr ⟨err, rfl⟩
      | panic => exact absurd rfl h

theorem finish_returns {α : Type} {trailing : GoString} {p : Reader CodecErr α}
    {raw : List UInt8} : Returns (finish trailing p raw) ↔ p raw ≠ .error .panic := by
  rw [returns_iff]
  unfold finish
  cases p raw with
  | error e => simp
  | ok r =>
    obtain ⟨a, rest⟩ := r
    dsimp only
    split <;> simp

/-! ## Sizes -/

/-- The length of all strings of an event, and one for each rule. -/
def PaymentEvent.weight (e : PaymentEvent) : Nat :=
  (e.texts.map List.length).sum + (e.fraudRules.map List.length).sum + e.fraudRules.length

def ParticipantProfileCache.weight (p : ParticipantProfileCache) : Nat :=
  (p.texts.map List.length).sum

theorem sum_map_length_succ (l : List GoString) :
    (l.map fun s => s.length + 1).sum = (l.map List.length).sum + l.length := by
  rw [List.sum_map_add]
  simp

/-- On every input, the decoder ends with a value or an error, and the value
weighs no more than the input. -/
def DecodesWithin {α : Type} (unmarshal : List UInt8 → Except (Fault CodecErr) α)
    (weight : α → Nat) : Prop :=
  ∀ raw, Returns (unmarshal raw) ∧ ∀ a, unmarshal raw = .ok a → weight a ≤ raw.length

theorem finish_within {α : Type} {trailing : GoString} {p : Reader CodecErr α} {weight : α → Nat}
    (hp : Pays 0 p weight) : DecodesWithin (finish trailing p) weight := by
  intro raw
  obtain ⟨hpanic, hvalue⟩ := hp raw
  refine ⟨finish_returns.mpr hpanic, fun a ha => ?_⟩
  have hle := hvalue a [] (finish_eq_ok ha)
  simpa using hle

/-! ## MessagePack -/

section msgPack

open MsgPackReader

theorem pays_len16 : Pays 0 readLen16 fun _ => 0 :=
  Pays.take fun _ => pays_pure (Nat.zero_le _)

theorem pays_arrayLen : Pays 0 readArrayLen fun _ => 0 := by
  refine Pays.byte fun head => ?_
  split
  · exact pays_pure (Nat.zero_le _)
  · split
    · exact pays_len16.mono fun _ => by omega
    · exact pays_fail _

theorem pays_stringLen (head : UInt8) : Pays 0 (readStringLen head) fun _ => 0 := by
  unfold readStringLen
  split
  · exact pays_pure le_rfl
  · split
    · exact pays_len16
    · exact pays_fail _

/-- A string pays for one more than its length: it has a head. -/
theorem pays_string : Pays 0 readString fun s => s.length + 1 :=
  Pays.byte fun head => (pays_stringLen head).bind fun _ => pays_take _ _

theorem pays_int64 : Pays 0 readInt64 fun _ => 0 := by
  refine Pays.byte fun head => ?_
  split
  · exact pays_pure (Nat.zero_le _)
  · split
    · exact pays_fail _
    · exact Pays.take fun _ => pays_pure (Nat.zero_le _)

theorem pays_stringArray :
    Pays 0 readStringArray fun l => (l.map fun s => s.length + 1).sum := by
  refine pays_arrayLen.bind fun length => ?_
  rw [makeStrings_length]
  exact pays_times pays_string length

theorem msgPack_pays_event : Pays 0 MsgPackCodec.readEvent PaymentEvent.weight := by
  refine pays_arrayLen.bind fun count => ?_
  split
  · exact pays_fail _
  · refine pays_string.bind fun eventID => pays_string.bind fun eventType => ?_
    refine pays_string.bind fun tenantID => pays_string.bind fun accountID => ?_
    refine pays_string.bind fun transferID => pays_string.bind fun correlationID => ?_
    refine pays_int64.bind fun occurredAt => pays_int64.bind fun amount => ?_
    refine pays_string.bind fun currency => pays_string.bind fun receiverKeyType => ?_
    refine pays_string.bind fun decisionReason => pays_string.bind fun spiMessageID => ?_
    refine pays_string.bind fun endToEndID => pays_int64.bind fun score => ?_
    refine pays_stringArray.bind fun fraudRules => pays_pure ?_
    rw [sum_map_length_succ]
    simp only [PaymentEvent.weight, PaymentEvent.texts, List.map_cons, List.map_nil,
      List.sum_cons, List.sum_nil]
    omega

theorem msgPack_pays_profile :
    Pays 0 ParticipantProfileMsgPackCodec.readProfile ParticipantProfileCache.weight := by
  refine pays_arrayLen.bind fun count => ?_
  split
  · exact pays_fail _
  · refine pays_string.bind fun receiverID => pays_string.bind fun bankISPB => ?_
    refine pays_string.bind fun name => pays_int64.bind fun risk => ?_
    refine pays_int64.bind fun resolvedAt => pays_int64.bind fun expiresAt => pays_pure ?_
    simp only [ParticipantProfileCache.weight, ParticipantProfileCache.texts, List.map_cons,
      List.map_nil, List.sum_cons, List.sum_nil]
    omega

end msgPack

/-! ## Protobuf -/

section protoWire

open ProtoWireCodec

/-- The count of `readProtoVarint` is in the range of the slice after it. -/
theorem readProtoVarintLoop_count (value : UInt64) (i : Nat) (raw : List UInt8) :
    (readProtoVarintLoop value i raw).2 ≤ i + raw.length := by
  fun_induction readProtoVarintLoop value i raw with
  | case1 => omega
  | case2 => omega
  | case3 => simp
  | case4 value i b raw hi value' hb ih =>
    rw [List.length_cons]
    push_cast at ih ⊢
    omega

theorem pays_varint : Pays 0 takeProtoVarint fun _ => 1 := by
  intro raw
  refine wp_bind.mpr (wp_input.mpr ?_)
  dsimp only
  split
  · exact wp_fail _
  · rename_i hn
    have hcount : (readProtoVarint raw).2 ≤ ((0 : Nat) : Int) + raw.length :=
      readProtoVarintLoop_count 0 0 raw
    refine wp_bind.mpr ((wp_slice (by omega)).mpr ((wp_pure _).mpr ?_))
    rw [List.length_drop]
    omega

theorem pays_protoString : Pays 0 readProtoString fun s => s.length + 1 := by
  refine pays_varint.bind fun length raw => ?_
  refine wp_bind.mpr ((wp_need _ _).mpr fun hlen => ?_)
  split
  · exact wp_fail _
  · refine (wp_slice hlen).mpr ?_
    simp only [List.length_take, List.length_drop]
    omega

@[simp] theorem weight_setVarint (event : PaymentEvent) (field : Nat) (value : UInt64) :
    (setVarint event field value).weight = event.weight := by
  unfold setVarint
  split <;> rfl

/-- A string takes the place of one that is dropped, or is a rule more. -/
theorem weight_setString (event : PaymentEvent) (field : Nat) (value : GoString) :
    (setString event field value).weight ≤ event.weight + (value.length + 1) := by
  unfold setString PaymentEvent.weight PaymentEvent.texts
  split <;> simp <;> omega

theorem pays_field (event : PaymentEvent) :
    Pays event.weight (readField event) PaymentEvent.weight := by
  refine pays_varint.bind fun key => ?_
  dsimp only
  split
  · refine pays_varint.bind fun value => pays_pure ?_
    rw [weight_setVarint]
    omega
  · split
    · refine pays_protoString.bind fun value => pays_pure ?_
      have hle := weight_setString event (key >>> 3).toNat value
      omega
    · exact pays_fail _

theorem protoWire_within : DecodesWithin ProtoWireCodec.unmarshal PaymentEvent.weight := by
  intro raw
  obtain ⟨hpanic, hvalue⟩ := loop_pays consumes_field pays_field {} raw
  exact ⟨returns_iff.mpr hpanic, hvalue⟩

end protoWire

/-- The MessagePack and protobuf decoders are safe on every input, and do not
amplify it. -/
theorem decoders_within :
    DecodesWithin MsgPackCodec.unmarshal PaymentEvent.weight ∧
      DecodesWithin ParticipantProfileMsgPackCodec.unmarshal ParticipantProfileCache.weight ∧
      DecodesWithin ProtoWireCodec.unmarshal PaymentEvent.weight :=
  ⟨finish_within msgPack_pays_event, finish_within msgPack_pays_profile, protoWire_within⟩

/-! ## CBOR -/

section cbor

open CborReader

theorem cbor_pays_argument (major additional : UInt8) :
    Pays 0 (readArgument major additional) fun _ => 0 := by
  have hnumber : ∀ k, Pays 0 (do
      need CodecErr.unexpectedEOF k
      let bs ← slice k
      return (major, UInt64.ofNat (beNat bs))) fun _ => 0 :=
    fun _ => Pays.take fun _ => pays_pure (Nat.zero_le _)
  unfold readArgument
  split_ifs
  · exact Pays.byte fun _ => pays_pure (Nat.zero_le _)
  · exact hnumber 2
  · exact hnumber 4
  · exact hnumber 8
  · exact pays_pure le_rfl
  · exact pays_fail _

theorem cbor_pays_major (expected : UInt8) (what : GoString) :
    Pays 0 (expectMajor expected what) fun _ => 0 := by
  have hhead : Pays 0 readHead fun _ => 0 :=
    Pays.byte fun _ => (cbor_pays_argument _ _).mono fun _ => by omega
  refine hhead.bind fun r => ?_
  dsimp only
  split
  · exact pays_fail _
  · exact pays_pure le_rfl

theorem cbor_pays_text : Pays 0 readText List.length :=
  (cbor_pays_major _ _).bind fun _ => pays_take _ _

theorem cbor_pays_arrayLen : Pays 0 readArrayLen fun _ => 0 :=
  (cbor_pays_major _ _).bind fun _ => pays_pure le_rfl

namespace CBORCodec

/-- `Unmarshal` up to the rules. -/
def readBeforeRules : Reader CodecErr (List GoString → PaymentEvent) := do
  let count ← readArrayLen
  if count ≠ paymentEventFieldCount then
    fail (.malformed (go "cbor field count " ++ itoa count))
  else
    let eventID ← readText
    let eventType ← readText
    let tenantID ← readText
    let accountID ← readText
    let transferID ← readText
    let correlationID ← readText
    let occurredAt ← readUint
    let amount ← readUint
    let currency ← readText
    let receiverKeyType ← readText
    let decisionReason ← readText
    let spiMessageID ← readText
    let endToEndID ← readText
    let score ← readUint
    return fun fraudRules => {
      eventID, eventType, tenantID, accountID, transferID, correlationID
      occurredAtUnixNano := occurredAt.toInt64
      amountCents := amount.toInt64
      currency, receiverKeyType, decisionReason, spiMessageID, endToEndID
      fraudScore := score.toInt64
      fraudRules }

/-- `readTextArray` with `make` for `make([]string, 0, length)`. -/
def readTextArrayWith (make : Int → Reader CodecErr Unit) : Reader CodecErr (List GoString) := do
  let length ← readArrayLen
  make length
  times readText length.toNat

/-- `Unmarshal` with `make` for `make([]string, 0, length)`. -/
def unmarshalWith (make : Int → Reader CodecErr Unit) (raw : List UInt8) :
    Except (Fault CodecErr) PaymentEvent :=
  finish (go "cbor trailing bytes ") (do
    let event ← readBeforeRules
    let fraudRules ← readTextArrayWith make
    return event fraudRules) raw

theorem unmarshalWith_makeStrings (raw : List UInt8) :
    unmarshalWith makeStrings raw = unmarshal raw := by
  have hread : (do
      let event ← readBeforeRules
      let fraudRules ← readTextArrayWith makeStrings
      return event fraudRules) = readEvent := by
    unfold readBeforeRules readEvent
    rw [bind_assoc]
    refine bind_congr fun count => ?_
    split
    · rfl
    · simp only [bind_assoc, pure_bind]
      rfl
  unfold unmarshalWith unmarshal
  rw [hread]

/-- A `make` that panics unless its capacity is between zero and the number
of bytes that are left. -/
def checkedMake (n : Int) : Reader CodecErr Unit := do
  let raw ← input
  if 0 ≤ n ∧ n ≤ raw.length then return () else crash

/-- The number in the head of the list of rules and the bytes after the head,
if decoding comes that far. -/
def rulesHead (raw : List UInt8) : Option (UInt64 × List UInt8) :=
  match (do let _ ← readBeforeRules; expectMajor 4 (go "array")) raw with
  | .ok (count, rest) => some (count, rest)
  | .error _ => none

theorem pays_beforeRules : Pays 0 readBeforeRules fun _ => 0 := by
  have htext := cbor_pays_text
  have huint : Pays 0 readUint fun _ => 0 := cbor_pays_major _ _
  refine cbor_pays_arrayLen.bind fun count => ?_
  split
  · exact pays_fail _
  · refine htext.bind fun _ => htext.bind fun _ => htext.bind fun _ => htext.bind fun _ => ?_
    refine htext.bind fun _ => htext.bind fun _ => huint.bind fun _ => huint.bind fun _ => ?_
    refine htext.bind fun _ => htext.bind fun _ => htext.bind fun _ => htext.bind fun _ => ?_
    exact htext.bind fun _ => huint.bind fun _ => pays_pure (Nat.zero_le _)

/-- What holds of the head of the rules, as a triple about the two readers
before it. -/
theorem rulesHead_iff (raw : List UInt8) (C : UInt64 → List UInt8 → Prop) :
    (∀ count rest, rulesHead raw = some (count, rest) → C count rest) ↔
      wp readBeforeRules (fun _ mid => wp (expectMajor 4 (go "array")) C mid) raw := by
  have hsafe : Pays 0 (readBeforeRules >>= fun _ => expectMajor 4 (go "array")) fun _ => 0 :=
    pays_beforeRules.bind fun _ => cbor_pays_major _ _
  have hpanic := (hsafe raw).1
  rw [← wp_bind]
  unfold rulesHead
  cases hrun : (readBeforeRules >>= fun _ => expectMajor 4 (go "array")) raw with
  | ok r =>
    rw [wp_of_ok hrun]
    exact ⟨fun h => h _ _ rfl, fun h count rest heq => by cases heq; exact h⟩
  | error e =>
    cases e with
    | error e => exact iff_of_true nofun (wp_of_error hrun)
    | panic => exact absurd hrun hpanic

/-- Decoding does not panic exactly when `make` does not. -/
theorem unmarshalWith_returns (make : Int → Reader CodecErr Unit) (raw : List UInt8)
    (C : UInt64 → List UInt8 → Prop)
    (hmake : ∀ count rest, make count.toInt64.toInt rest ≠ .error .panic ↔ C count rest) :
    Returns (unmarshalWith make raw) ↔
      ∀ count rest, rulesHead raw = some (count, rest) → C count rest := by
  have htexts : ∀ n raw, wp (times readText n) (fun _ _ => True) raw := fun n raw =>
    (pays_times cbor_pays_text n raw).imp fun _ _ _ => trivial
  rw [rulesHead_iff, unmarshalWith, finish_returns, ← wp_true, wp_bind]
  refine wp_congr fun event mid => ?_
  simp only [readTextArrayWith, readArrayLen, wp_bind, wp_pure]
  refine wp_congr fun count rest => ?_
  rw [← hmake, ← wp_true]
  exact wp_congr fun _ rest => iff_true_intro (htexts _ rest)

/-- A number of 64 bits, taken as an `int`, is in the range of `make` exactly
when it is small enough as it stands. -/
theorem toInt_in_range (count : UInt64) (n : Nat) :
    (0 ≤ count.toInt64.toInt ∧ count.toInt64.toInt ≤ n) ↔
      count.toNat ≤ n ∧ count.toNat ≤ maxInt := by
  have hlt := count.toNat_lt
  have hint : count.toInt64.toInt =
      if 2 * count.toNat < 2 ^ 64 then (count.toNat : Int) else count.toNat - (2 ^ 64 : Nat) :=
    BitVec.toInt_eq_toNat_cond count.toBitVec
  unfold maxInt
  rw [hint]
  split <;> omega

theorem makeStrings_returns (count : UInt64) (rest : List UInt8) :
    makeStrings count.toInt64.toInt rest ≠ .error .panic ↔ 0 ≤ count.toInt64.toInt := by
  unfold makeStrings
  split
  · rename_i h
    exact iff_of_false (fun hne => hne rfl) (not_le.mpr h)
  · rename_i h
    exact iff_of_true nofun (not_lt.mp h)

theorem checkedMake_returns (count : UInt64) (rest : List UInt8) :
    checkedMake count.toInt64.toInt rest ≠ .error .panic ↔
      0 ≤ count.toInt64.toInt ∧ count.toInt64.toInt ≤ rest.length := by
  rw [← wp_true]
  refine wp_bind.trans (wp_input.trans ?_)
  split
  · rename_i h
    exact iff_of_true ((wp_pure _).mpr trivial) h
  · rename_i h
    exact iff_of_false (fun hwp => hwp.1 rfl) h

end CBORCodec

/-- `Unmarshal` is safe on an input, and with it every `make` it executes,
exactly when the list of rules in the input does not announce more elements
than there are bytes after its head. -/
theorem cbor_safe_iff (raw : List UInt8) :
    (Returns (CBORCodec.unmarshal raw) ∧
        Returns (CBORCodec.unmarshalWith CBORCodec.checkedMake raw)) ↔
      ∀ count rest, CBORCodec.rulesHead raw = some (count, rest) →
        count.toNat ≤ rest.length ∧ count.toNat ≤ maxInt := by
  rw [← CBORCodec.unmarshalWith_makeStrings,
    CBORCodec.unmarshalWith_returns _ _ _ CBORCodec.makeStrings_returns,
    CBORCodec.unmarshalWith_returns _ _ _ CBORCodec.checkedMake_returns]
  simp only [← CBORCodec.toInt_in_range]
  exact ⟨And.right, fun h => ⟨fun count rest hr => (h count rest hr).1, h⟩⟩

/-- Fifteen fields, of which the last is a list of 2⁶⁴ - 1 rules. -/
def negativeRules : List UInt8 :=
  [0x8f, 0x60, 0x60, 0x60, 0x60, 0x60, 0x60, 0x00, 0x00, 0x60, 0x60, 0x60, 0x60, 0x60, 0x00,
    0x9b, 0xff, 0xff, 0xff, 0xff, 0xff, 0xff, 0xff, 0xff]

/-- The count is -1 as an `int`. -/
theorem cbor_panics : CBORCodec.unmarshal negativeRules = .error .panic := by
  decide +kernel

end cbor

end PixRail.Codec
