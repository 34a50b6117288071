import PixRail.Codec.Events

/-!
# The protobuf wire format

`ProtoWireCodec`.  A field is a key, which has the number of the field and a
wire type, and a value, which is a varint or a string with its length.
`Marshal` leaves out a field that has its zero value, and `Unmarshal` starts
from the zero event.  The fraud rules are one field each, and go through the
same function: an empty rule is left out too, and nothing rebuilds it.  So an
event is read back exactly when it has no empty rule (`proto_roundTrip_iff`).
-/

namespace PixRail.Codec

open Go Wire Wire.Reader

/-! ## Writers -/

/-- The bytes that `appendProtoVarintRaw` appends. -/
def appendProtoVarintRaw (value : UInt64) : List UInt8 :=
  if 0x80 ≤ value then (value.toUInt8 ||| 0x80) :: appendProtoVarintRaw (value >>> 7)
  else [value.toUInt8]
termination_by value.toNat
decreasing_by
  rename_i h
  have hle : 0x80 ≤ value.toNat := h
  rw [UInt64.toNat_shiftRight]
  show value.toNat >>> 7 < value.toNat
  rw [Nat.shiftRight_eq_div_pow]
  omega

/-- `appendProtoString`. -/
def appendProtoString (field : Nat) (value : GoString) : List UInt8 :=
  if value = [] then []
  else appendProtoVarintRaw (UInt64.ofNat (field <<< 3 ||| 2)) ++
    appendProtoVarintRaw (UInt64.ofNat value.length) ++ value

/-- `appendProtoVarint`. -/
def appendProtoVarint (field : Nat) (value : UInt64) : List UInt8 :=
  if value = 0 then []
  else appendProtoVarintRaw (UInt64.ofNat (field <<< 3)) ++ appendProtoVarintRaw value

/-! ## Readers -/

/-- The loop of `readProtoVarint`, at byte `i`. -/
def readProtoVarintLoop (value : UInt64) (i : Nat) : List UInt8 → UInt64 × Int
  | [] => (0, -1)
  | b :: raw =>
    if i = 10 then (0, -1)
    else
      let value := value ||| (b &&& 0x7f).toUInt64 <<< UInt64.ofNat (7 * i)
      if b < 0x80 then (value, i + 1) else readProtoVarintLoop value (i + 1) raw

/-- `readProtoVarint`: the value, and the number of bytes it takes. -/
def readProtoVarint (raw : List UInt8) : UInt64 × Int := readProtoVarintLoop 0 0 raw

/-- A call of `readProtoVarint`, the test of its count and the slice that
follows. -/
def takeProtoVarint : Reader CodecErr UInt64 := do
  let raw ← input
  let (value, n) := readProtoVarint raw
  if n ≤ 0 then fail .unexpectedEOF
  else
    let _ ← slice n.toNat
    return value

/-- `readProtoString`. -/
def readProtoString : Reader CodecErr GoString := do
  let length ← takeProtoVarint
  need .unexpectedEOF length.toNat
  if maxInt < length.toNat then fail (.malformed (go "protobuf string too large"))
  else slice length.toNat

/-! ## Codec -/

namespace ProtoWireCodec

/-- `ProtoWireCodec.Marshal`. -/
def marshal (event : PaymentEvent) : List UInt8 :=
  appendProtoString 1 event.eventID ++ appendProtoString 2 event.eventType ++
    appendProtoString 3 event.tenantID ++ appendProtoString 4 event.accountID ++
    appendProtoString 5 event.transferID ++ appendProtoString 6 event.correlationID ++
    appendProtoVarint 7 event.occurredAtUnixNano.toUInt64 ++
    appendProtoVarint 8 event.amountCents.toUInt64 ++ appendProtoString 9 event.currency ++
    appendProtoString 10 event.receiverKeyType ++ appendProtoString 11 event.decisionReason ++
    appendProtoString 12 event.spiMessageID ++ appendProtoString 13 event.endToEndID ++
    appendProtoVarint 14 event.fraudScore.toUInt64 ++
    event.fraudRules.flatMap (appendProtoString 15)

/-- What a varint does to the event. -/
def setVarint (event : PaymentEvent) (field : Nat) (value : UInt64) : PaymentEvent :=
  match field with
  | 7 => { event with occurredAtUnixNano := value.toInt64 }
  | 8 => { event with amountCents := value.toInt64 }
  | 14 => { event with fraudScore := value.toInt64 }
  | _ => event

/-- What a string does to the event. -/
def setString (event : PaymentEvent) (field : Nat) (value : GoString) : PaymentEvent :=
  match field with
  | 1 => { event with eventID := value }
  | 2 => { event with eventType := value }
  | 3 => { event with tenantID := value }
  | 4 => { event with accountID := value }
  | 5 => { event with transferID := value }
  | 6 => { event with correlationID := value }
  | 9 => { event with currency := value }
  | 10 => { event with receiverKeyType := value }
  | 11 => { event with decisionReason := value }
  | 12 => { event with spiMessageID := value }
  | 13 => { event with endToEndID := value }
  | 15 => { event with fraudRules := event.fraudRules ++ [value] }
  | _ => event

/-- The body of the loop of `ProtoWireCodec.Unmarshal`. -/
def readField (event : PaymentEvent) : Reader CodecErr PaymentEvent := do
  let key ← takeProtoVarint
  let field := (key >>> 3).toNat
  let wireType := key &&& 0x7
  if wireType = 0 then
    let value ← takeProtoVarint
    return setVarint event field value
  else if wireType = 2 then
    let value ← readProtoString
    return setString event field value
  else fail (.malformed (go "unsupported protobuf wire type " ++ itoa wireType.toNat))

end ProtoWireCodec

/-! ## Every round of the loop takes a byte -/

theorem consumes_varint : Consumes 1 takeProtoVarint := by
  refine consumes_input.later fun raw => ?_
  dsimp only
  split
  · exact consumes_fail _
  · exact ((consumes_slice _).first fun _ => consumes_pure _).mono (by omega)

theorem consumes_string : Consumes 1 readProtoString := by
  refine consumes_varint.first fun length => (consumes_need _ _).later fun _ => ?_
  split
  · exact consumes_fail _
  · exact (consumes_slice _).mono (Nat.zero_le _)

theorem consumes_field (event : PaymentEvent) : Consumes 1 (ProtoWireCodec.readField event) := by
  refine consumes_varint.first fun key => ?_
  dsimp only
  split
  · exact (consumes_varint.first fun _ => consumes_pure _).mono (Nat.zero_le _)
  · split
    · exact (consumes_string.first fun _ => consumes_pure _).mono (Nat.zero_le _)
    · exact consumes_fail _

/-- `ProtoWireCodec.Unmarshal`. -/
def ProtoWireCodec.unmarshal (raw : List UInt8) : Except (Fault CodecErr) PaymentEvent :=
  loop ProtoWireCodec.readField consumes_field {} raw

/-! ## Varints -/

theorem toNat_and_7f (b : UInt8) : (b &&& 0x7f).toNat = b.toNat % 128 := by
  rw [UInt8.toNat_and]
  exact Nat.and_two_pow_sub_one_eq_mod b.toNat 7

theorem toNat_or_80 (b : UInt8) : (b ||| 0x80).toNat = b.toNat % 128 + 128 := by
  have hall : ∀ n < 256, (UInt8.ofNat n ||| 0x80).toNat = n % 128 + 128 := by
    decide +kernel
  have h := hall b.toNat b.toNat_lt
  rwa [UInt8.ofNat_toNat] at h

/-- The bits that are shifted beyond the word are lost. -/
theorem toNat_or_shiftLeft {acc x : UInt64} {k : Nat} (hk : k < 64) (hacc : acc.toNat < 2 ^ k) :
    (acc ||| x <<< UInt64.ofNat k).toNat = acc.toNat + x.toNat * 2 ^ k % 2 ^ 64 := by
  have hshift : (UInt64.ofNat k).toNat % 64 = k := by
    rw [UInt64.toNat_ofNat']
    omega
  have hlow : 2 ^ k * x.toNat % 2 ^ 64 = 2 ^ k * (x.toNat % 2 ^ (64 - k)) := by
    rw [← Nat.mul_mod_mul_left, ← Nat.pow_add, show k + (64 - k) = 64 by omega]
  rw [UInt64.toNat_or, UInt64.toNat_shiftLeft, hshift, Nat.shiftLeft_eq, Nat.mul_comm, hlow,
    Nat.or_comm, ← Nat.two_pow_add_eq_or_of_lt hacc]
  omega

/-- One round of the loop. -/
theorem readProtoVarintLoop_cons {acc : UInt64} {i : Nat} (hi : i < 10)
    (hacc : acc.toNat < 2 ^ (7 * i)) (b : UInt8) (raw : List UInt8) :
    ∃ acc' : UInt64, acc'.toNat = acc.toNat + b.toNat % 128 * 2 ^ (7 * i) % 2 ^ 64 ∧
      readProtoVarintLoop acc i (b :: raw) =
        if b < 0x80 then (acc', ((i + 1 : Nat) : Int))
        else readProtoVarintLoop acc' (i + 1) raw := by
  refine ⟨acc ||| (b &&& 0x7f).toUInt64 <<< UInt64.ofNat (7 * i), ?_, ?_⟩
  · rw [toNat_or_shiftLeft (by omega) hacc, UInt8.toNat_toUInt64, toNat_and_7f]
  · rw [readProtoVarintLoop, if_neg (by omega)]
    rfl

/-- After `i` bytes the loop has the last `7 * i` bits in `acc`. -/
theorem readProtoVarintLoop_append (v acc : UInt64) (i : Nat) (hi : i < 10)
    (hacc : acc.toNat < 2 ^ (7 * i)) (hv : v.toNat * 2 ^ (7 * i) < 2 ^ 64) (rest : List UInt8) :
    ∃ value : UInt64, value.toNat = acc.toNat + v.toNat * 2 ^ (7 * i) ∧
      readProtoVarintLoop acc i (appendProtoVarintRaw v ++ rest) =
        (value, ((i + (appendProtoVarintRaw v).length : Nat) : Int)) := by
  fun_induction appendProtoVarintRaw v generalizing acc i with
  | case1 v hle ih =>
    have hbyte : (v.toUInt8 ||| 0x80).toNat = v.toNat % 128 + 128 := by
      rw [toNat_or_80, UInt64.toNat_toUInt8]
      omega
    have hshr : (v >>> 7).toNat = v.toNat / 128 := by
      rw [UInt64.toNat_shiftRight]
      exact Nat.shiftRight_eq_div_pow _ 7
    have hpow : 2 ^ (7 * (i + 1)) = 128 * 2 ^ (7 * i) := by
      rw [Nat.mul_succ, Nat.pow_add, Nat.mul_comm]
    have hsplit : v.toNat * 2 ^ (7 * i) =
        v.toNat % 128 * 2 ^ (7 * i) + v.toNat / 128 * (128 * 2 ^ (7 * i)) := by
      conv_lhs => rw [← Nat.mod_add_div v.toNat 128]
      ring
    -- a tenth byte has room for one bit, and more bytes follow this one
    have hi9 : i + 1 < 10 := by
      by_contra hge
      obtain rfl : i = 9 := by omega
      have hv128 : 128 ≤ v.toNat := hle
      omega
    have hmod : (v.toUInt8 ||| 0x80).toNat % 128 = v.toNat % 128 := by omega
    obtain ⟨acc', hacc', hround⟩ := readProtoVarintLoop_cons hi hacc (v.toUInt8 ||| 0x80)
      (appendProtoVarintRaw (v >>> 7) ++ rest)
    rw [hmod, Nat.mod_eq_of_lt (by omega)] at hacc'
    have hlow : v.toNat % 128 * 2 ^ (7 * i) ≤ 127 * 2 ^ (7 * i) :=
      Nat.mul_le_mul_right _ (by omega)
    obtain ⟨value, hvalue, hrun⟩ := ih acc' (i + 1) hi9 (by omega) (by rw [hshr, hpow]; omega)
    have hlast : ¬ (v.toUInt8 ||| 0x80) < 0x80 := by
      show ¬ (v.toUInt8 ||| 0x80).toNat < 128
      omega
    refine ⟨value, ?_, ?_⟩
    · rw [hvalue, hshr, hpow]
      omega
    · rw [List.cons_append, hround, if_neg hlast, hrun, List.length_cons]
      congr 2
      omega
  | case2 v hlt =>
    have hv128 : v.toNat < 128 := UInt64.not_le.mp hlt
    have hbyte : v.toUInt8.toNat = v.toNat := by
      rw [UInt64.toNat_toUInt8]
      omega
    have hmod : v.toUInt8.toNat % 128 = v.toNat := by omega
    have hlast : v.toUInt8 < 0x80 := by
      show v.toUInt8.toNat < 128
      omega
    obtain ⟨value, hvalue, hround⟩ := readProtoVarintLoop_cons hi hacc v.toUInt8 rest
    rw [hmod, Nat.mod_eq_of_lt hv] at hvalue
    refine ⟨value, hvalue, ?_⟩
    rw [List.cons_append, List.nil_append, hround, if_pos hlast]
    rfl

theorem appendProtoVarintRaw_ne_nil (value : UInt64) : appendProtoVarintRaw value ≠ [] := by
  rw [appendProtoVarintRaw]
  split <;> exact List.cons_ne_nil _ _

/-- A written varint is read back, whatever follows it. -/
theorem readProtoVarint_append (value : UInt64) (rest : List UInt8) :
    readProtoVarint (appendProtoVarintRaw value ++ rest) =
      (value, ((appendProtoVarintRaw value).length : Int)) := by
  obtain ⟨value', hvalue, hrun⟩ := readProtoVarintLoop_append value 0 0 (by decide) (by decide)
    (by simpa using value.toNat_lt) rest
  obtain rfl : value' = value := UInt64.toNat_inj.mp (by simpa using hvalue)
  rw [Nat.zero_add] at hrun
  exact hrun

theorem reads_varint (value : UInt64) :
    Reads takeProtoVarint (appendProtoVarintRaw value) value := by
  intro rest
  have hpos := List.length_pos_iff.mpr (appendProtoVarintRaw_ne_nil value)
  refine (bind_run_ok (input_run _)).trans ?_
  rw [readProtoVarint_append]
  dsimp only
  rw [if_neg (by omega), Int.toNat_natCast]
  exact bind_run_ok (reads_slice _ rest)

/-! ## What is written is read back -/

open ProtoWireCodec

/-- A key has the number of the field and the wire type. -/
theorem key_parts {field wire : Nat} (hfield : field < 2 ^ 61) (hwire : wire < 8) :
    (UInt64.ofNat (field <<< 3 ||| wire) >>> 3).toNat = field ∧
      UInt64.ofNat (field <<< 3 ||| wire) &&& 0x7 = UInt64.ofNat wire := by
  have hsum : field <<< 3 ||| wire = 8 * field + wire := by
    rw [Nat.shiftLeft_eq, Nat.mul_comm]
    exact (Nat.two_pow_add_eq_or_of_lt (i := 3) hwire field).symm
  have hkey : (UInt64.ofNat (field <<< 3 ||| wire)).toNat = 8 * field + wire := by
    rw [hsum, UInt64.toNat_ofNat']
    omega
  constructor
  · rw [UInt64.toNat_shiftRight, hkey]
    show (8 * field + wire) >>> 3 = field
    rw [Nat.shiftRight_eq_div_pow]
    omega
  · refine UInt64.toNat_inj.mp ?_
    rw [UInt64.toNat_and, hkey, UInt64.toNat_ofNat']
    refine (Nat.and_two_pow_sub_one_eq_mod (8 * field + wire) 3).trans ?_
    omega

theorem reads_protoString {s : GoString} (h : s.length ≤ maxInt) :
    Reads readProtoString (appendProtoVarintRaw (UInt64.ofNat s.length) ++ s) s := by
  refine (reads_varint _).bind ?_
  rw [toNat_length h]
  refine Reads.need le_rfl ?_
  rw [if_neg (by omega)]
  exact reads_slice s

/-- A round of the loop on a string. -/
theorem reads_stringField {event : PaymentEvent} {field : Nat} {value : GoString}
    (hfield : field < 2 ^ 61) (hlen : value.length ≤ maxInt) :
    Reads (readField event) (appendProtoVarintRaw (UInt64.ofNat (field <<< 3 ||| 2)) ++
      (appendProtoVarintRaw (UInt64.ofNat value.length) ++ value))
      (setString event field value) := by
  obtain ⟨hnumber, htype⟩ := key_parts hfield (show 2 < 8 by decide)
  refine (reads_varint _).bind ?_
  dsimp only
  rw [hnumber, htype, if_neg (by decide), if_pos (by decide)]
  exact (reads_protoString hlen).last rfl

/-- A round of the loop on a varint. -/
theorem reads_varintField {event : PaymentEvent} {field : Nat} (hfield : field < 2 ^ 61)
    (value : UInt64) :
    Reads (readField event)
      (appendProtoVarintRaw (UInt64.ofNat (field <<< 3)) ++ appendProtoVarintRaw value)
      (setVarint event field value) := by
  obtain ⟨hnumber, htype⟩ := key_parts hfield (show 0 < 8 by decide)
  rw [Nat.or_zero] at hnumber htype
  refine (reads_varint _).bind ?_
  dsimp only
  rw [hnumber, htype, if_pos (by decide)]
  exact (reads_varint value).last rfl

/-- The loop takes a string field in one round, or in none if the string is
empty and the field has that value already. -/
theorem steps_string {event : PaymentEvent} {field : Nat} {value : GoString} (hfield : field < 16)
    (hlen : value.length ≤ maxInt) (hzero : value = [] → setString event field [] = event) :
    Steps readField event (appendProtoString field value) (setString event field value) := by
  unfold appendProtoString
  split
  · rename_i hnil
    rw [hnil, hzero hnil]
    exact Steps.nil event
  · rw [List.append_assoc]
    exact Steps.single (reads_stringField (by omega) hlen)

theorem steps_varint {event : PaymentEvent} {field : Nat} {value : UInt64} (hfield : field < 16)
    (hzero : setVarint event field 0 = event) :
    Steps readField event (appendProtoVarint field value) (setVarint event field value) := by
  unfold appendProtoVarint
  split
  · rename_i hnil
    rw [hnil, hzero]
    exact Steps.nil event
  · exact Steps.single (reads_varintField (by omega) value)

/-- An empty rule takes no round. -/
theorem steps_rules {rules : List GoString} (hlen : ∀ s ∈ rules, s.length ≤ maxInt) :
    ∀ event : PaymentEvent, Steps readField event (rules.flatMap (appendProtoString 15))
      { event with fraudRules := event.fraudRules ++ rules.filter (· ≠ []) } := by
  induction rules with
  | nil =>
    intro event
    rw [List.filter_nil, List.append_nil]
    exact Steps.nil event
  | cons s rules ih =>
    intro event
    obtain ⟨hs, hrules⟩ := List.forall_mem_cons.mp hlen
    rw [List.flatMap_cons]
    by_cases hnil : s = []
    · rw [List.filter_cons_of_neg (by simpa using hnil)]
      unfold appendProtoString
      rw [if_pos hnil]
      exact ih hrules event
    · rw [List.filter_cons_of_pos (by simpa using hnil)]
      have hstep : Steps readField event (appendProtoString 15 s)
          { event with fraudRules := event.fraudRules ++ [s] } :=
        steps_string (by decide) hs fun h => absurd h hnil
      have hrest := hstep.trans (ih hrules _)
      rwa [← List.append_cons] at hrest

/-- The event when the fields up to number `k` have been read. -/
def upTo (event : PaymentEvent) (k : Nat) : PaymentEvent where
  eventID := if 1 ≤ k then event.eventID else []
  eventType := if 2 ≤ k then event.eventType else []
  tenantID := if 3 ≤ k then event.tenantID else []
  accountID := if 4 ≤ k then event.accountID else []
  transferID := if 5 ≤ k then event.transferID else []
  correlationID := if 6 ≤ k then event.correlationID else []
  occurredAtUnixNano := if 7 ≤ k then event.occurredAtUnixNano else 0
  amountCents := if 8 ≤ k then event.amountCents else 0
  currency := if 9 ≤ k then event.currency else []
  receiverKeyType := if 10 ≤ k then event.receiverKeyType else []
  decisionReason := if 11 ≤ k then event.decisionReason else []
  spiMessageID := if 12 ≤ k then event.spiMessageID else []
  endToEndID := if 13 ≤ k then event.endToEndID else []
  fraudScore := if 14 ≤ k then event.fraudScore else 0

theorem steps_text {event : PaymentEvent} {value : GoString} (k : Nat) (hk : k < 15)
    (hlen : value.length ≤ maxInt)
    (hset : setString (upTo event k) (k + 1) value = upTo event (k + 1))
    (hzero : setString (upTo event k) (k + 1) [] = upTo event k) :
    Steps readField (upTo event k) (appendProtoString (k + 1) value) (upTo event (k + 1)) := by
  rw [← hset]
  exact steps_string (by omega) hlen fun _ => hzero

theorem steps_number {event : PaymentEvent} {value : Int64} (k : Nat) (hk : k < 15)
    (hset : setVarint (upTo event k) (k + 1) value.toUInt64 = upTo event (k + 1))
    (hzero : setVarint (upTo event k) (k + 1) 0 = upTo event k) :
    Steps readField (upTo event k) (appendProtoVarint (k + 1) value.toUInt64)
      (upTo event (k + 1)) := by
  rw [← hset]
  exact steps_varint (by omega) hzero

/-- The event comes back without its empty rules. -/
theorem unmarshal_marshal {event : PaymentEvent} (h : event.Sized) :
    unmarshal (marshal event) =
      .ok { event with fraudRules := event.fraudRules.filter (· ≠ []) } := by
  have htext := h.texts
  simp only [PaymentEvent.texts, List.forall_mem_cons] at htext
  obtain ⟨h₁, h₂, h₃, h₄, h₅, h₆, h₇, h₈, h₉, h₁₀, h₁₁, -⟩ := htext
  refine loop_steps ?_
  refine Steps.trans ?_ (steps_rules h.ruleTexts (upTo event 14))
  refine Steps.trans ?_ (steps_number 13 (by decide) rfl rfl)
  refine Steps.trans ?_ (steps_text 12 (by decide) h₁₁ rfl rfl)
  refine Steps.trans ?_ (steps_text 11 (by decide) h₁₀ rfl rfl)
  refine Steps.trans ?_ (steps_text 10 (by decide) h₉ rfl rfl)
  refine Steps.trans ?_ (steps_text 9 (by decide) h₈ rfl rfl)
  refine Steps.trans ?_ (steps_text 8 (by decide) h₇ rfl rfl)
  refine Steps.trans ?_ (steps_number 7 (by decide) rfl rfl)
  refine Steps.trans ?_ (steps_number 6 (by decide) rfl rfl)
  refine Steps.trans ?_ (steps_text 5 (by decide) h₆ rfl rfl)
  refine Steps.trans ?_ (steps_text 4 (by decide) h₅ rfl rfl)
  refine Steps.trans ?_ (steps_text 3 (by decide) h₄ rfl rfl)
  refine Steps.trans ?_ (steps_text 2 (by decide) h₃ rfl rfl)
  refine Steps.trans ?_ (steps_text 1 (by decide) h₂ rfl rfl)
  exact steps_text 0 (by decide) h₁ rfl rfl

/-- An event is read back exactly when it has no empty rule. -/
theorem proto_roundTrip_iff (event : PaymentEvent) (hsized : event.Sized) :
    unmarshal (marshal event) = .ok event ↔ [] ∉ event.fraudRules := by
  rw [unmarshal_marshal hsized, Except.ok.injEq]
  have hrules : { event with fraudRules := event.fraudRules.filter (· ≠ []) } = event ↔
      event.fraudRules.filter (· ≠ []) = event.fraudRules :=
    ⟨congrArg PaymentEvent.fraudRules, fun h => by rw [h]⟩
  rw [hrules, List.filter_eq_self]
  constructor
  · intro hall hmem
    exact absurd (hall [] hmem) (by decide)
  · intro hno s hs
    exact decide_eq_true fun hnil => hno (hnil ▸ hs)

/-- A blocked payment with a negative amount. -/
theorem proto_roundTrip_iff_blocked :
    unmarshal (marshal { samplePixTransferBlocked with amountCents := -1 }) =
      .ok { samplePixTransferBlocked with amountCents := -1 } :=
  (proto_roundTrip_iff _ ⟨by decide +kernel, by decide +kernel, by decide +kernel⟩).mpr
    (by decide +kernel)

set_option maxRecDepth 20000 in
/-- Three rules go in and two come out. -/
theorem proto_drops_empty_rule :
    unmarshal (marshal { fraudRules := [go "velocity", [], go "risk"] }) =
      .ok { fraudRules := [go "velocity", go "risk"] } := by
  decide +kernel

end PixRail.Codec
