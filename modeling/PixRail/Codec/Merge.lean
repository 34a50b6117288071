import Mathlib.Data.List.Induction
import PixRail.Codec.ProtoWire

/-!
# Merging protobuf fields

`ProtoWireCodec.Unmarshal` on fields in any order and number, not only on
those that `Marshal` writes.  A field of the schema keeps its last value, the
rules are collected in order, and everything else is skipped, at any position
(`proto_merges`).  So the order of fields with different numbers does not
matter, and a reader of an older schema can be sent fields it does not know.
-/

namespace PixRail.Codec

open Go Wire Wire.Reader ProtoWireCodec

/-! ## Fields -/

/-- The value of a field, with its wire type.  The length of a string is an
`int`. -/
inductive WireValue where
  | varint (value : UInt64)
  | bytes (value : GoString) (sized : value.length ≤ maxInt)

/-- A field whose key fits a varint. -/
structure WireField where
  number : Nat
  bounded : number < 2 ^ 61
  value : WireValue

/-- The bytes of a field.  Unlike in `Marshal`, a zero value is written
too. -/
def WireField.encode (f : WireField) : List UInt8 :=
  match f.value with
  | .varint value =>
    appendProtoVarintRaw (UInt64.ofNat (f.number <<< 3)) ++ appendProtoVarintRaw value
  | .bytes value _ =>
    appendProtoVarintRaw (UInt64.ofNat (f.number <<< 3 ||| 2)) ++
      (appendProtoVarintRaw (UInt64.ofNat value.length) ++ value)

def encodeFields (fs : List WireField) : List UInt8 := fs.flatMap WireField.encode

/-- The value of a varint with number `n`. -/
def WireField.varintAt (n : Nat) (f : WireField) : Option UInt64 :=
  match f.value with
  | .varint value => if f.number = n then some value else none
  | .bytes _ _ => none

/-- The value of a string with number `n`. -/
def WireField.bytesAt (n : Nat) (f : WireField) : Option GoString :=
  match f.value with
  | .varint _ => none
  | .bytes value _ => if f.number = n then some value else none

/-- The field is one of the schema, with the wire type it has there. -/
def WireField.known (f : WireField) : Bool :=
  match f.value with
  | .varint _ => f.number = 7 ∨ f.number = 8 ∨ f.number = 14
  | .bytes _ _ => 1 ≤ f.number ∧ f.number ≤ 15 ∧ f.number ≠ 7 ∧ f.number ≠ 8 ∧ f.number ≠ 14

/-! ## The merged event -/

def lastVarint (n : Nat) (fs : List WireField) : UInt64 :=
  (fs.filterMap (·.varintAt n)).getLast?.getD 0

def lastBytes (n : Nat) (fs : List WireField) : GoString :=
  (fs.filterMap (·.bytesAt n)).getLast?.getD []

/-- Each field of the event has the last value that was sent for it, or its
zero value; the rules are all values that were sent for them. -/
def merged (fs : List WireField) : PaymentEvent where
  eventID := lastBytes 1 fs
  eventType := lastBytes 2 fs
  tenantID := lastBytes 3 fs
  accountID := lastBytes 4 fs
  transferID := lastBytes 5 fs
  correlationID := lastBytes 6 fs
  occurredAtUnixNano := (lastVarint 7 fs).toInt64
  amountCents := (lastVarint 8 fs).toInt64
  currency := lastBytes 9 fs
  receiverKeyType := lastBytes 10 fs
  decisionReason := lastBytes 11 fs
  spiMessageID := lastBytes 12 fs
  endToEndID := lastBytes 13 fs
  fraudScore := (lastVarint 14 fs).toInt64
  fraudRules := fs.filterMap (·.bytesAt 15)

theorem lastVarint_snoc (n : Nat) (fs : List WireField) (f : WireField) :
    lastVarint n (fs ++ [f]) = (f.varintAt n).getD (lastVarint n fs) := by
  unfold lastVarint
  rw [List.filterMap_append]
  cases hf : f.varintAt n <;> simp [hf]

theorem lastBytes_snoc (n : Nat) (fs : List WireField) (f : WireField) :
    lastBytes n (fs ++ [f]) = (f.bytesAt n).getD (lastBytes n fs) := by
  unfold lastBytes
  rw [List.filterMap_append]
  cases hf : f.bytesAt n <;> simp [hf]

/-- One more field does to the merged event what the loop does. -/
theorem merged_snoc_varint (fs : List WireField) {n : Nat} (hn : n < 2 ^ 61) (value : UInt64) :
    merged (fs ++ [⟨n, hn, .varint value⟩]) = setVarint (merged fs) n value := by
  unfold merged setVarint
  simp only [lastVarint_snoc, lastBytes_snoc, List.filterMap_append]
  split <;> simp_all [WireField.varintAt, WireField.bytesAt]

theorem merged_snoc_bytes (fs : List WireField) {n : Nat} (hn : n < 2 ^ 61) {value : GoString}
    (hs : value.length ≤ maxInt) :
    merged (fs ++ [⟨n, hn, .bytes value hs⟩]) = setString (merged fs) n value := by
  unfold merged setString
  simp only [lastVarint_snoc, lastBytes_snoc, List.filterMap_append]
  split <;> simp_all [WireField.varintAt, WireField.bytesAt]

/-- The loop comes to the merged event. -/
theorem steps_merged (fs : List WireField) :
    Steps readField {} (encodeFields fs) (merged fs) := by
  induction fs using List.reverseRecOn with
  | nil => exact Steps.nil _
  | append_singleton fs f ih =>
    have hlast : encodeFields (fs ++ [f]) = encodeFields fs ++ f.encode := by
      unfold encodeFields
      rw [List.flatMap_append, List.flatMap_singleton]
    rw [hlast]
    refine ih.trans (Steps.single ?_)
    obtain ⟨n, hn, value⟩ := f
    cases value with
    | varint value =>
      rw [merged_snoc_varint]
      exact reads_varintField hn value
    | bytes value hs =>
      rw [merged_snoc_bytes]
      exact reads_stringField hn hs

theorem unmarshal_encodeFields (fs : List WireField) :
    unmarshal (encodeFields fs) = .ok (merged fs) :=
  loop_steps (steps_merged fs)

/-! ## What the merged event does not depend on -/

/-- Fields that have none of the values in question can be left out. -/
theorem filterMap_filter_of_isSome {α β : Type} {p : α → Bool} {g : α → Option β} {l : List α}
    (h : ∀ a, (g a).isSome → p a) : (l.filter p).filterMap g = l.filterMap g := by
  rw [List.filterMap_filter]
  refine List.filterMap_congr fun a _ => ?_
  cases hg : g a with
  | none => simp
  | some b => rw [if_pos (h a (by rw [hg]; rfl))]

theorem varintAt_isSome {n : Nat} {f : WireField} (h : (f.varintAt n).isSome) :
    f.number = n ∧ ∃ value, f.value = .varint value := by
  unfold WireField.varintAt at h
  split at h
  · rename_i value hvalue
    split at h
    · rename_i hn
      exact ⟨hn, value, hvalue⟩
    · exact nomatch h
  · exact nomatch h

theorem bytesAt_isSome {n : Nat} {f : WireField} (h : (f.bytesAt n).isSome) :
    f.number = n ∧ ∃ value hs, f.value = .bytes value hs := by
  unfold WireField.bytesAt at h
  split at h
  · exact nomatch h
  · rename_i value hs hvalue
    split at h
    · rename_i hn
      exact ⟨hn, value, hs, hvalue⟩
    · exact nomatch h

/-- The event depends on the values that were sent for each field of the
schema, and on their order, and on nothing else. -/
theorem merged_congr {fs gs : List WireField}
    (hvarint : ∀ n, (n = 7 ∨ n = 8 ∨ n = 14) →
      gs.filterMap (·.varintAt n) = fs.filterMap (·.varintAt n))
    (hbytes : ∀ n, (1 ≤ n ∧ n ≤ 15 ∧ n ≠ 7 ∧ n ≠ 8 ∧ n ≠ 14) →
      gs.filterMap (·.bytesAt n) = fs.filterMap (·.bytesAt n)) : merged gs = merged fs := by
  unfold merged lastVarint lastBytes
  simp only [hvarint 7 (by decide), hvarint 8 (by decide), hvarint 14 (by decide),
    hbytes 1 (by decide), hbytes 2 (by decide), hbytes 3 (by decide), hbytes 4 (by decide),
    hbytes 5 (by decide), hbytes 6 (by decide), hbytes 9 (by decide), hbytes 10 (by decide),
    hbytes 11 (by decide), hbytes 12 (by decide), hbytes 13 (by decide), hbytes 15 (by decide)]

/-- Fields with different numbers may change places. -/
theorem merged_reorder {fs gs : List WireField}
    (h : ∀ n, gs.filter (·.number = n) = fs.filter (·.number = n)) : merged gs = merged fs := by
  refine merged_congr (fun n _ => ?_) fun n _ => ?_
  · have hv : ∀ f : WireField, (f.varintAt n).isSome → decide (f.number = n) :=
      fun f hf => decide_eq_true (varintAt_isSome hf).1
    rw [← filterMap_filter_of_isSome hv, h n, filterMap_filter_of_isSome hv]
  · have hb : ∀ f : WireField, (f.bytesAt n).isSome → decide (f.number = n) :=
      fun f hf => decide_eq_true (bytesAt_isSome hf).1
    rw [← filterMap_filter_of_isSome hb, h n, filterMap_filter_of_isSome hb]

/-- Fields that are not in the schema may stand anywhere. -/
theorem merged_unknown {fs gs : List WireField}
    (h : gs.filter (·.known) = fs.filter (·.known)) : merged gs = merged fs := by
  refine merged_congr (fun n hn => ?_) fun n hn => ?_
  · have hv : ∀ f : WireField, (f.varintAt n).isSome → f.known := by
      intro f hf
      obtain ⟨rfl, value, hvalue⟩ := varintAt_isSome hf
      unfold WireField.known
      rw [hvalue]
      exact decide_eq_true hn
    rw [← filterMap_filter_of_isSome hv, h, filterMap_filter_of_isSome hv]
  · have hb : ∀ f : WireField, (f.bytesAt n).isSome → f.known := by
      intro f hf
      obtain ⟨rfl, value, hs, hvalue⟩ := bytesAt_isSome hf
      unfold WireField.known
      rw [hvalue]
      exact decide_eq_true hn
    rw [← filterMap_filter_of_isSome hb, h, filterMap_filter_of_isSome hb]

/-- `Unmarshal` merges the fields of its input.  It returns the same event if
fields with different numbers change places, and if fields that are not in
the schema are put in or left out anywhere. -/
theorem proto_merges (fs : List WireField) :
    unmarshal (encodeFields fs) = .ok (merged fs) ∧
      (∀ gs : List WireField, (∀ n, gs.filter (·.number = n) = fs.filter (·.number = n)) →
        unmarshal (encodeFields gs) = unmarshal (encodeFields fs)) ∧
      ∀ gs : List WireField, gs.filter (·.known) = fs.filter (·.known) →
        unmarshal (encodeFields gs) = unmarshal (encodeFields fs) := by
  refine ⟨unmarshal_encodeFields fs, fun gs h => ?_, fun gs h => ?_⟩
  · rw [unmarshal_encodeFields, unmarshal_encodeFields, merged_reorder h]
  · rw [unmarshal_encodeFields, unmarshal_encodeFields, merged_unknown h]

/-- An amount, an identifier and the identifier again; the same with the
amount last; the same with a string of number 7 and a varint of number 1000
between them. -/
theorem proto_merges_example :
    let amount : WireField := ⟨8, by decide, .varint 500⟩
    let first : WireField := ⟨1, by decide, .bytes (go "evt_1") (by decide)⟩
    let second : WireField := ⟨1, by decide, .bytes (go "evt_2") (by decide)⟩
    let typed : WireField := ⟨7, by decide, .bytes (go "x") (by decide)⟩
    let unknown : WireField := ⟨1000, by decide, .varint 1⟩
    unmarshal (encodeFields [amount, first, second]) =
        .ok { eventID := go "evt_2", amountCents := 500 } ∧
      unmarshal (encodeFields [first, second, amount]) =
        unmarshal (encodeFields [amount, first, second]) ∧
      unmarshal (encodeFields [amount, typed, first, unknown, second]) =
        unmarshal (encodeFields [amount, first, second]) := by
  intro amount first second typed unknown
  obtain ⟨hmerged, hreorder, hunknown⟩ := proto_merges [amount, first, second]
  refine ⟨hmerged, hreorder _ fun n => ?_, hunknown _ rfl⟩
  by_cases h8 : 8 = n
  · subst h8
    rfl
  · simp [amount, List.filter_cons, h8]

end PixRail.Codec
