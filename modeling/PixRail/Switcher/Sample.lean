import PixRail.Switcher.Runs

/-!
# A concrete switch

`json.Marshal` and `sha256.Sum256` at concrete values, and schedules of
single calls, so that a run can be evaluated.

`encodePayload` is `json.Marshal` of a payload map whose texts need no
escape.  `tableDigest` gives the listed digests for the listed inputs, and
makes every other input longer than any digest, so it is injective.
-/

namespace PixRail.Switcher

open Go Rail Events Store Interleave Messaging

/-! ## JSON -/

/-- A text in quotes. -/
def quote (s : GoString) : GoString := go "\"" ++ s ++ go "\""

def encodeValue : JSONValue → GoString
  | .str s => quote s
  | .num n => itoa n
  | .strs l => go "[" ++ join (l.map quote) (go ",") ++ go "]"

/-- The object of a payload map, with the keys in order. -/
def encodePayload (p : Payload) : GoString :=
  let fields := p.insertionSort fun a b => a.1 ≤ b.1
  go "\x7b" ++ join (fields.map fun f => quote f.1 ++ go ":" ++ encodeValue f.2) (go ",") ++
    go "\x7d"

example : encodePayload [(go "score", .num 7), (go "rules", .strs [go "a", go "b"])] =
    go "\x7b\"rules\":[\"a\",\"b\"],\"score\":7\x7d" := by decide +kernel

/-! ## Digests -/

/-- The digests of a table, and an input with 33 more bytes for every input
that is not listed. -/
def tableSum (table : List (GoString × GoString)) (b : GoString) : GoString :=
  match table.lookup b with
  | some d => d
  | none => b ++ List.replicate 33 0

theorem mem_of_lookup {table : List (GoString × GoString)} {b d : GoString}
    (h : table.lookup b = some d) : (b, d) ∈ table := by
  obtain ⟨l₁, l₂, rfl, -⟩ := List.lookup_eq_some_iff.mp h
  simp

theorem tableSum_injective {table : List (GoString × GoString)}
    (hlen : ∀ p ∈ table, p.2.length = 32) (hnodup : (table.map Prod.snd).Nodup) :
    Function.Injective (tableSum table) := by
  intro a b h
  unfold tableSum at h
  cases ha : table.lookup a with
  | some d =>
    have hda : d.length = 32 := hlen _ (mem_of_lookup ha)
    cases hb : table.lookup b with
    | some d' =>
      simp only [ha, hb] at h
      exact congrArg Prod.fst
        (List.inj_on_of_nodup_map hnodup (mem_of_lookup ha) (mem_of_lookup hb) h)
    | none =>
      simp only [ha, hb] at h
      rw [h, List.length_append, List.length_replicate] at hda
      omega
  | none =>
    cases hb : table.lookup b with
    | some d =>
      have hdb : d.length = 32 := hlen _ (mem_of_lookup hb)
      simp only [ha, hb] at h
      rw [← h, List.length_append, List.length_replicate] at hdb
      omega
    | none =>
      simp only [ha, hb] at h
      exact List.append_cancel_right h

theorem tableSum_ne_nil {table : List (GoString × GoString)}
    (hlen : ∀ p ∈ table, p.2.length = 32) (b : GoString) : tableSum table b ≠ [] := by
  intro h
  unfold tableSum at h
  split at h
  · rename_i d hd
    have hdl : d.length = 32 := hlen _ (mem_of_lookup hd)
    rw [h] at hdl
    exact absurd hdl (by decide)
  · simp at h

/-- A switch over a table of digests, with no limiter. -/
def tableEnv (table : List (GoString × GoString)) (hlen : ∀ p ∈ table, p.2.length = 32) :
    Env where
  digest := ⟨tableSum table, tableSum_ne_nil hlen⟩
  marshal := fun p => .ok (encodePayload p)
  Lim := Unit
  allow := fun l _ _ => (true, l)

theorem tableEnv_marshals (table : List (GoString × GoString))
    (hlen : ∀ p ∈ table, p.2.length = 32) : (tableEnv table hlen).Marshals :=
  fun p => ⟨encodePayload p, rfl⟩

/-! ## Schedules of single calls -/

/-- Midnight of 2026-01-01. -/
def newYear : Time := unixEpoch + 1767225600 * second

section schedules

variable {E : Env}

def tick (t : Time) : Input := { now := t }

/-- Sixteen random bytes, all equal to `n`. -/
def draw (t : Time) (n : UInt8) : Input := { now := t, answer := .random (some (.replicate 16 n)) }

/-- The identifier that `newID` makes from `draw`. -/
def drawn (tag : String) (n : UInt8) : GoString :=
  go tag ++ go "_" ++ hexEncode (.replicate 16 n)

/-- `CreateTransfer` up to the fraud decision. -/
def decideLabels (cid : Nat) (t : Time) (req : CreateTransferRequest) (dict : DictEntry)
    (fraud : FraudDecision) : List (Label (switch E)) :=
  [.spawn cid (.createTransfer req), .step cid (tick t), .step cid (tick t), .step cid (tick t),
    .step cid (tick t), .step cid { now := t, answer := .dict (.ok dict) },
    .step cid { now := t, answer := .fraud (.ok fraud) }]

/-- `CreateTransfer` from the fraud decision up to the insert: the transfer
draws `n`, its `events` events draw the numbers after it. -/
def buildLabels (cid : Nat) (t : Time) (n : UInt8) (events : Nat) : List (Label (switch E)) :=
  [.step cid (tick t), .step cid (draw t n)] ++
    (List.range events).flatMap fun k =>
      [.step cid (draw t (n + 1 + UInt8.ofNat k)), .step cid (tick t)]

/-- `SubmitToSPI` up to the claim. -/
def claimLabels (cid : Nat) (t : Time) (n : UInt8) (tenantID transferID : GoString) :
    List (Label (switch E)) :=
  [.spawn cid (.submitToSPI tenantID transferID []), .step cid (draw t n), .step cid (tick t),
    .step cid (tick t)]

/-- `SubmitToSPI` from an answer of the SPI to the record. -/
def recordLabels (cid : Nat) (t : Time) (n : UInt8) (m : SPIMessage) :
    List (Label (switch E)) :=
  [.step cid { now := t, answer := .spi (.ok m) }, .step cid (draw t n), .step cid (tick t),
    .step cid (draw t (n + 1)), .step cid (tick t), .step cid (tick t)]

/-- `RecordSettlement`, for a callback with no time and no correlation id. -/
def settleLabels (cid : Nat) (t : Time) (n : UInt8) (cb : SettlementCallback) :
    List (Label (switch E)) :=
  [.spawn cid (.recordSettlement cb), .step cid (tick t), .step cid (draw t n),
    .step cid (tick t), .step cid (draw t (n + 1)), .step cid (tick t)]

/-- `Drain` up to the claim. -/
def drainLabels (cid : Nat) (t : Time) (n : UInt8) (policy : RetryPolicy) (limit : Int) :
    List (Label (switch E)) :=
  [.spawn cid (.drain policy limit), .step cid (draw t n), .step cid (tick t),
    .step cid (tick t), .step cid (tick t), .step cid (tick t), .step cid (tick t)]

/-- One record of a drain: the answer of the publisher, and the mark. -/
def publishLabels (cid : Nat) (t : Time) (r : Except Err Unit) : List (Label (switch E)) :=
  [.step cid { now := t, answer := .published r }, .step cid (tick t), .step cid (tick t)]

end schedules

/-! ## A payment -/

def sampleRequest : CreateTransferRequest where
  tenantID := go "tenant-a"
  accountID := go "acct-1"
  idempotencyKey := go "idem-1"
  amountCents := 1500
  receiverKey := go "maria@example.com"
  receiverKeyType := .email
  description := go "order 42"

def sampleDict : DictEntry where
  key := go "maria@example.com"
  keyType := .email
  receiverID := go "rcv_1"
  name := go "Maria Silva"
  bankISPB := go "12345678"
  accountHash := go "acct_hash_1"
  riskSignal := 10
  resolvedAt := newYear

def sampleFraud : FraudDecision where
  score := 10
  status := .accepted
  rules := []
  reason := go "risk within payment-rail policy"

/-- The id of the transfer that draws `1`. -/
def sampleID : GoString := drawn "pxt" 1

def sampleMessage : SPIMessage where
  messageID := go "spi_1"
  endToEndID := go "E1"
  transferID := sampleID
  submittedAt := newYear

def sampleCallback : SettlementCallback where
  tenantID := go "tenant-a"
  transferID := sampleID
  spiMessageID := go "spi_1"
  status := .accepted
  code := go "00"

/-- The digests of the sample request and of the sample callback. -/
def sampleTable : List (GoString × GoString) :=
  [(join sampleRequest.fingerprintParts [0],
      [0x97, 0x51, 0xfb, 0x82, 0x99, 0xe2, 0x43, 0x99, 0xd6, 0x73, 0xc4, 0x3e, 0x5c, 0x28, 0xdc,
        0x15, 0xd4, 0x4a, 0xa8, 0x88, 0x73, 0x3e, 0xdc, 0xc5, 0xbb, 0x58, 0xe9, 0xe9, 0xe1, 0xdc,
        0xa2, 0x10]),
    (join (sampleCallback.fingerprintParts) [0],
      [0x6c, 0xb9, 0x4a, 0xa6, 0xb8, 0xb9, 0xba, 0xfd, 0x90, 0x53, 0x0d, 0xc9, 0xaa, 0xca, 0x09,
        0x86, 0x80, 0x97, 0xc4, 0xc4, 0x82, 0xa0, 0xf3, 0xd3, 0x93, 0x3b, 0x8e, 0x0b, 0xee, 0x60,
        0xbb, 0xa6])]

theorem sampleTable_length : ∀ p ∈ sampleTable, p.2.length = 32 := by
  decide +kernel

/-- A switch with the digests of the sample payment. -/
def sampleEnv : Env := tableEnv sampleTable sampleTable_length

/-- `CreateTransfer` of the sample payment, which appends five records. -/
def createLabels : List (Label (switch sampleEnv)) :=
  decideLabels 0 newYear sampleRequest sampleDict sampleFraud ++ buildLabels 0 newYear 1 5 ++
    [.step 0 (tick newYear)]

/-- The sample payment from its request to its settlement. -/
def paymentLabels : List (Label (switch sampleEnv)) :=
  decideLabels 0 newYear sampleRequest sampleDict sampleFraud ++ buildLabels 0 newYear 1 5 ++
    [.step 0 (tick newYear)] ++ claimLabels 1 newYear 7 (go "tenant-a") sampleID ++
    recordLabels 1 newYear 8 sampleMessage ++ settleLabels 2 newYear 10 sampleCallback

set_option maxRecDepth 20000 in
theorem payment_isSome :
    ((World.init (State.initial sampleEnv none none)).exec paymentLabels).isSome := by
  decide +kernel

/-- The replay flag of a successful result. -/
def replayFlag : Outcome → Option Bool
  | .result (.ok res) => some res.idempotentReplay
  | _ => none

/-- The error of a result. -/
def failure : Outcome → Option Err
  | .result (.error e) => some e
  | _ => none

/-- What a drain counted, and the text of its error. -/
def drained : Outcome → Option (RelayStats × Option GoString)
  | .stats r => some (r.1, r.2.map (·.text))
  | _ => none

/-- The trace and the world of the sample payment. -/
def payment : Trace (switch sampleEnv) × World (switch sampleEnv) :=
  World.ran _ paymentLabels payment_isSome

theorem payment_runs : Runs sampleEnv none none payment.1 payment.2 :=
  World.run_ran _ _ _

end PixRail.Switcher
