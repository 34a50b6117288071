import Mathlib.Algebra.Ring.Int.Defs
import PixRail.Dict.Resolver
import PixRail.Lifecycle.Clearance

/-!
# The fraud policy

`internal/fraud/engine.go`, the scorer that the repository ships, on top of
the resolver of `Dict`.  `decision_table` is the policy that the two make
together, and `policy_enforced` is that a switch with these two ports keeps
to it: what a stored transfer says of its score can be computed again from
its order, a transfer that the policy blocks stays blocked and is never sent.
-/

namespace PixRail.Fraud

open Go Rail Events Store Interleave Switcher Lifecycle Dict

/-! ## The engine -/

/-- One rule: it adds its points and its name if it hits. -/
def addRule (hit : Prop) [Decidable hit] (points : Int) (name : GoString)
    (acc : Int × List GoString) : Int × List GoString :=
  if hit then (wrap64 (acc.1 + points), acc.2 ++ [name]) else acc

/-- The score and the rules that hit. -/
def tally (amountCents : Int) (accountID : GoString) (riskSignal : Int)
    (accountHash : GoString) : Int × List GoString :=
  let acc := (riskSignal, [])
  let acc := addRule (1000000 ≤ amountCents) 40 (go "amount_high") acc
  let acc := addRule (500000 ≤ amountCents) 15 (go "amount_review") acc
  let acc := addRule (80 ≤ riskSignal) 35 (go "dict_high_risk") acc
  addRule (accountID = accountHash) 25 (go "self_transfer_hash_match") acc

/-- The decision on what `Score` reads of its arguments. -/
def decision (amountCents : Int) (accountID : GoString) (riskSignal : Int)
    (accountHash : GoString) : FraudDecision :=
  let (score, rules) := tally amountCents accountID riskSignal accountHash
  if 90 ≤ score then
    { score := score, status := .blocked, rules := rules, reason := go "blocked by fraud policy" }
  else if 65 ≤ score then
    { score := score, status := .review, rules := rules, reason := go "manual review required" }
  else
    { score := score, status := .accepted, rules := rules,
      reason := go "risk within payment-rail policy" }

/-- `RulesEngine.Score`. -/
def score (transfer : CreateTransferRequest) (dict : DictEntry) : Except Err FraudDecision :=
  .ok (decision transfer.amountCents transfer.accountID dict.riskSignal dict.accountHash)

/-- The points of a rule. -/
def points (rule : GoString) : Int :=
  if rule = go "amount_high" then 40
  else if rule = go "amount_review" then 15
  else if rule = go "dict_high_risk" then 35
  else if rule = go "self_transfer_hash_match" then 25
  else 0

/-! ## The score -/

/-- The score is the risk and the points of the rules, at most `most` in
all. -/
structure Tallied (risk most : Int) (acc : Int × List GoString) : Prop where
  sum : acc.1 = risk + (acc.2.map points).sum
  low : risk ≤ acc.1
  high : acc.1 ≤ risk + most

theorem Tallied.addRule {risk most p : Int} {acc : Int × List GoString} {name : GoString}
    {hit : Prop} [Decidable hit] (h : Tallied risk most acc) (hp : points name = p)
    (h₀ : 0 ≤ p) (hlow : -2 ^ 63 ≤ risk) (hhigh : risk + (most + p) < 2 ^ 63) :
    Tallied risk (most + p) (addRule hit p name acc) := by
  have hsum := h.sum
  have hl := h.low
  have hh := h.high
  unfold Fraud.addRule
  split
  · have hfits : wrap64 (acc.1 + p) = acc.1 + p := wrap64_of_fits (by omega) (by omega)
    rw [hfits]
    refine ⟨?_, ?_, ?_⟩
    · simp only [List.map_append, List.sum_append, List.map_cons, List.map_nil,
        List.sum_cons, List.sum_nil, hp]
      omega
    · show risk ≤ acc.1 + p
      omega
    · show acc.1 + p ≤ risk + (most + p)
      omega
  · exact ⟨hsum, hl, by omega⟩

/-- No sum wraps, for the risks of the DICT. -/
theorem tally_sum {risk : Int} (hlow : 0 ≤ risk) (hhigh : risk ≤ 92) (amount : Int)
    (account hash : GoString) :
    Tallied risk (0 + 40 + 15 + 35 + 25) (tally amount account risk hash) := by
  have hstart : Tallied risk 0 (risk, []) := ⟨by simp, by simp, by simp⟩
  have hfits : -2 ^ 63 ≤ risk := by omega
  unfold tally
  refine Tallied.addRule (Tallied.addRule (Tallied.addRule (Tallied.addRule hstart ?_ ?_ hfits ?_)
    ?_ ?_ hfits ?_) ?_ ?_ hfits ?_) ?_ ?_ hfits ?_
  all_goals first | omega | decide +kernel

/-- The rules that hit, in the order of the engine. -/
theorem tally_rules (amount risk : Int) (account hash : GoString) :
    (tally amount account risk hash).2 =
      (if 1000000 ≤ amount then [go "amount_high"] else []) ++
      (if 500000 ≤ amount then [go "amount_review"] else []) ++
      (if 80 ≤ risk then [go "dict_high_risk"] else []) ++
      (if account = hash then [go "self_transfer_hash_match"] else []) := by
  simp only [tally, addRule]
  split_ifs <;> rfl

theorem tally_score {risk : Int} (hlow : 0 ≤ risk) (hhigh : risk ≤ 92) (amount : Int)
    (account hash : GoString) :
    (tally amount account risk hash).1 = risk + ((if 1000000 ≤ amount then 40 else 0) +
      (if 500000 ≤ amount then 15 else 0) + (if 80 ≤ risk then 35 else 0) +
      (if account = hash then 25 else 0)) := by
  have hpoints : points (go "amount_high") = 40 ∧ points (go "amount_review") = 15 ∧
      points (go "dict_high_risk") = 35 ∧ points (go "self_transfer_hash_match") = 25 := by
    decide +kernel
  obtain ⟨h₁, h₂, h₃, h₄⟩ := hpoints
  rw [(tally_sum hlow hhigh amount account hash).sum, tally_rules]
  split_ifs <;> simp [h₁, h₂, h₃, h₄]

/-- The status of a decision is a matter of its score. -/
theorem decision_status (amount risk : Int) (account hash : GoString) :
    (decision amount account risk hash).status =
      if 90 ≤ (tally amount account risk hash).1 then .blocked
      else if 65 ≤ (tally amount account risk hash).1 then .review else .accepted := by
  unfold decision
  dsimp only
  split_ifs <;> rfl

section policy

variable {H : Digest} {lower : GoString → GoString}

theorem riskSignal_range (tenant key : GoString) :
    0 ≤ riskSignal H lower tenant key ∧ riskSignal H lower tenant key ≤ 92 := by
  by_cases h : HighRisk lower key
  · simp [riskSignal_of_highRisk h]
  · have hbound : 0 ≤ riskSignal H lower tenant key ∧ riskSignal H lower tenant key ≤ 34 :=
      riskSignal_bound h
    omega

end policy

/-! ## Runs -/

section runs

variable {E : Env} {tl dl : Option E.Lim} {tr : Trace (switch E)} {w : World (switch E)}
  {lower : GoString → GoString}

/-- The entry has the answer of the shipped resolver, or of the shipped
scorer. -/
def Shipped (lower : GoString → GoString) : Ev (switch E) → Prop
  | .act _ ⟨.resolve tenantID key keyType, i, r⟩ =>
    ∃ (resolver : StaticResolver) (waits : Waits),
      r = resolver.resolve E.digest lower waits i.now tenantID key keyType
  | .act _ ⟨.score req dict, _, r⟩ => r = score req dict
  | _ => True

/-- What the policy says of the order of a transfer. -/
def assessment (H : Digest) (lower : GoString → GoString) (t : Transfer) : FraudDecision :=
  decision t.amountCents t.accountID (riskSignal H lower t.tenantID t.receiverKey)
    (accountHash H lower t.tenantID t.receiverKey)

/-- What a transfer says of its receiver and its score is what the policy says
of its order. -/
structure Assessed (H : Digest) (lower : GoString → GoString) (t : Transfer) : Prop where
  listed : ¬ Unlisted lower t.receiverKey
  receiver : ∃ now,
    let e := entry H lower t.tenantID t.receiverKey t.receiverKeyType now
    t.receiverName = e.name ∧ t.receiverBank = e.bankISPB ∧ t.receiverRisk = e.riskSignal
  score : t.fraudScore = (assessment H lower t).score
  rules : t.fraudRules = (assessment H lower t).rules
  points : t.fraudScore = t.receiverRisk + (t.fraudRules.map points).sum

/-- The status of a transfer follows from the policy and the reviews. -/
structure Enforced (lower : GoString → GoString) (tr : Trace (switch E)) (t : Transfer) :
    Prop where
  assessed : Assessed E.digest lower t
  accepted : (assessment E.digest lower t).status = .accepted → Through t.status
  blocked : (assessment E.digest lower t).status = .blocked → t.status = .blocked
  review : (assessment E.digest lower t).status = .review →
    t.status = .review ∨ ReviewedAs tr t .approve ∧ Through t.status ∨
      ReviewedAs tr t .block ∧ t.status = .blocked

theorem decision_score (amount risk : Int) (account hash : GoString) :
    (decision amount account risk hash).score = (tally amount account risk hash).1 ∧
      (decision amount account risk hash).rules = (tally amount account risk hash).2 := by
  unfold decision
  dsimp only
  split_ifs <;> exact ⟨rfl, rfl⟩

/-- A transfer that the shipped ports were asked about is assessed. -/
theorem scored_assessed (hports : ∀ e ∈ tr, Shipped lower e) {t : Transfer}
    {status : TransferStatus} (h : Scored tr t status) :
    Assessed E.digest lower t ∧ (assessment E.digest lower t).status = status := by
  obtain ⟨cid, req, at_, now, dict, dec, -, ⟨i, hdict⟩, ⟨i', hscore⟩, hsame, hstatus⟩ := h
  obtain ⟨resolver, waits, hr⟩ := hports _ (mem_hist.mp hdict)
  have hs : Except.ok dec = score (normalize req at_) dict := hports _ (mem_hist.mp hscore)
  obtain ⟨hlisted, rfl⟩ := StaticResolver.resolve_eq_ok hr.symm
  have hdec : dec = assessment E.digest lower t := by
    rw [assessment, hsame.amountCents, hsame.accountID, hsame.tenantID, hsame.receiverKey]
    exact Except.ok.inj hs
  have hkey : t.receiverKey = trimSpace req.receiverKey := hsame.receiverKey
  have htenant : t.tenantID = trimSpace req.tenantID := hsame.tenantID
  have htype : t.receiverKeyType = req.receiverKeyType := hsame.receiverKeyType
  have hsc : t.fraudScore = (assessment E.digest lower t).score := by
    rw [hsame.fraudScore, ← hdec]
    rfl
  have hru : t.fraudRules = (assessment E.digest lower t).rules := by
    rw [hsame.fraudRules, ← hdec]
    rfl
  have hri : t.receiverRisk = riskSignal E.digest lower t.tenantID t.receiverKey := by
    rw [hsame.receiverRisk, hkey, htenant]
    rfl
  refine ⟨⟨hkey ▸ hlisted, ⟨i.now, ?_⟩, hsc, hru, ?_⟩, hdec ▸ hstatus⟩
  · rw [hkey, htenant, htype]
    exact ⟨hsame.receiverName, hsame.receiverBank, hsame.receiverRisk⟩
  · rw [hsc, hru, hri, assessment, (decision_score _ _ _ _).1, (decision_score _ _ _ _).2]
    exact (tally_sum (riskSignal_range _ _).1 (riskSignal_range _ _).2 _ _ _).sum

theorem runs_enforced (h : Runs E tl dl tr w) (hports : ∀ e ∈ tr, Shipped lower e)
    {id : GoString} {t : Transfer} (hl : w.state.store.transfers.lookup id = some t) :
    Enforced lower tr t := by
  obtain ⟨cid, t₀, evs, auds, i, ha, hsame, hex⟩ := runs_explained h hl
  obtain ⟨hassessed, hstatus⟩ := scored_assessed hports (insert_scored h ha hsame)
  -- the assessment is the status that the transfer was inserted with
  constructor
  · exact hassessed
  · intro he
    rw [hstatus] at he
    cases hex with
    | passed _ h => exact h
    | blocked h₀ | held h₀ | approved h₀ | refused h₀ => exact absurd (he.symm.trans h₀) (by simp)
  · intro he
    rw [hstatus] at he
    cases hex with
    | blocked _ h => exact h
    | passed h₀ | held h₀ | approved h₀ | refused h₀ => exact absurd (he.symm.trans h₀) (by simp)
  · intro he
    rw [hstatus] at he
    cases hex with
    | held _ h => exact .inl h
    | approved _ hr h' => exact .inr (.inl ⟨reviewed_approve h hr, h'⟩)
    | refused _ hr h' => exact .inr (.inr ⟨reviewed_block h hr, h'⟩)
    | passed h₀ | blocked h₀ => exact absurd (he.symm.trans h₀) (by simp)

/-- A switch with the shipped ports keeps to the policy: every stored transfer
has the score and the status that the policy gives it, and what is sent to
the SPI is never what the policy blocks, and only after an approval what it
wants to be reviewed. -/
theorem policy_enforced (h : Runs E tl dl tr w) (hports : ∀ e ∈ tr, Shipped lower e) :
    (∀ id t, w.state.store.transfers.lookup id = some t → Enforced lower tr t) ∧
      ∀ t₁ t₂ cid t i r, tr = t₁ ++ actEv cid (.submit t) i r :: t₂ →
        (assessment E.digest lower t).status = .accepted ∨
          (assessment E.digest lower t).status = .review ∧ ReviewedAs t₁ t .approve := by
  refine ⟨fun id t hl => runs_enforced h hports hl, ?_⟩
  rintro t₁ t₂ cid t i r rfl
  obtain ⟨t₀, t₃, w₁, rfl, h₁, hl, hst⟩ := submitted_stored h
  have hports₁ : ∀ e ∈ t₀, Shipped lower e :=
    fun e he => hports e (List.mem_append_left _ (List.mem_append_left _ he))
  rcases runs_let_through h₁ hl (.inl hst) with hs | ⟨hs, hr⟩
  · exact .inl (scored_assessed hports₁ hs).2
  · exact .inr ⟨(scored_assessed hports₁ hs).2, hr.mono⟩

end runs

/-! ## A run with the shipped ports -/

/-- A request over 15,000 reais, which the policy wants to be reviewed. -/
def largeRequest : CreateTransferRequest := { sampleRequest with amountCents := 1500000 }

/-- The answer of the resolver to the request. -/
def largeDict : DictEntry :=
  entry sampleEnv.digest id largeRequest.tenantID largeRequest.receiverKey
    largeRequest.receiverKeyType newYear

/-- The decision of the scorer. -/
def largeFraud : FraudDecision :=
  decision largeRequest.amountCents largeRequest.accountID largeDict.riskSignal
    largeDict.accountHash

set_option maxRecDepth 20000 in
theorem large_isSome :
    ((World.init (State.initial sampleEnv none none)).exec
      (reviewedLabels largeRequest largeDict largeFraud)).isSome := by
  decide +kernel

/-- The trace and the world of the large transfer. -/
def large : Trace (switch sampleEnv) × World (switch sampleEnv) :=
  World.ran _ _ large_isSome

theorem large_runs : Runs sampleEnv none none large.1 large.2 := World.run_ran _ _ _

/-- The answer of a resolver without latency to a live context. -/
def Prompt : Ev (switch sampleEnv) → Prop
  | .act _ ⟨.resolve tenantID key keyType, i, r⟩ =>
    r = StaticResolver.resolve sampleEnv.digest id {} ⟨fun _ => none, fun _ => none⟩ i.now
      tenantID key keyType
  | .act _ ⟨.score req dict, _, r⟩ => r = score req dict
  | _ => True

instance : DecidablePred Prompt
  | .act _ ⟨.resolve _ _ _, _, _⟩ => inferInstanceAs (Decidable (_ = _))
  | .act _ ⟨.score _ _, _, _⟩ => inferInstanceAs (Decidable (_ = _))
  | .spawn _ _ | .act _ ⟨.now, _, _⟩ | .act _ ⟨.newID _, _, _⟩ | .act _ ⟨.health, _, _⟩
  | .act _ ⟨.tenantAllow _, _, _⟩ | .act _ ⟨.dictAllow _, _, _⟩ | .act _ ⟨.submit _, _, _⟩
  | .act _ ⟨.publish _, _, _⟩ | .act _ ⟨.store _, _, _⟩ => .isTrue trivial

theorem Prompt.shipped {e : Ev (switch sampleEnv)} (h : Prompt e) : Shipped id e := by
  cases e with
  | spawn cid c => trivial
  | act cid a =>
    obtain ⟨o, i, r⟩ := a
    cases o with
    | resolve tenantID key keyType => exact ⟨_, _, h⟩
    | score req dict => exact h
    | _ => trivial

/-- The large transfer is stored with a score of 66. -/
theorem policy_enforced_large :
    ∃ t, large.2.state.store.transfers.lookup sampleID = some t ∧ t.fraudScore = 66 ∧
      Enforced id large.1 t := by
  have hscore : (large.2.state.store.transfers.lookup sampleID).map (·.fraudScore) =
      some 66 := by
    decide +kernel
  obtain ⟨t, ht, hscore⟩ := Option.map_eq_some_iff.mp hscore
  have hprompt : ∀ e ∈ large.1, Prompt e := by decide +kernel
  have hports : ∀ e ∈ large.1, Shipped id e := fun e he => (hprompt e he).shipped
  exact ⟨t, ht, hscore, (policy_enforced large_runs hports).1 sampleID t ht⟩

end PixRail.Fraud
