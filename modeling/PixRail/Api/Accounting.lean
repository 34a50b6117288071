import Mathlib.Algebra.BigOperators.Ring.Finset
import PixRail.Api.Responses
import PixRail.Interleave.Account

/-!
# What the metrics say

The metrics are written by every request on its own, in any interleaving.
When no request is in flight they are exact: a counter of requests is the
number of responses with its label, the latency of a label has the samples of
its last requests (`requests_counted`), and the counter of the outbox is the
number of the records that requests appended (`outbox_counted`).
-/

namespace PixRail.Api

open Go Config Rail Events Store Interleave Switcher

open scoped List

section server

variable {E : Env} {srv : Server} {L : ServerLib} {tl dl : Option E.Lim} {t₀ : Time}
  {tr : Trace (server E srv L).system} {w : World (server E srv L).system} {v : World (switch E)}
  {cid : Nat}

/-! ## Observations -/

/-- What an operation notes in the metrics. -/
def noting (a : Action (layerSig (switch E) serverSig) (Input ⊕ ServerInput)) : List Observation :=
  match a.op with
  | .own (.observe o) => [o]
  | _ => []

/-- What a run noted in the metrics. -/
def observed (tr : Trace (server E srv L).system) : List Observation := (acts tr).flatMap noting

theorem observedAll_snoc (m : Metrics) (l : List Observation) (o : Observation) :
    observedAll m (l ++ [o]) = (observedAll m l).observe o := by
  rw [observedAll, List.foldl_append]
  rfl

/-- The metrics are those of what was noted, in its order. -/
theorem metrics_observed (h : ServerRuns E srv L tl dl t₀ tr w) :
    w.state.2 = observedAll (newMetrics t₀) (observed tr) := by
  induction h with
  | nil => rfl
  | @snoc tr w w' e hrun hstep ih =>
    cases hstep with
    | spawn d hfree => rwa [observed, acts_snoc_spawn]
    | @act cid d o k i r s' hthread hhandle =>
      rw [observed, acts_snoc_act, List.flatMap_append, List.flatMap_singleton, ← observed,
        World.put_state]
      cases o with
      | inner o =>
        obtain ⟨i', -, -, hm⟩ := Layer.answer_inner hhandle
        rw [hm, ih]
        simp [noting]
      | enter c =>
        obtain ⟨-, rfl⟩ := Layer.answer_enter hhandle
        rw [ih]
        simp [noting]
      | own q =>
        obtain ⟨i', -, hq, -⟩ := Layer.answer_own hhandle
        cases q with
        | observe o =>
          obtain ⟨-, hm⟩ := Prod.mk.inj (Option.some.inj hq)
          rw [← hm, ih, ← observedAll_snoc]
          rfl
        | now | health | outbox | metrics =>
          obtain ⟨-, hm⟩ := Prod.mk.inj (Option.some.inj hq)
          rw [← hm, ih]
          simp [noting]

/-- The operations of the server note what they observe, those of the switch
nothing. -/
theorem noting_own (g : LocalHistory) :
    (g.map (server E srv L).ownAct).flatMap noting = observations g := by
  rw [observations, List.filterMap_eq_flatMap_toList, List.flatMap_map]
  refine List.flatMap_congr fun a _ => ?_
  obtain ⟨o, i, r⟩ := a
  cases o <;> rfl

theorem noting_inner (h' : History) : (h'.map (server E srv L).innerAct).flatMap noting = [] := by
  rw [List.flatMap_map]
  exact List.flatMap_eq_nil_iff.mpr fun _ _ => rfl

/-! ## Requests and responses -/

/-- A request with its response. -/
abbrev Exchange := HttpRequest × HttpResponse

/-- The request of call `cid` with its response, once it is answered. -/
def exchangeOf (w : World (server E srv L).system) (cid : Nat) : Option Exchange :=
  match w.threads cid with
  | some ⟨.request r, .ret (.response resp)⟩ => some (r, resp)
  | _ => none

/-- The requests of a run with their responses. -/
def exchanges (tr : Trace (server E srv L).system) (w : World (server E srv L).system) :
    List Exchange :=
  (spawned tr).filterMap fun p => exchangeOf w p.1

theorem exchangeOf_eq_some {x : Exchange} :
    exchangeOf w cid = some x ↔ Responded w cid x.1 x.2 := by
  unfold exchangeOf
  constructor
  · intro h
    split at h
    · rename_i r resp hth
      cases h
      exact hth
    · cases h
  · intro h
    rw [h]

/-- No request is in flight. -/
def Answered (w : World (server E srv L).system) : Prop :=
  ∀ cid r p, w.threads cid = some ⟨.request r, p⟩ → ∃ o, p = .ret o

/-- What lies behind a response, with what the request noted before it was
counted. -/
inductive Notes (srv : Server) (L : ServerLib) (v : World (switch E)) (cid : Nat)
    (r : HttpRequest) (resp : HttpResponse) : List Observation → Prop where
  | alone {g : LocalHistory} (hv : v.threads cid = none) (hdirect : Direct srv r g resp.toReply) :
      Notes srv L v cid r resp []
  | served {c : Call} {out : Outcome} (hret : Returned v cid c out) (hc : Authorised srv L r c)
      (hreply : resp.toReply = replyTo c out) : Notes srv L v cid r resp (noted out)

/-- The time between two clock readings of call `cid`. -/
def Clocked (tr : Trace (server E srv L).system) (cid : Nat) (elapsed : Duration) : Prop :=
  ∃ started ended, Did (hist cid tr) (.own .now) started ∧ Did (hist cid tr) (.own .now) ended ∧
    elapsed = timeSub ended started

theorem Timed.clocked {g g' : LocalHistory} {elapsed : Duration} (ht : Timed g g' elapsed)
    (hg : g.map (server E srv L).ownAct ⊆ hist cid tr)
    (hg' : g'.map (server E srv L).ownAct ⊆ hist cid tr) : Clocked tr cid elapsed := by
  obtain ⟨started, ended, ⟨i, hi⟩, ⟨i', hi'⟩, he⟩ := ht
  exact ⟨started, ended, ⟨.inr i, hg (List.mem_map_of_mem hi)⟩,
    ⟨.inr i', hg' (List.mem_map_of_mem hi')⟩, he⟩

/-- A request notes the outcome of its service call, and is counted last. -/
theorem noted_of_responded (hb : Below tl dl tr w v) {r : HttpRequest} {resp : HttpResponse}
    (hresp : Responded w cid r resp) :
    ∃ notes elapsed, (hist cid tr).flatMap noting = notes ++ [r.counted resp.status elapsed] ∧
      Notes srv L v cid r resp notes ∧ Clocked tr cid elapsed := by
  rcases answered hb hresp with ⟨g, hh, hv, hdirect, elapsed, htimed, hobs⟩ |
    ⟨g, c, i, h', out, g', hh, hret, hc, hreply, hg, elapsed, htimed, hobs⟩
  · have hsub : g.map (server E srv L).ownAct ⊆ hist cid tr := by
      rw [hh]
      exact List.Subset.refl _
    refine ⟨[], elapsed, ?_, .alone hv hdirect, htimed.clocked hsub hsub⟩
    rw [hh, noting_own, hobs]
    rfl
  · refine ⟨noted out, elapsed, ?_, .served hret hc hreply, htimed.clocked ?_ ?_⟩
    · rw [hh, List.flatMap_append, List.flatMap_append, List.flatMap_cons, noting_own, noting_own,
        noting_inner, hg, hobs]
      rfl
    · rw [hh, List.append_assoc]
      exact List.subset_append_left _ _
    · rw [hh]
      exact List.subset_append_right _ _

/-- A batch notes nothing. -/
theorem batch_silent (hb : Below tl dl tr w v) {d : Incoming} {c : Call}
    (hd : srv.body L d = background (E := E) c) {p : Prog (layerSig (switch E) serverSig) Outgoing}
    (hth : w.threads cid = some ⟨d, p⟩) : (hist cid tr).flatMap noting = [] := by
  have hret : ∀ {g : LocalHistory} {f : Front (switch E) serverSig Outgoing},
      (srv.body L d).After g f → g = [] ∧ f = background c := by
    intro g f hafter
    rw [hd] at hafter
    exact hafter.of_ret
  cases (hb.stage cid).2 d p hth with
  | before hfront hh hp hth =>
    rw [hh, noting_own, (hret hfront).1]
    rfl
  | during hfront hbody hh hp hth =>
    rw [hh, List.flatMap_append, List.flatMap_cons, noting_own, noting_inner, (hret hfront).1]
    rfl
  | after hfront hbody hafter hh hp hth =>
    obtain ⟨rfl, hsv⟩ := hret hfront
    cases hsv
    rw [hh, List.flatMap_append, List.flatMap_append, List.flatMap_cons, noting_own, noting_own,
      noting_inner, hafter.of_ret.1]
    rfl

/-- When no request is in flight, every request has its response. -/
theorem responded_of_spawned (h : ServerRuns E srv L tl dl t₀ tr w) (hb : Below tl dl tr w v)
    (hans : Answered w) {r : HttpRequest} (hp : (cid, .request r) ∈ spawned tr) :
    ∃ resp, Responded w cid r resp := by
  obtain ⟨prog, hth⟩ := h.thread_of_spawn (mem_spawned.mp hp)
  obtain ⟨o, rfl⟩ := hans cid r prog hth
  cases o with
  | response resp => exact ⟨resp, hth⟩
  | finished out =>
    rcases answered hb hth with ⟨g, -, -, hno⟩ | ⟨g, c, i, h', out', g', -, -, -, hno⟩
    · exact hno.elim
    · exact hno.elim

/-- Only an answered request has noted anything. -/
theorem silent (h : ServerRuns E srv L tl dl t₀ tr w) (hb : Below tl dl tr w v)
    (hans : Answered w) {p : Nat × Incoming} (hp : p ∈ spawned tr)
    (hnone : exchangeOf w p.1 = none) : (hist p.1 tr).flatMap noting = [] := by
  obtain ⟨cid, d⟩ := p
  cases d with
  | request r =>
    obtain ⟨resp, hresp⟩ := responded_of_spawned h hb hans hp
    rw [exchangeOf_eq_some (x := (r, resp)) |>.mpr hresp] at hnone
    cases hnone
  | submitPendingSPI limit | drain policy limit =>
    obtain ⟨prog, hth⟩ := h.thread_of_spawn (mem_spawned.mp hp)
    exact batch_silent hb rfl hth

/-- No request is in flight when every call has returned. -/
theorem answered_of_all (h : ServerRuns E srv L tl dl t₀ tr w)
    (hall : (spawned tr).all (fun p =>
      match w.threads p.1 with
      | some ⟨_, .ret _⟩ => true
      | _ => false) = true) : Answered w := by
  intro cid r p hth
  have hp := List.all_eq_true.mp hall _ (mem_spawned.mpr (h.thread hth).1)
  dsimp only at hp
  rw [hth] at hp
  cases p with
  | ret o => exact ⟨o, rfl⟩
  | call o k => cases hp

/-! ## Totals -/

theorem sum_map_flatMap {α β : Type} (l : List α) (f : α → List β) (amount : β → Int) :
    ((l.flatMap f).map amount).sum = (l.map fun a => ((f a).map amount).sum).sum := by
  induction l with
  | nil => rfl
  | cons a l ih =>
    rw [List.flatMap_cons, List.map_append, List.sum_append, ih, List.map_cons, List.sum_cons]

theorem sum_map_filterMap {α β : Type} (l : List α) (f : α → Option β) (amount : β → Int) :
    ((l.filterMap f).map amount).sum = (l.map fun a => ((f a).map amount).getD 0).sum := by
  induction l with
  | nil => rfl
  | cons a l ih =>
    rw [List.map_cons, List.sum_cons, ← ih]
    cases ha : f a with
    | none => simp [ha]
    | some b => simp [ha]

theorem sum_map_ite {α : Type} (l : List α) (P : α → Prop) [DecidablePred P] :
    (l.map fun a => if P a then (1 : Int) else 0).sum = l.countP P := by
  induction l with
  | nil => rfl
  | cons a l ih =>
    rw [List.map_cons, List.sum_cons, ih, List.countP_cons]
    by_cases ha : P a
    · simp [ha, add_comm]
    · simp [ha]

/-- A total over what a run noted is the total over its calls. -/
theorem sum_observed (h : ServerRuns E srv L tl dl t₀ tr w) (amount : Observation → Int) :
    ((observed tr).map amount).sum =
      ((spawned tr).map fun p => (((hist p.1 tr).flatMap noting).map amount).sum).sum := by
  rw [observed, ((h.acts_perm.flatMap_right noting).map amount).sum_eq, List.flatMap_assoc,
    sum_map_flatMap]

/-- When no request is in flight, it is the total over the responses. -/
theorem sum_exchanges (h : ServerRuns E srv L tl dl t₀ tr w) (hb : Below tl dl tr w v)
    (hans : Answered w) (amount : Observation → Int) (value : Exchange → Int)
    (hvalue : ∀ {cid r resp notes elapsed}, Notes srv L v cid r resp notes →
      ((notes ++ [r.counted resp.status elapsed]).map amount).sum = value (r, resp)) :
    ((observed tr).map amount).sum = ((exchanges tr w).map value).sum := by
  rw [sum_observed h, exchanges, sum_map_filterMap]
  refine congrArg List.sum (List.map_congr_left fun p hp => ?_)
  cases hx : exchangeOf w p.1 with
  | none =>
    rw [silent h hb hans hp hx]
    rfl
  | some x =>
    obtain ⟨notes, elapsed, hnotes, hbehind, -⟩ := noted_of_responded hb (exchangeOf_eq_some.mp hx)
    rw [hnotes]
    exact hvalue hbehind

/-! ## Requests -/

/-- What a request notes before it is counted is no count of a request. -/
theorem sum_counted {r : HttpRequest} {resp : HttpResponse} {notes : List Observation}
    (hnotes : Notes srv L v cid r resp notes) {amount : Observation → Int}
    (hdecision : ∀ status, amount (.decision status) = 0) (hevents : ∀ n, amount (.events n) = 0)
    (o : Observation) : ((notes ++ [o]).map amount).sum = amount o := by
  have hzero : (notes.map amount).sum = 0 := by
    cases hnotes with
    | alone hv hdirect => rfl
    | @served c out hret hc hreply =>
      unfold noted
      split
      · simp [hdecision, hevents]
      · rfl
  rw [List.map_append, List.sum_append, hzero]
  simp

/-- The label of a request without its status. -/
def Exchange.route (x : Exchange) : GoString := latencyKey x.1.method (routeLabel x.1.path)

/-- The label of a request. -/
def Exchange.label (x : Exchange) : GoString :=
  requestKey x.1.method (routeLabel x.1.path) x.2.status

/-- The number of samples in an observation. -/
def samplesOf (key : GoString) (o : Observation) : Int := (sampleOf key o).toList.length

theorem length_samples (key : GoString) (l : List Observation) :
    ((l.filterMap (sampleOf key)).length : Int) = (l.map (samplesOf key)).sum := by
  induction l with
  | nil => rfl
  | cons o l ih =>
    rw [List.map_cons, List.sum_cons, ← ih, samplesOf]
    cases ho : sampleOf key o with
    | none => simp [ho]
    | some d =>
      simp [ho]
      omega

/-- A sample is the time of an answered request with its route. -/
theorem sample_clocked (h : ServerRuns E srv L tl dl t₀ tr w) (hb : Below tl dl tr w v)
    (hans : Answered w) {key : GoString} {d : Duration}
    (hd : d ∈ (observed tr).filterMap (sampleOf key)) :
    ∃ cid x, exchangeOf w cid = some x ∧ x.route = key ∧ Clocked tr cid d := by
  obtain ⟨o, ho, hsample⟩ := List.mem_filterMap.mp hd
  have hmem := (h.acts_perm.flatMap_right noting).mem_iff.mp ho
  rw [List.flatMap_assoc] at hmem
  obtain ⟨p, hp, ho⟩ := List.mem_flatMap.mp hmem
  cases hx : exchangeOf w p.1 with
  | none =>
    rw [silent h hb hans hp hx] at ho
    cases ho
  | some x =>
    obtain ⟨notes, elapsed, hnotes, hbehind, hclock⟩ :=
      noted_of_responded hb (exchangeOf_eq_some.mp hx)
    rw [hnotes, List.mem_append, List.mem_singleton] at ho
    rcases ho with ho | rfl
    · -- what is noted before has no sample
      cases hbehind with
      | alone hv hdirect => cases ho
      | served hret hc hreply =>
        unfold noted at ho
        split at ho
        · simp only [List.mem_cons, List.not_mem_nil, or_false] at ho
          rcases ho with rfl | rfl <;> cases hsample
        · cases ho
    · simp only [HttpRequest.counted, sampleOf, Option.ite_none_right_eq_some,
        Option.some.injEq] at hsample
      obtain ⟨hkey, rfl⟩ := hsample
      exact ⟨p.1, x, hx, hkey, hclock⟩

/-- In every run, when no request is in flight, the counter of a label is the
number of the responses with this label, as an `int64`.  The latency of a
route is the window of the last of its samples, of which there is one for
each response, and each of them is the time between two clock readings of its
request. -/
theorem requests_counted (h : ServerRuns E srv L tl dl t₀ tr w) (hans : Answered w)
    (key : GoString) :
    counter w.state.2.requests key =
        wrap64 ((exchanges tr w).countP fun x => x.label = key) ∧
      ∃ samples, (w.state.2.latency.lookup key).getD [] = window samples ∧
        samples.length = ((exchanges tr w).countP fun x => x.route = key) ∧
        ∀ d ∈ samples, ∃ cid x, exchangeOf w cid = some x ∧ x.route = key ∧ Clocked tr cid d := by
  obtain ⟨v, hb⟩ := exists_below h
  rw [metrics_observed h, requests_observedAll, latency_observedAll]
  constructor
  · rw [← sum_map_ite, sum_exchanges h hb hans _ fun x => if x.label = key then 1 else 0]
    intro cid r resp notes elapsed hnotes
    exact sum_counted hnotes (fun _ => rfl) (fun _ => rfl) _
  · refine ⟨_, rfl, ?_, fun d hd => sample_clocked h hb hans hd⟩
    have hsum := length_samples key (observed tr)
    rw [sum_exchanges h hb hans _ fun x => if x.route = key then 1 else 0, sum_map_ite] at hsum
    · exact_mod_cast hsum
    · intro cid r resp notes elapsed hnotes
      rw [sum_counted hnotes (fun _ => rfl) (fun _ => rfl), HttpRequest.counted, samplesOf,
        sampleOf]
      show _ = if latencyKey r.method (routeLabel r.path) = key then (1 : Int) else 0
      split <;> rfl

end server

set_option maxRecDepth 20000 in
theorem read_answered : Answered read.2 :=
  answered_of_all paid_read_runs (by decide +kernel)

set_option maxRecDepth 20000 in
/-- The sample requests have all been answered, and one of them was a read. -/
theorem requests_counted_read :
    Answered read.2 ∧ counter read.2.state.2.requests
      (requestKey (go "GET") (go "/v1/pix/transfers/\x7bid\x7d") 200) = 1 := by
  have hcount : (exchanges (paid.1 ++ read.1) read.2).countP (fun x => x.label =
      requestKey (go "GET") (go "/v1/pix/transfers/\x7bid\x7d") 200) = 1 := by decide +kernel
  refine ⟨read_answered, ?_⟩
  rw [(requests_counted paid_read_runs read_answered _).1, hcount]
  rfl

section server

variable {E : Env} {srv : Server} {L : ServerLib} {tl dl : Option E.Lim} {t₀ : Time}
  {tr : Trace (server E srv L).system} {w : World (server E srv L).system} {v : World (switch E)}
  {cid : Nat}

/-! ## The outbox -/

/-- The events that the call appended to the outbox. -/
def appended (tr : Trace (server E srv L).system) (cid : Nat) : List Event :=
  ((hist cid ((server E srv L).innerTrace tr)).flatMap wroteCalls).flatMap StoreCall.outbox

/-- The outbox has what the calls appended, in some order. -/
theorem outbox_perm (h : ServerRuns E srv L tl dl t₀ tr w) :
    w.state.1.store.events.map (·.event) ~ (spawned tr).flatMap fun p => appended tr p.1 := by
  obtain ⟨v, hb⟩ := exists_below h
  have hwritten : ∀ t : Trace (switch E),
      t.flatMap written = ((acts t).flatMap wroteCalls).flatMap StoreCall.outbox := by
    intro t
    induction t using List.reverseRecOn with
    | nil => rfl
    | append_singleton t e ih =>
      rw [List.flatMap_append, ih]
      rcases e with ⟨cid, c⟩ | ⟨cid, o, i, r⟩
      · rw [acts_snoc_spawn]
        simp [written]
      · rw [acts_snoc_act, List.flatMap_append, List.flatMap_append]
        congr 1
        cases o with
        | store c => by_cases hw : c.wrote r = true <;> simp [written, wroteCalls, hw]
        | _ => rfl
  rw [← hb.state, (runs_written hb.run).1, hwritten]
  refine (((acts_innerTrace_perm (Z := server E srv L) h).flatMap_right _).flatMap_right _).trans ?_
  simp only [appended, List.flatMap_assoc]
  exact .refl _

/-- A read of a transfer writes nothing. -/
theorem getTransfer_wrote {trace : Trace (switch E)} (h : Runs E tl dl trace v)
    {tn id : GoString} {out : Outcome} (hret : Returned v cid (.getTransfer tn id) out) :
    Wrote [] (hist cid trace) := by
  have hbody : (body E.toLib (.getTransfer tn id)).Ends
      (fun (h : History) _ => Wrote [] h) [] := ⟨trivial, fun _ _ _ => show Wrote [] _ from rfl⟩
  exact h.obeys_thread hret hbody fun _ _ => trivial

/-- The call of a request has a result, or is a read. -/
theorem outcome_cases {trace : Trace (switch E)} (h : Runs E tl dl trace v) {r : HttpRequest}
    {c : Call} {out : Outcome} (hc : Authorised srv L r c) (hret : Returned v cid c out) :
    (∃ x, out = .result x ∧ ∀ id, r.target ≠ .endpoint (.transfer id)) ∨
      ∃ tn id x, c = .getTransfer tn id ∧ r.target = .endpoint (.transfer id) ∧
        out = .transfer x := by
  obtain ⟨e, key, hadm, hmakes⟩ := hc
  have hfits := returned_fits h hret
  rw [hadm.target]
  cases hmakes with
  | transfer id =>
    cases out with
    | transfer x => exact .inr ⟨_, _, x, rfl, rfl, rfl⟩
    | result x | batch x | stats x => exact hfits.elim
  | transfers cor at_ hpayload | spiSubmissions id cor | reviews id cor at_ hpayload
  | spiCallbacks id cor now at_ hcallback =>
    cases out with
    | result x => exact .inl ⟨x, rfl, by simp⟩
    | transfer x | batch x | stats x => exact hfits.elim

/-- A request notes as many events as it appended. -/
theorem appended_length (hb : Below tl dl tr w v) {r : HttpRequest} {resp : HttpResponse}
    {notes : List Observation} (hnotes : Notes srv L v cid r resp notes) (elapsed : Duration) :
    ((notes ++ [r.counted resp.status elapsed]).map eventsOf).sum = (appended tr cid).length := by
  have hnone : Wrote [] (hist cid ((server E srv L).innerTrace tr)) →
      (appended tr cid).length = 0 := by
    intro hw
    rw [appended, hw]
    rfl
  cases hnotes with
  | alone hv hdirect =>
    rw [hnone]
    · rfl
    · rw [hb.run.hist_eq_nil hv]
      exact wrote_nil
  | @served c out hret hc hreply =>
    rcases outcome_cases hb.run hc hret with ⟨x, rfl, -⟩ | ⟨tn, id, x, rfl, -, rfl⟩
    · obtain ⟨calls, hw, hrep⟩ := ((grounds E tl dl).returns_of_thread hb.run hret x rfl).writes
      cases x with
      | error err =>
        rw [hnone (by rw [show calls = [] from hrep] at hw; exact hw)]
        rfl
      | ok res =>
        rw [List.nil_append] at hw
        rw [appended, hw, hrep.1]
        simp [noted, eventsOf, HttpRequest.counted]
    · rw [hnone (getTransfer_wrote hb.run hret)]
      rfl

/-- The number of the records that batches of the worker appended. -/
def batchRecords (tr : Trace (server E srv L).system) : Nat :=
  ((spawned tr).map fun p =>
    match p.2 with
    | .request _ => 0
    | _ => (appended tr p.1).length).sum

/-- The decision that a response reports. -/
def Exchange.decision (x : Exchange) : Option GoString :=
  match x.2.body with
  | .transfer data _ =>
    match x.1.target with
    | .endpoint (.transfer _) => none
    | _ => some data.status.text
  | _ => none

theorem Exchange.decision_eq_none {x : Exchange}
    (h : ∀ data replay, x.2.body ≠ .transfer data replay) : x.decision = none := by
  unfold Exchange.decision
  split
  · exact absurd ‹_› (h _ _)
  · rfl

/-- A request notes the decision that its response reports. -/
theorem sum_decisions (hb : Below tl dl tr w v) {r : HttpRequest} {resp : HttpResponse}
    {notes : List Observation} (hnotes : Notes srv L v cid r resp notes) {elapsed : Duration}
    {status : GoString} :
    ((notes ++ [r.counted resp.status elapsed]).map (decisionsOf status)).sum =
      if Exchange.decision (r, resp) = some status then 1 else 0 := by
  cases hnotes with
  | alone hv hdirect =>
    rw [Exchange.decision_eq_none hdirect.ne_transfer]
    rfl
  | @served c out hret hc hreply =>
    rcases outcome_cases hb.run hc hret with ⟨x, rfl, hne⟩ | ⟨tn, id, x, rfl, htarget, rfl⟩
    · cases x with
      | error err =>
        have hplain := plain_handleDomainError err
        rw [show handleDomainError err = resp.toReply from hreply.symm] at hplain
        rw [Exchange.decision_eq_none hplain.ne_transfer]
        rfl
      | ok res =>
        have hbody : resp.body = transferResponse res.transfer res.idempotentReplay :=
          congrArg (·.body) hreply
        have hdec : Exchange.decision (r, resp) = some res.transfer.status.text := by
          simp only [Exchange.decision, hbody, transferResponse]
        rw [hdec]
        simp [noted, decisionsOf, HttpRequest.counted]
    · have hnone : Exchange.decision (r, resp) = none := by
        simp only [Exchange.decision, htarget]
        split <;> rfl
      rw [hnone]
      rfl

/-- In every run, when no request is in flight, the counter of the outbox is
the number of its records without those of the batches, and the counter of a
status is the number of the responses that report a decision with it. -/
theorem outbox_counted (h : ServerRuns E srv L tl dl t₀ tr w) (hans : Answered w) :
    counter w.state.2.events (go "outbox_inserted") =
        wrap64 (w.state.1.store.events.length - batchRecords tr) ∧
      ∀ status, counter w.state.2.decisions status =
        wrap64 ((exchanges tr w).countP fun x => x.decision = some status) := by
  obtain ⟨v, hb⟩ := exists_below h
  rw [metrics_observed h, events_observedAll]
  constructor
  · congr 1
    have hlen : (w.state.1.store.events.length : Int) =
        ((spawned tr).map fun p => ((appended tr p.1).length : Int)).sum := by
      have hperm := (outbox_perm h).length_eq
      rw [List.length_map, List.length_flatMap] at hperm
      rw [hperm, Nat.cast_list_sum, List.map_map]
      rfl
    rw [hlen, batchRecords, Nat.cast_list_sum, List.map_map, sum_observed h, eq_sub_iff_add_eq,
      ← List.sum_map_add]
    refine congrArg List.sum (List.map_congr_left fun p hp => ?_)
    obtain ⟨cid, d⟩ := p
    cases d with
    | request r =>
      obtain ⟨resp, hresp⟩ := responded_of_spawned h hb hans hp
      obtain ⟨notes, elapsed, hnotes, hbehind, -⟩ := noted_of_responded hb hresp
      rw [hnotes, appended_length hb hbehind]
      exact add_zero _
    | submitPendingSPI limit | drain policy limit =>
      obtain ⟨prog, hth⟩ := h.thread_of_spawn (mem_spawned.mp hp)
      rw [batch_silent hb rfl hth]
      exact zero_add _
  · intro status
    rw [decisions_observedAll, ← sum_map_ite,
      sum_exchanges h hb hans _ fun x => if x.decision = some status then 1 else 0]
    intro cid r resp notes elapsed hnotes
    rw [sum_decisions hb hnotes]

end server

set_option maxRecDepth 20000 in
/-- The sample requests appended eight records. -/
theorem outbox_counted_read :
    counter read.2.state.2.events (go "outbox_inserted") = 8 := by
  have hlen : read.2.state.1.store.events.length = 8 ∧ batchRecords (paid.1 ++ read.1) = 0 := by
    decide +kernel
  rw [(outbox_counted paid_read_runs read_answered).1, hlen.1, hlen.2]
  rfl

end PixRail.Api
