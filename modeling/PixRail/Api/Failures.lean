import PixRail.Api.Accounting

/-!
# What a response admits to

A response says what its request did to the store: a request makes one write
if its response shows a new result, and none otherwise.  An internal error is
none of the switch's own: behind it is a context that has ended or an error of
a port that wraps none of the errors of `rail` (`responses_truthful`).
-/

namespace PixRail.Api

open Go Config Rail Events Store Interleave Switcher

/-- The context of an operation. -/
def ctxOf : Input ⊕ ServerInput → Ctx
  | .inl i => i.ctx
  | .inr i => i.ctx

/-- A port answered with the error. -/
inductive PortError (h : History) (e : Err) : Prop where
  | dict {tn key : GoString} {ty : DictKeyType} (hd : Did h (.resolve tn key ty) (.error e))
  | fraud {req : CreateTransferRequest} {dict : DictEntry} (hd : Did h (.score req dict) (.error e))
  | spi {t : Transfer} (hd : Did h (.submit t) (.error e))

/-- The response shows the result of a write: a transfer that is neither read
nor replayed. -/
def Exchange.fresh (x : Exchange) : Bool :=
  match x.2.body with
  | .transfer _ replay =>
    match x.1.target with
    | .endpoint (.transfer _) => false
    | _ => !replay
  | _ => false

theorem Exchange.fresh_eq_false {x : Exchange}
    (h : ∀ data replay, x.2.body ≠ .transfer data replay) : x.fresh = false := by
  unfold Exchange.fresh
  split
  · exact absurd ‹_› (h _ _)
  · rfl

/-- A domain error with the status of an internal error is none of `rail`. -/
theorem not_known_of_status {err : Err} (h : (handleDomainError err).status = 500) :
    ¬ Known err := by
  rintro ⟨k, hk, his⟩
  unfold handleDomainError at h
  split_ifs at h
  case neg =>
    simp only [railKinds, List.mem_cons, List.not_mem_nil, or_false] at hk
    rcases hk with rfl | rfl | rfl | rfl | rfl | rfl <;> contradiction
  all_goals exact absurd h (by simp [writeError])

section server

variable {E : Env} {srv : Server} {L : ServerLib} {tl dl : Option E.Lim} {t₀ : Time}
  {tr : Trace (server E srv L).system} {w : World (server E srv L).system} {v : World (switch E)}
  {cid : Nat}

/-- Where an internal error of call `cid` comes from. -/
inductive Outage (tr : Trace (server E srv L).system) (cid : Nat) : Prop where
  | context {a : Action (layerSig (switch E) serverSig) (Input ⊕ ServerInput)}
      (ha : a ∈ hist cid tr) {err : CtxErr} (hctx : ctxOf a.inp = some err)
  | port {err : Err} (hport : PortError (hist cid ((server E srv L).innerTrace tr)) err)
      (hunknown : ¬ Known err)

/-- An operation below is one of the call. -/
theorem mem_hist_of_inner {a : Action sig Input}
    (ha : a ∈ hist cid ((server E srv L).innerTrace tr)) :
    ∃ b ∈ hist cid tr, ctxOf b.inp = a.inp.ctx := by
  rw [Layer.hist_innerTrace] at ha
  obtain ⟨⟨o, i, r⟩, hb, hinner⟩ := List.mem_filterMap.mp ha
  refine ⟨_, hb, ?_⟩
  cases o with
  | inner o =>
    cases i with
    | inl i =>
      cases hinner
      rfl
    | inr i => cases hinner
  | own q => cases hinner
  | enter c => cases hinner

/-- A listing fails only with the context. -/
theorem outage_of_outbox (h : ServerRuns E srv L tl dl t₀ tr w) {g : LocalHistory}
    (hh : hist cid tr = g.map (server E srv L).ownAct) {err : Err}
    (hread : Did g .outbox (.error err)) : Outage tr cid := by
  obtain ⟨i, hi⟩ := hread
  have hmem : (server E srv L).ownAct ⟨.outbox, i, .error err⟩ ∈ hist cid tr := by
    rw [hh]
    exact List.mem_map_of_mem hi
  obtain ⟨t₁, t₂, htr⟩ := List.append_of_mem (mem_hist.mp hmem)
  rw [htr] at h
  obtain ⟨u, u', -, hstep, -⟩ := h.at_entry
  cases hstep with
  | act hthread hhandle =>
    simp only [Layer.answer, serverHandle, Option.map_some, Option.some.injEq,
      Prod.mk.injEq] at hhandle
    obtain ⟨hfail, -⟩ := hhandle
    cases hctx : i.ctx with
    | none =>
      rw [hctx] at hfail
      cases hfail
    | some err' => exact .context hmem hctx

/-- An error behind an internal error is not one of the switch. -/
theorem outage_of_blame (hm : E.toLib.Marshals) {err : Err}
    (hblame : Blame E.toLib (hist cid ((server E srv L).innerTrace tr)) err)
    (hunknown : ¬ Known err) : Outage tr cid := by
  cases hblame with
  | rail hk => exact absurd hk hunknown
  | context ha hctx he =>
    obtain ⟨b, hb, hb'⟩ := mem_hist_of_inner ha
    exact .context hb (hb'.trans hctx)
  | dict hdict hin => exact .port (.dict hdict) hunknown
  | fraud hfraud => exact .port (.fraud hfraud) hunknown
  | spi hspi => exact .port (.spi hspi) hunknown
  | marshal hno => exact absurd hm hno

/-- A request makes a write if its response shows a new result. -/
theorem writes_of_responded (hb : Below tl dl tr w v) {r : HttpRequest} {resp : HttpResponse}
    (hresp : Responded w cid r resp) :
    ((hist cid ((server E srv L).innerTrace tr)).flatMap wroteCalls).length =
      if Exchange.fresh (r, resp) then 1 else 0 := by
  obtain ⟨notes, elapsed, -, hbehind, -⟩ := noted_of_responded hb hresp
  cases hbehind with
  | alone hv hdirect =>
    rw [hb.run.hist_eq_nil hv, Exchange.fresh_eq_false hdirect.ne_transfer]
    rfl
  | @served c out hret hc hreply =>
    have hbody : resp.body = (replyTo c out).body := congrArg (·.body) hreply
    rcases outcome_cases hb.run hc hret with ⟨x, rfl, hne⟩ | ⟨tn, id, x, rfl, hread, rfl⟩
    · obtain ⟨calls, hw, hrep⟩ := ((grounds E tl dl).returns_of_thread hb.run hret x rfl).writes
      rw [List.nil_append] at hw
      rw [hw]
      cases x with
      | error err =>
        have hplain := plain_handleDomainError err
        rw [show handleDomainError err = resp.toReply from hreply.symm] at hplain
        rw [Exchange.fresh_eq_false hplain.ne_transfer, show calls = [] from hrep]
        rfl
      | ok res =>
        have hfresh : Exchange.fresh (r, resp) = !res.idempotentReplay := by
          simp only [Exchange.fresh, hbody, replyTo, transferResponse]
        rw [hfresh, hrep.2]
        cases res.idempotentReplay <;> rfl
    · have hfresh : Exchange.fresh (r, resp) = false := by
        simp only [Exchange.fresh, hread]
        split <;> rfl
      rw [getTransfer_wrote hb.run hret, hfresh]
      rfl

/-- The response of an outcome is an internal error only with an error that
is none of `rail`. -/
theorem outage_of_outcome (hm : E.toLib.Marshals) (hb : Below tl dl tr w v) {r : HttpRequest}
    {c : Call} {out : Outcome} (hret : Returned v cid c out) (hc : Authorised srv L r c)
    (h500 : (replyTo c out).status = 500) : Outage tr cid := by
  rcases outcome_cases hb.run hc hret with ⟨x, rfl, -⟩ | ⟨tn, id, x, rfl, -, rfl⟩
  · cases x with
    | error err =>
      exact outage_of_blame hm ((grounds E tl dl).returns_of_thread hb.run hret _ rfl).source
        (not_known_of_status h500)
    | ok res =>
      exfalso
      dsimp only [replyTo] at h500
      split at h500
      · split at h500 <;> cases h500
      · cases h500
  · cases x with
    | error err =>
      obtain ⟨x, hx, i, hi⟩ := (contract E tl dl).returns_of_thread hb.run hret
      obtain rfl := Outcome.transfer.inj hx
      have hexpected : Expected i err := (grounds E tl dl).ens_of_mem hb.run (mem_hist.mp hi)
      rcases hexpected with hk | ⟨cerr, hctx, -⟩
      · exact absurd hk (not_known_of_status h500)
      · obtain ⟨b, hb, hb'⟩ := mem_hist_of_inner hi
        exact .context hb (hb'.trans hctx)
    | ok t => cases h500

end server

end PixRail.Api
