import PixRail.Switcher.Runs

/-!
# Where the times of a write come from

`CreateTransfer` stamps a new transfer with a reading of the clock.
`RecordReview` and `RecordSettlement` stamp the transfer and the audit record
with the time the request carries, and with a reading if it carries none.
`Stamps` says this of the operations of each call, next to the contract of
`PixRail.Switcher.Contract`.
-/

namespace PixRail.Switcher

open Go Rail Events Store Interleave

/-- `x` is the time `given`, or a clock reading of the call if that is zero. -/
def GivenOrNow (h : History) (given x : Time) : Prop :=
  (given = 0 ∧ Did h .now x) ∨ (given ≠ 0 ∧ x = given)

theorem GivenOrNow.mono {h h' : History} {given x : Time} (hx : GivenOrNow h given x)
    (hh : h <+: h') : GivenOrNow h' given x := by
  rcases hx with ⟨hz, hd⟩ | hx
  · exact .inl ⟨hz, hd.mono hh⟩
  · exact .inr hx

theorem GivenOrNow.snoc {h : History} {given x : Time} (hx : GivenOrNow h given x)
    (a : Action sig Input) : GivenOrNow (h ++ [a]) given x :=
  hx.mono (List.prefix_append h [a])

/-- The times in the writes of a call. -/
def Stamps : Call → History → Op → Prop
  | .createTransfer _, h, .store (.insertTransfer t _ _) =>
    t.updatedAt = t.createdAt ∧ Did h .now t.createdAt
  | .recordReview req, h, .store (.recordReviewDecision _ _ _ _ _ aud) =>
    GivenOrNow h req.reviewedAt aud.createdAt
  | .recordSettlement cb, h, .store (.updateSettlement _ _ cb' _ aud) =>
    GivenOrNow h cb.receivedAt cb'.receivedAt ∧ aud.createdAt = cb'.receivedAt
  | _, _, _ => True

/-- The program `p` of the call `c` stamps its writes as it should after the
history `h`, and returns only what `Q` allows. -/
abbrev Stamping (c : Call) {α : Type} (Q : History → α → Prop) (h : History) (p : Code α) :
    Prop :=
  Prog.Obeys (fun _ _ _ => True) (Stamps c) Q h p

/-- The result is of no interest. -/
abbrev Any {α : Type} (_ : History) (_ : α) : Prop := True

section rules

variable {c : Call} {h : History} {α : Type} {Q : History → α → Prop}

theorem stamping_perform {o : Op} {f : o.Ret → Code α} (ho : ∀ s, o ≠ .store s)
    (hf : ∀ i r, Stamping c Q (h ++ [⟨o, i, r⟩]) (f r)) : Stamping c Q h (perform o >>= f) := by
  refine ⟨?_, fun i r _ => hf i r⟩
  cases o with
  | store s => exact absurd rfl (ho s)
  | _ => cases c <;> trivial

theorem stamping_storeCall {s : StoreCall} {f : s.Ret → Code α} (hs : Stamps c h (.store s))
    (hf : ∀ i r, Stamping c Q (h ++ [⟨.store s, i, r⟩]) (f r)) :
    Stamping c Q h (storeCall s >>= f) :=
  ⟨hs, fun i r _ => hf i r⟩

theorem orNow_stamping (given : Time) :
    Stamping c (fun h' x => GivenOrNow h' given x) h (orNow given) := by
  unfold orNow
  split
  · rename_i hz
    exact stamping_perform (f := .ret) (by simp) fun i r => .inl ⟨hz, i, by simp⟩
  · rename_i hne
    exact .inr ⟨hne, rfl⟩

theorem orNewID_stamping (id tag : GoString) : Stamping c Any h (orNewID id tag) := by
  unfold orNewID
  split
  · exact stamping_perform (f := .ret) (by simp) fun _ _ => trivial
  · trivial

end rules

variable {L : Lib} {h : History}

/-! ## `CreateTransfer` -/

section create

variable {req : CreateTransferRequest}

theorem addEvent_stamping {c : Call} (t : Transfer) (outbox : List Event) (ty : EventType)
    (p : Payload) : Stamping c Any h (addEvent L t outbox ty p) := by
  refine stamping_perform (by simp) fun _ id => stamping_perform (by simp) fun _ at_ => ?_
  split <;> trivial

theorem creationEvents_stamping {c : Call} (t : Transfer) (dict : DictEntry)
    (decision : FraudDecision) (hash : GoString) :
    Stamping c Any h (creationEvents L t dict decision hash) := by
  refine (addEvent_stamping _ _ _ _).bind fun _ _ _ _ => ?_
  refine (addEvent_stamping _ _ _ _).bind fun _ _ _ _ => ?_
  refine (addEvent_stamping _ _ _ _).bind fun _ _ _ _ => ?_
  split
  · refine (addEvent_stamping _ _ _ _).bind fun _ _ _ _ => ?_
    exact addEvent_stamping _ _ _ _
  · split
    · exact addEvent_stamping _ _ _ _
    · split
      · exact addEvent_stamping _ _ _ _
      · trivial

theorem persist_stamping (req' : CreateTransferRequest) (hash : GoString) (dict : DictEntry)
    (decision : FraudDecision) :
    Stamping (.createTransfer req) Any h (persist L req' hash dict decision) := by
  refine stamping_perform (by simp) fun i now => stamping_perform (by simp) fun i' id => ?_
  refine (creationEvents_stamping _ dict decision _).bind fun h₁ evs hh₁ _ => ?_
  have hnow : Did h₁ .now now := (did_last.snoc _).mono hh₁
  refine stamping_storeCall ⟨rfl, hnow⟩ fun i r => ?_
  split
  · trivial
  · split
    · refine stamping_storeCall trivial fun _ _ => ?_
      split <;> trivial
    · trivial

theorem decideTransfer_stamping (req' : CreateTransferRequest) (hash : GoString) :
    Stamping (.createTransfer req) Any h (decideTransfer L req' hash) := by
  refine stamping_perform (by simp) fun _ r₁ => ?_
  split
  · trivial
  · refine stamping_perform (by simp) fun _ r₂ => ?_
    split
    · trivial
    · refine stamping_perform (by simp) fun _ r₃ => ?_
      split
      · split <;> trivial
      · refine stamping_perform (by simp) fun _ r₄ => ?_
        split
        · trivial
        · split
          · exact persist_stamping _ _ _ _
          · trivial

theorem createTransfer_stamping :
    Stamping (.createTransfer req) Any h (createTransfer L req) := by
  refine (orNow_stamping _).bind fun h₁ at_ _ _ => ?_
  dsimp only
  split
  · trivial
  · refine stamping_storeCall trivial fun _ r => ?_
    split
    · trivial
    · trivial
    · exact decideTransfer_stamping _ _

end create

/-! ## `RecordReview` and `RecordSettlement` -/

theorem reviewEvent_stamping {c : Call} (current : Transfer) (cor : GoString) (at_ : Time)
    (ty : EventType) (p : Payload) : Stamping c Any h (reviewEvent L current cor at_ ty p) :=
  stamping_perform (by simp) fun _ _ => trivial

theorem writeReview_stamping {req : ReviewDecisionRequest} {at_ : Time}
    (hat : GivenOrNow h req.reviewedAt at_) (tn id cor reason : GoString)
    (decision : ReviewDecision) (current : Transfer) (status : TransferStatus)
    (ty next : EventType) (p : Payload) :
    Stamping (.recordReview req) Any h
      (writeReview L tn id cor reason at_ decision current status ty next p) := by
  refine (reviewEvent_stamping _ _ _ _ _).bind fun h₁ r₁ hh₁ _ => ?_
  split
  · trivial
  · refine (reviewEvent_stamping _ _ _ _ _).bind fun h₂ r₂ hh₂ _ => ?_
    split
    · trivial
    · refine stamping_storeCall (hat.mono (hh₁.trans hh₂)) fun _ r₃ => ?_
      split <;> trivial

theorem recordReview_stamping (req : ReviewDecisionRequest) :
    Stamping (.recordReview req) Any h (recordReview L req) := by
  refine (orNow_stamping _).bind fun h₁ at_ _ hat => ?_
  dsimp only
  split
  · trivial
  · refine stamping_storeCall trivial fun _ r => ?_
    split
    · trivial
    · split
      · trivial
      · split
        · exact writeReview_stamping (hat.snoc _) _ _ _ _ _ _ _ _ _ _
        · exact writeReview_stamping (hat.snoc _) _ _ _ _ _ _ _ _ _ _
        · trivial

theorem settle_stamping {cb cb' : SettlementCallback}
    (hat : GivenOrNow h cb.receivedAt cb'.receivedAt) :
    Stamping (.recordSettlement cb) Any h (settle L cb') := by
  refine stamping_storeCall trivial fun _ r => ?_
  split
  · trivial
  · split
    · trivial
    · split
      · trivial
      · refine stamping_perform (by simp) fun _ id => ?_
        split
        · trivial
        · refine stamping_storeCall ⟨(hat.snoc _).snoc _, rfl⟩ fun _ r₃ => ?_
          split <;> trivial

theorem recordSettlement_stamping (cb : SettlementCallback) :
    Stamping (.recordSettlement cb) Any h (recordSettlement L cb) := by
  refine (orNow_stamping _).bind fun h₁ at_ _ hat => ?_
  refine (orNewID_stamping _ _).bind fun h₂ cor hh₂ _ => ?_
  dsimp only
  split
  · trivial
  · exact settle_stamping (hat.mono hh₂)

/-! ## Every call -/

theorem body_stamping (c : Call) : Stamping c Any [] (body L c) := by
  cases c with
  | createTransfer req => exact Prog.Obeys.map createTransfer_stamping
  | recordReview req => exact Prog.Obeys.map (recordReview_stamping req)
  | recordSettlement cb => exact Prog.Obeys.map (recordSettlement_stamping cb)
  | getTransfer _ _ | submitToSPI _ _ _ | submitPendingSPI _ | drain _ _ =>
    exact .of_forall (fun _ _ => trivial) (fun _ _ => trivial) _ _

/-- Every operation of a run is stamped as its call says. -/
theorem stamps_of_step {E : Env} {tl dl : Option E.Lim} {tr : Trace (switch E)}
    {w w' : World (switch E)} {cid : Nat} {c : Call} {a : Action sig Input}
    (h : Runs E tl dl tr w) (hc : spawnEv cid c ∈ tr) (hstep : Step w (.act cid a) w') :
    Stamps c (hist cid tr) a.op :=
  h.obeys_step hstep hc (body_stamping c) fun _ _ => trivial

end PixRail.Switcher
