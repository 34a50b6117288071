import PixRail.Interleave.Account
import PixRail.Switcher.Runs

/-!
# Where the ids of the events come from

A third contract of the calls.  Each event that a call hands to the store is
numbered by a draw of its own: the ids that a call has handed over, in their
order, are among its draws, in theirs (`Drafted`).  As draws do not repeat, no
event id is handed over twice (`handed_nodup`).
-/

namespace PixRail.Switcher

open Go Rail Events Store Interleave Messaging

/-- The identifier that an operation drew. -/
def drawOf : Action sig Input → Option GoString
  | ⟨.newID _, _, r⟩ => some r
  | _ => none

/-- The identifiers that a call drew. -/
def draws (h : History) : List GoString := h.filterMap drawOf

/-- The ids of the events that an operation hands to the store. -/
def Op.eventIDs : Op → List GoString
  | .store c => c.outbox.map (·.eventID)
  | _ => []

/-- The ids of the events that were handed to the store. -/
def handed (h : History) : List GoString := h.flatMap fun a => Op.eventIDs a.op

/-- The ids that were handed over, and `ids` after them, are draws of the
call, no two of them the same draw. -/
def Drafted (h : History) (ids : List GoString) : Prop := (handed h ++ ids).Sublist (draws h)

section drafted

variable {h : History} {ids : List GoString}

theorem handed_snoc (h : History) (a : Action sig Input) :
    handed (h ++ [a]) = handed h ++ Op.eventIDs a.op := by
  simp [handed]

theorem draws_snoc (h : History) (a : Action sig Input) :
    draws (h ++ [a]) = draws h ++ (drawOf a).toList := by
  rw [draws, List.filterMap_append]
  cases ha : drawOf a with
  | none => rw [List.filterMap_cons_none ha]; rfl
  | some x => rw [List.filterMap_cons_some ha]; rfl

theorem drafted_nil : Drafted [] [] := List.Sublist.refl _

theorem Drafted.fewer (hd : Drafted h ids) {ids' : List GoString} (hsub : ids'.Sublist ids) :
    Drafted h ids' :=
  ((List.Sublist.refl (handed h)).append hsub).trans hd

/-- An operation that hands nothing over. -/
theorem Drafted.snoc (hd : Drafted h ids) {a : Action sig Input} (ha : Op.eventIDs a.op = []) :
    Drafted (h ++ [a]) ids := by
  rw [Drafted, handed_snoc, ha, List.append_nil, draws_snoc]
  exact hd.trans (List.sublist_append_left _ _)

/-- A draw. -/
theorem Drafted.draw (hd : Drafted h ids) (tag : GoString) (i : Input) (id : GoString) :
    Drafted (h ++ [⟨.newID tag, i, id⟩]) (ids ++ [id]) := by
  rw [Drafted, handed_snoc, draws_snoc, ← List.append_assoc]
  exact List.Sublist.append (by simpa [Op.eventIDs, Drafted] using hd) (List.Sublist.refl _)

/-- The ids are handed over. -/
theorem Drafted.hand {o : Op} (hd : Drafted h o.eventIDs) (i : Input) (r : o.Ret) :
    Drafted (h ++ [⟨o, i, r⟩]) [] := by
  rw [Drafted, handed_snoc, List.append_nil, draws_snoc]
  exact hd.trans (List.sublist_append_left _ _)

end drafted

/-! ## Rules -/

/-- The program numbers the events that it hands over by draws of its own,
and returns only what `Q` allows. -/
abbrev Drafts {α : Type} (Q : History → α → Prop) (h : History) (p : Code α) : Prop :=
  Prog.Obeys (fun _ _ _ => True) (fun h o => Drafted h o.eventIDs) Q h p

variable {L : Lib} {h : History} {ids : List GoString} {α : Type} {Q : History → α → Prop}

/-- An operation that hands nothing over. -/
theorem drafts_perform {o : Op} {f : o.Ret → Code α} (ho : o.eventIDs = []) (hd : Drafted h ids)
    (hf : ∀ i r, Drafted (h ++ [⟨o, i, r⟩]) ids → Drafts Q (h ++ [⟨o, i, r⟩]) (f r)) :
    Drafts Q h (perform o >>= f) := by
  refine ⟨?_, fun i r _ => hf i r (hd.snoc ho)⟩
  show Drafted h o.eventIDs
  rw [ho]
  exact hd.fewer (List.nil_sublist _)

theorem drafts_draw {tag : GoString} {f : GoString → Code α} (hd : Drafted h ids)
    (hf : ∀ i id, Drafted (h ++ [⟨.newID tag, i, id⟩]) (ids ++ [id]) →
      Drafts Q (h ++ [⟨.newID tag, i, id⟩]) (f id)) :
    Drafts Q h (perform (.newID tag) >>= f) :=
  ⟨hd.fewer (List.nil_sublist _), fun i id _ => hf i id (hd.draw tag i id)⟩

/-- A store call that hands the drafted events over. -/
theorem drafts_hand {c : StoreCall} {f : c.Ret → Code α}
    (hd : Drafted h (c.outbox.map (·.eventID)))
    (hf : ∀ i r, Drafted (h ++ [⟨.store c, i, r⟩]) [] → Drafts Q (h ++ [⟨.store c, i, r⟩]) (f r)) :
    Drafts Q h (storeCall c >>= f) :=
  ⟨hd, fun i r _ => hf i r (Drafted.hand (o := .store c) hd i r)⟩

/-- Nothing is left to hand over. -/
abbrev AllHanded {α : Type} (h : History) (_ : α) : Prop := Drafted h []

theorem newEvent_eventID {id ty tn acct tid cor : GoString} {at_ : Time} {p : Payload} {e : Event}
    (he : newEvent L.marshal id ty tn acct tid cor at_ p = .ok e) : e.eventID = id := by
  unfold newEvent at he
  split at he
  · cases he
  · cases he
    rfl

theorem orNow_drafts (hd : Drafted h []) (t : Time) : Drafts AllHanded h (orNow t) := by
  unfold orNow
  split
  · exact ⟨hd, fun i r _ => hd.snoc rfl⟩
  · exact hd

/-! ## `CreateTransfer` -/

theorem addEvent_drafts (t : Transfer) (outbox : List Event)
    (hd : Drafted h (outbox.map (·.eventID)))
    (ty : EventType) (p : Payload) :
    Drafts (fun h' outbox' => Drafted h' (outbox'.map (·.eventID))) h
      (addEvent L t outbox ty p) := by
  refine drafts_draw hd fun i id hd₁ => ?_
  refine drafts_perform rfl hd₁ fun i' at_ hd₂ => ?_
  split
  · exact hd₂.fewer (List.sublist_append_left _ _)
  · rename_i event hevent
    obtain rfl := newEvent_eventID hevent
    show Drafted _ ((outbox ++ [event]).map (·.eventID))
    rwa [List.map_append]

theorem creationEvents_drafts (hd : Drafted h []) (t : Transfer) (dict : DictEntry)
    (decision : FraudDecision) (hash : GoString) :
    Drafts (fun h' outbox => Drafted h' (outbox.map (·.eventID))) h
      (creationEvents L t dict decision hash) := by
  refine (addEvent_drafts t [] hd _ _).bind fun h₁ o₁ _ hd₁ => ?_
  refine (addEvent_drafts t _ hd₁ _ _).bind fun h₂ o₂ _ hd₂ => ?_
  refine (addEvent_drafts t _ hd₂ _ _).bind fun h₃ o₃ _ hd₃ => ?_
  split
  · exact (addEvent_drafts t _ hd₃ _ _).bind fun h₄ o₄ _ hd₄ => addEvent_drafts t _ hd₄ _ _
  · split
    · exact addEvent_drafts t _ hd₃ _ _
    · split
      · exact addEvent_drafts t _ hd₃ _ _
      · exact hd₃

theorem persist_drafts (hd : Drafted h []) (req : CreateTransferRequest) (hash : GoString)
    (dict : DictEntry) (decision : FraudDecision) :
    Drafts AllHanded h (persist L req hash dict decision) := by
  refine drafts_perform rfl hd fun i now hd₁ => ?_
  refine drafts_perform rfl hd₁ fun i' id hd₂ => ?_
  refine (creationEvents_drafts hd₂ _ dict decision hash).bind fun h₃ outbox _ hd₃ => ?_
  refine drafts_hand hd₃ fun i₄ r hd₄ => ?_
  split
  · exact hd₄
  · split
    · refine drafts_hand hd₄ fun i₅ r₅ hd₅ => ?_
      split <;> exact hd₅
    · exact hd₄

theorem decideTransfer_drafts (hd : Drafted h []) (req : CreateTransferRequest)
    (hash : GoString) : Drafts AllHanded h (decideTransfer L req hash) := by
  refine drafts_perform rfl hd fun i₁ r₁ hd₁ => ?_
  split
  · exact hd₁
  · refine drafts_perform rfl hd₁ fun i₂ r₂ hd₂ => ?_
    split
    · exact hd₂
    · refine drafts_perform rfl hd₂ fun i₃ r₃ hd₃ => ?_
      split
      · split <;> exact hd₃
      · refine drafts_perform rfl hd₃ fun i₄ r₄ hd₄ => ?_
        split
        · exact hd₄
        · split
          · exact persist_drafts hd₄ _ _ _ _
          · exact hd₄

theorem createTransfer_drafts (req : CreateTransferRequest) :
    Drafts AllHanded [] (createTransfer L req) := by
  refine (orNow_drafts drafted_nil _).bind fun h₁ at_ _ hd => ?_
  dsimp only
  split
  · exact hd
  · refine drafts_hand hd fun i r hd₁ => ?_
    split
    · exact hd₁
    · exact hd₁
    · exact decideTransfer_drafts hd₁ _ _

/-! ## `SubmitToSPI` -/

section submit

variable {tn id tok cor : GoString}

theorem releaseAndFail_drafts (hd : Drafted h ids) (e : Err) :
    Drafts AllHanded h (releaseAndFail tn id tok e) := by
  refine drafts_perform rfl hd fun i now hd₁ => ?_
  exact drafts_hand (hd₁.fewer (List.nil_sublist _)) fun i₂ r hd₂ => hd₂

theorem spiEvent_drafts (hd : Drafted h ids) (current : Transfer) (ty : EventType) (p : Payload) :
    Drafts (fun h' r => Drafted h' [] ∧ ∀ e, r = .ok e → Drafted h' (ids ++ [e.eventID])) h
      (spiEvent L current cor ty p) := by
  refine drafts_draw hd fun i id hd₁ => ?_
  refine drafts_perform rfl hd₁ fun i' at_ hd₂ => ?_
  refine ⟨hd₂.fewer (List.nil_sublist _), fun e he => ?_⟩
  rwa [newEvent_eventID he]

theorem submitClaimed_drafts (hd : Drafted h []) (current : Transfer) :
    Drafts AllHanded h (submitClaimed L tn id tok cor current) := by
  refine drafts_perform rfl hd fun i r hd₁ => ?_
  split
  · exact releaseAndFail_drafts hd₁ _
  · refine (spiEvent_drafts hd₁ _ _ _).bind fun h₂ r₂ _ hd₂ => ?_
    split
    · exact releaseAndFail_drafts hd₂.1 _
    · refine (spiEvent_drafts (hd₂.2 _ rfl) _ _ _).bind fun h₃ r₃ _ hd₃ => ?_
      split
      · exact releaseAndFail_drafts hd₃.1 _
      · refine drafts_hand (hd₃.2 _ rfl) fun i₄ r₄ hd₄ => ?_
        split <;> exact hd₄

theorem submitToSPI_drafts (hd : Drafted h []) (tn id cor : GoString) :
    Drafts AllHanded h (submitToSPI L tn id cor) := by
  dsimp only [submitToSPI]
  split
  · exact hd
  · refine drafts_perform rfl hd fun i tok hd₁ => ?_
    refine drafts_perform rfl hd₁ fun i' now hd₂ => ?_
    refine drafts_hand hd₂ fun i₂ r hd₃ => ?_
    split
    · exact hd₃
    · exact hd₃
    · exact submitClaimed_drafts hd₃ _

theorem submitLoop_drafts (hd : Drafted h []) (result : SPIBatchResult)
    (pending : List Transfer) : Drafts AllHanded h (submitLoop L result pending) := by
  induction pending generalizing h result with
  | nil => exact hd
  | cons t pending ih =>
    refine (submitToSPI_drafts hd _ _ _).bind fun h₁ r _ hd₁ => ?_
    split
    · split
      · exact ih hd₁ _
      · exact hd₁
    · split <;> exact ih hd₁ _

theorem submitPendingSPI_drafts (limit : Int) : Drafts AllHanded [] (submitPendingSPI L limit) := by
  refine drafts_perform rfl drafted_nil fun i r hd => ?_
  cases r with
  | some e => exact hd
  | none =>
    refine drafts_perform rfl hd fun i₁ now hd₁ => ?_
    exact drafts_hand hd₁ fun i₂ pending hd₂ => submitLoop_drafts hd₂ _ _

end submit

/-! ## `RecordReview` and `RecordSettlement` -/

theorem reviewEvent_drafts (hd : Drafted h ids) (current : Transfer) (cor : GoString) (at_ : Time)
    (ty : EventType) (p : Payload) :
    Drafts (fun h' r => Drafted h' [] ∧ ∀ e, r = .ok e → Drafted h' (ids ++ [e.eventID])) h
      (reviewEvent L current cor at_ ty p) := by
  refine drafts_draw hd fun i id hd₁ => ?_
  refine ⟨hd₁.fewer (List.nil_sublist _), fun e he => ?_⟩
  rwa [newEvent_eventID he]

theorem writeReview_drafts (hd : Drafted h []) (tn id cor reason : GoString) (at_ : Time)
    (decision : ReviewDecision) (current : Transfer) (status : TransferStatus)
    (ty next : EventType) (p : Payload) :
    Drafts AllHanded h (writeReview L tn id cor reason at_ decision current status ty next p) := by
  refine (reviewEvent_drafts hd _ _ _ _ _).bind fun h₁ r₁ _ hd₁ => ?_
  split
  · exact hd₁.1
  · refine (reviewEvent_drafts (hd₁.2 _ rfl) _ _ _ _ _).bind fun h₂ r₂ _ hd₂ => ?_
    split
    · exact hd₂.1
    · refine drafts_hand (hd₂.2 _ rfl) fun i₃ r₃ hd₃ => ?_
      split <;> exact hd₃

theorem recordReview_drafts (req : ReviewDecisionRequest) :
    Drafts AllHanded [] (recordReview L req) := by
  refine (orNow_drafts drafted_nil _).bind fun h₁ at_ _ hd => ?_
  dsimp only
  split
  · exact hd
  · refine drafts_hand hd fun i r hd₁ => ?_
    split
    · exact hd₁
    · split
      · exact hd₁
      · split
        · exact writeReview_drafts hd₁ _ _ _ _ _ _ _ _ _ _ _
        · exact writeReview_drafts hd₁ _ _ _ _ _ _ _ _ _ _ _
        · exact hd₁

theorem settle_drafts (hd : Drafted h []) (cb : SettlementCallback) :
    Drafts AllHanded h (settle L cb) := by
  refine drafts_hand hd fun i r hd₁ => ?_
  split
  · exact hd₁
  · split
    · exact hd₁
    · split
      · exact hd₁
      · refine drafts_draw hd₁ fun i₂ id hd₂ => ?_
        split
        · exact hd₂.fewer (List.nil_sublist _)
        · rename_i event hevent
          obtain rfl := newEvent_eventID hevent
          refine drafts_hand hd₂ fun i₃ r₃ hd₃ => ?_
          split <;> exact hd₃

theorem recordSettlement_drafts (cb : SettlementCallback) :
    Drafts AllHanded [] (recordSettlement L cb) := by
  refine (orNow_drafts drafted_nil _).bind fun h₁ at_ _ hd => ?_
  have hid : Drafts AllHanded h₁ (orNewID cb.correlationID (go "corr")) := by
    unfold orNewID
    split
    · exact ⟨hd, fun i r _ => hd.snoc rfl⟩
    · exact hd
  refine hid.bind fun h₂ cor _ hd₂ => ?_
  dsimp only
  split
  · exact hd₂
  · exact settle_drafts hd₂ _

/-! ## `Drain` -/

theorem drainLoop_drafts (hd : Drafted h []) (policy : RetryPolicy) (tok : GoString)
    (stats : RelayStats) (records : List OutboxRecord) :
    Drafts AllHanded h (drainLoop policy tok stats records) := by
  induction records generalizing h stats with
  | nil => exact hd
  | cons record records ih =>
    refine drafts_perform rfl hd fun i r hd₁ => ?_
    cases r with
    | error e =>
      refine drafts_perform rfl hd₁ fun i₂ at_ hd₂ => ?_
      refine drafts_hand hd₂ fun i₃ r₃ hd₃ => ?_
      cases r₃ with
      | error e => exact hd₃
      | ok _ => exact ih hd₃ _
    | ok _ =>
      refine drafts_perform rfl hd₁ fun i₂ at_ hd₂ => ?_
      refine drafts_hand hd₂ fun i₃ r₃ hd₃ => ?_
      cases r₃ with
      | error e => exact hd₃
      | ok _ => exact ih hd₃ _

theorem drain_drafts (policy : RetryPolicy) (limit : Int) :
    Drafts AllHanded [] (drain policy limit) := by
  refine drafts_perform rfl drafted_nil fun i₁ tok hd₁ => ?_
  refine drafts_perform rfl hd₁ fun i₂ at_ hd₂ => ?_
  refine drafts_perform rfl hd₂ fun i₃ r hd₃ => ?_
  cases r with
  | some e => exact hd₃
  | none =>
    refine drafts_perform rfl hd₃ fun i₄ checkedAt hd₄ => ?_
    dsimp only [Prog.bind]
    split
    · exact hd₄
    · refine drafts_perform rfl hd₄ fun i₅ now hd₅ => ?_
      exact drafts_hand hd₅ fun i₆ records hd₆ => drainLoop_drafts hd₆ _ _ _ _

/-! ## All calls -/

theorem body_drafts (c : Call) : Drafts (fun _ _ => True) [] (body L c) := by
  cases c with
  | createTransfer req => exact ((createTransfer_drafts req).mono fun _ _ _ _ => trivial).map
  | getTransfer tn id =>
    exact Prog.Obeys.map ⟨drafted_nil, fun _ _ _ => trivial⟩
  | submitToSPI tn id cor =>
    exact ((submitToSPI_drafts drafted_nil tn id cor).mono fun _ _ _ _ => trivial).map
  | submitPendingSPI limit =>
    exact ((submitPendingSPI_drafts limit).mono fun _ _ _ _ => trivial).map
  | recordReview req => exact ((recordReview_drafts req).mono fun _ _ _ _ => trivial).map
  | recordSettlement cb => exact ((recordSettlement_drafts cb).mono fun _ _ _ _ => trivial).map
  | drain policy limit => exact ((drain_drafts policy limit).mono fun _ _ _ _ => trivial).map

/-- The contract of the event ids. -/
def drafting (E : Env) (tl dl : Option E.Lim) : Contract (switch E) (State.initial E tl dl) where
  ens _ _ _ := True
  allows _ h o := Drafted h o.eventIDs
  returns _ _ _ := True
  obeys := body_drafts
  sound _ _ _ _ _ _ := trivial

section runs

variable {E : Env} {tl dl : Option E.Lim} {tr : Trace (switch E)} {w : World (switch E)}
  {cid : Nat}

theorem newIDs_eq (tr : Trace (switch E)) : newIDs tr = draws (acts tr) := by
  rw [newIDs, draws, acts, List.filterMap_filterMap]
  refine List.filterMap_congr fun e _ => ?_
  rcases e with ⟨cid, c⟩ | ⟨cid, o, i, r⟩
  · rfl
  · cases o <;> rfl

theorem mem_handed {hs : History} {id : GoString} :
    id ∈ handed hs ↔ ∃ a ∈ hs, id ∈ Op.eventIDs a.op :=
  List.mem_flatMap

/-- An id among the draws of a call was drawn by it. -/
theorem actEv_of_draws {id : GoString} (hid : id ∈ draws (hist cid tr)) :
    ∃ tag i, actEv cid (.newID tag) i id ∈ tr := by
  obtain ⟨⟨o, i, r⟩, ha, hdraw⟩ := List.mem_filterMap.mp hid
  cases o with
  | newID tag =>
    cases hdraw
    exact ⟨tag, i, mem_hist.mp ha⟩
  | _ => cases hdraw

/-- Drafted ids are new: no call has handed one of them over. -/
theorem Drafted.fresh (hids : (newIDs tr).Nodup) (h : Runs E tl dl tr w) {ids : List GoString}
    (hd : Drafted (hist cid tr) ids) : ids.Nodup ∧ ∀ id ∈ ids, id ∉ handed (acts tr) := by
  have hdraws : (draws (hist cid tr)).Nodup := by
    rw [newIDs_eq] at hids
    exact hids.sublist ((hist_sublist_acts cid tr).filterMap _)
  obtain ⟨-, hnodup, hapart⟩ := List.nodup_append.mp (hdraws.sublist hd)
  refine ⟨hnodup, fun id hid hold => ?_⟩
  obtain ⟨a, ha, hmem⟩ := mem_handed.mp hold
  obtain ⟨cid', hev⟩ := mem_acts.mp ha
  by_cases hc : cid' = cid
  · subst hc
    exact hapart id (mem_handed.mpr ⟨a, mem_hist.mpr hev, hmem⟩) id hid rfl
  · -- another call has drawn the same id
    obtain ⟨t₁, t₂, rfl⟩ := List.append_of_mem hev
    obtain ⟨c, -, hallows⟩ := (drafting E tl dl).allows_at h
    obtain ⟨tag, i, hdrawn⟩ := actEv_of_draws
      (hallows.subset (List.mem_append_right _ hmem))
    obtain ⟨tag', i', hdrawn'⟩ := actEv_of_draws (hd.subset (List.mem_append_right _ hid))
    exact hc (drawn_unique hids (List.mem_append_left _ hdrawn) hdrawn')

/-- No event id is handed over twice. -/
theorem handed_nodup (hids : (newIDs tr).Nodup) (h : Runs E tl dl tr w) :
    (handed (acts tr)).Nodup := by
  induction h with
  | nil => exact List.nodup_nil
  | @snoc tr w w' e hrun hstep ih =>
    have hids' : (newIDs tr).Nodup := by
      rw [newIDs, List.filterMap_append] at hids
      exact (List.nodup_append.mp hids).1
    cases e with
    | spawn cid c =>
      rw [acts_snoc_spawn]
      exact ih hids'
    | act cid a =>
      obtain ⟨c, -, hallows⟩ := (drafting E tl dl).allows_of_step hrun hstep
      obtain ⟨hnodup, hnew⟩ := Drafted.fresh hids' hrun hallows
      rw [acts_snoc_act, handed_snoc]
      exact (ih hids').append hnodup fun id hold hid => hnew id hid hold

end runs

end PixRail.Switcher
