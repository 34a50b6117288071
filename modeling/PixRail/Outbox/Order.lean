import PixRail.Interleave.Purge
import PixRail.Outbox.Delivery

/-!
# The order of delivery within an account

`deliveries` lists the numbers of the records that were published, in the
order of the successful publishes.  A relay goes on with its batch after a
failed publish, and a claim skips the records that wait for their retry, so
a record can overtake an earlier one of its account
(`account_order_overtaken`).  Both ways out of order are closed by the
condition `Careful` on the steps, and under it every account is delivered in
order, whatever the number of relays (`account_ordered_of_careful`).
-/

namespace PixRail.Outbox

open Go Rail Events Store Interleave Switcher MemoryStore Messaging

variable {E : Env} {tl dl : Option E.Lim} {tr : Trace (switch E)} {w : World (switch E)}

/-! ## Deliveries -/

/-- The number of the record that an entry published after the trace. -/
def delivery (tr : Trace (switch E)) : Ev (switch E) → Option Int
  | .act cid ⟨.publish _, _, .ok ()⟩ => (inHand (hist cid tr)).map (·.sequence)
  | _ => none

/-- The deliveries of `t₂` after `t₁`. -/
def deliveriesFrom (t₁ : Trace (switch E)) : Trace (switch E) → List Int
  | [] => []
  | e :: t₂ => (delivery t₁ e).toList ++ deliveriesFrom (t₁ ++ [e]) t₂

/-- The numbers of the published records, in the order of the successful
publishes. -/
def deliveries (tr : Trace (switch E)) : List Int := deliveriesFrom [] tr

theorem deliveriesFrom_append (t₀ t₁ t₂ : Trace (switch E)) :
    deliveriesFrom t₀ (t₁ ++ t₂) = deliveriesFrom t₀ t₁ ++ deliveriesFrom (t₀ ++ t₁) t₂ := by
  induction t₁ generalizing t₀ with
  | nil => simp [deliveriesFrom]
  | cons e t₁ ih => simp [deliveriesFrom, ih]

theorem deliveries_append (t₁ t₂ : Trace (switch E)) :
    deliveries (t₁ ++ t₂) = deliveries t₁ ++ deliveriesFrom t₁ t₂ :=
  deliveriesFrom_append [] t₁ t₂

theorem deliveriesFrom_split {t₀ : Trace (switch E)} {l₁ l₂ : List Int} {seq : Int}
    (h : deliveriesFrom t₀ tr = l₁ ++ seq :: l₂) :
    ∃ t₁ e t₂, tr = t₁ ++ e :: t₂ ∧ deliveriesFrom t₀ t₁ = l₁ ∧
      delivery (t₀ ++ t₁) e = some seq := by
  induction tr generalizing t₀ l₁ with
  | nil => simp [deliveriesFrom] at h
  | cons e tr ih =>
    rw [deliveriesFrom] at h
    cases he : delivery t₀ e with
    | none =>
      rw [he] at h
      obtain ⟨t₁, e', t₂, rfl, hl₁, hd⟩ := ih h
      exact ⟨e :: t₁, e', t₂, rfl, by simp [deliveriesFrom, he, hl₁], by simpa using hd⟩
    | some n =>
      rw [he] at h
      cases l₁ with
      | nil =>
        obtain ⟨rfl, -⟩ := List.cons.inj h
        exact ⟨[], e, tr, rfl, rfl, by simpa using he⟩
      | cons m l₁ =>
        rw [Option.toList_some, List.singleton_append, List.cons_append] at h
        obtain ⟨rfl, htail⟩ := List.cons.inj h
        obtain ⟨t₁, e', t₂, rfl, hl₁, hd⟩ := ih htail
        exact ⟨e :: t₁, e', t₂, rfl, by simp [deliveriesFrom, he, hl₁], by simpa using hd⟩

theorem delivery_eq_some {e : Ev (switch E)} {seq : Int} (h : delivery tr e = some seq) :
    ∃ cid ev i record, e = actEv cid (.publish ev) i (.ok ()) ∧
      inHand (hist cid tr) = some record ∧ record.sequence = seq := by
  unfold delivery at h
  split at h
  · obtain ⟨record, hhand, hseq⟩ := Option.map_eq_some_iff.mp h
    exact ⟨_, _, _, record, rfl, hhand, hseq⟩
  · exact absurd h (by simp)

/-- A successful publish is a delivery from then on. -/
theorem mem_deliveries {t₁ t₂ : Trace (switch E)} {cid : Nat} {ev : Event} {i : Input}
    {record : OutboxRecord} (hhand : inHand (hist cid t₁) = some record) :
    record.sequence ∈ deliveries (t₁ ++ actEv cid (.publish ev) i (.ok ()) :: t₂) := by
  rw [deliveries_append, deliveriesFrom]
  refine List.mem_append_right _ (List.mem_append_left _ ?_)
  simp [delivery, hhand]

/-- A record whose flag is set was delivered. -/
theorem delivered_of_published (h : Runs E tl dl tr w) {rec : OutboxRecord}
    (hrec : rec ∈ w.state.store.events) (hpub : rec.published = true) :
    rec.sequence ∈ deliveries tr := by
  obtain ⟨cid, tok, at_, i, hmark⟩ := runs_marked h hrec hpub
  obtain ⟨t₁, t₂, rfl⟩ := List.append_of_mem hmark
  obtain ⟨s₁, s₂, j, record, rfl, hhand, hseq⟩ := published_of_mark h hrec rfl
  rw [deliveries_append, ← hseq]
  exact List.mem_append_left _ (mem_deliveries hhand)

/-! ## The batch of a drain -/

/-- A drain claims once, and its batch is what the claim returned. -/
theorem batch_eq (h : Runs E tl dl tr w) {cid : Nat} {now u : Time} {limit : Int}
    {tok : GoString} {records : List OutboxRecord}
    (hd : Did (hist cid tr) (.store (.claimPendingOutbox now limit tok u)) records) :
    (hist cid tr).flatMap batchOf = records := by
  obtain ⟨i, hi⟩ := hd
  obtain ⟨h₁, h₂, hh⟩ := List.append_of_mem hi
  -- of two claims in the history, the later one had a claim before it
  have htwice : ∀ {p q : History} {n n' u' : Time} {l l' : Int} {k k' : GoString} {v : Time}
      {j j' : Input} {r r' : List OutboxRecord},
      hist cid tr = p ++ ⟨.store (.claimPendingOutbox n' l' k' u'), j', r'⟩ :: q →
      (⟨.store (.claimPendingOutbox n l k v), j, r⟩ : Action sig Input) ∉ p := by
    intro p q n n' u' l l' k k' v j j' r r' hp hmem
    obtain ⟨t₁, t₂, rfl, ht₁, -⟩ := hist_split hp
    obtain ⟨c, -, hallow⟩ := (contract E tl dl).allows_at h
    rw [ht₁] at hallow
    cases hallow with
    | outboxClaim hc hfirst htok hnow hat => exact hfirst _ _ _ _ _ ⟨j, hmem⟩
  have hnil : ∀ {g : History}, (∀ n l k v j r,
      (⟨.store (.claimPendingOutbox n l k v), j, r⟩ : Action sig Input) ∉ g) →
      g.flatMap batchOf = [] := by
    intro g hg
    refine List.flatMap_eq_nil_iff.mpr fun a ha => ?_
    unfold batchOf
    split
    · exact absurd ha (hg _ _ _ _ _ _)
    · rfl
  have hbefore := hnil fun n l k v j r => htwice hh
  have hafter : h₂.flatMap batchOf = [] := by
    refine hnil fun n l k v j r hmem => ?_
    obtain ⟨p, q, rfl⟩ := List.append_of_mem hmem
    have hcut := hh.trans (List.append_assoc h₁ (_ :: p) (_ :: q)).symm
    exact htwice hcut (List.mem_append_right _ List.mem_cons_self)
  rw [hh, List.flatMap_append, List.flatMap_cons, hbefore, hafter, List.nil_append,
    List.append_nil]
  rfl

/-- A claim takes the first claimable records: what can be claimed before a
claimed record is claimed. -/
theorem claimLoop_before {now u : Time} {tok : GoString} {left : Nat} {l : List OutboxRecord}
    (hsorted : l.Pairwise fun a b => a.sequence < b.sequence) {a b : OutboxRecord} (ha : a ∈ l)
    (hcl : Claimable now a) (hb : b ∈ (claimLoop now tok u left l).2)
    (hlt : a.sequence < b.sequence) :
    ∃ a' ∈ (claimLoop now tok u left l).2, a'.entry = a.entry := by
  induction l generalizing left with
  | nil => exact absurd ha List.not_mem_nil
  | cons rec l ih =>
    obtain ⟨hhead, hrest⟩ := List.pairwise_cons.mp hsorted
    -- the first record of the list is not behind another one
    have hmin : ¬ a.sequence < rec.sequence := by
      rcases List.mem_cons.mp ha with rfl | ha
      · omega
      · have := hhead a ha
        omega
    simp only [claimLoop] at hb ⊢
    by_cases hrec : Claimable now rec
    · rw [if_pos hrec] at hb ⊢
      by_cases hleft : left ≤ 1
      · rw [if_pos hleft, List.mem_singleton] at hb
        subst hb
        exact absurd hlt hmin
      · rw [if_neg hleft] at hb ⊢
        rcases List.mem_cons.mp hb with rfl | hb
        · exact absurd hlt hmin
        · rcases List.mem_cons.mp ha with rfl | ha
          · exact ⟨_, List.mem_cons_self, rfl⟩
          · obtain ⟨a', ha', he⟩ := ih hrest ha hb
            exact ⟨a', List.mem_cons_of_mem _ ha', he⟩
    · rw [if_neg hrec] at hb ⊢
      rcases List.mem_cons.mp ha with rfl | ha
      · exact absurd hcl hrec
      · exact ih hrest ha hb

/-- Records that were appended later have larger numbers. -/
theorem older_mem {t₁ t₂ : Trace (switch E)} {w₁ w₂ : World (switch E)}
    (h₁ : Runs E tl dl t₁ w₁) (h₂ : Run w₁ t₂ w₂) {a b : OutboxRecord}
    (ha : a ∈ w₂.state.store.events) (hb : b ∈ w₁.state.store.events)
    (hlt : a.sequence < b.sequence) : ∃ a₁ ∈ w₁.state.store.events, a₁.entry = a.entry := by
  obtain ⟨rest, hrest⟩ := runs_entries h₁ h₂
  have hmem : a.entry ∈ w₂.state.store.events.map OutboxRecord.entry := List.mem_map_of_mem ha
  have hsorted : (w₂.state.store.events.map OutboxRecord.entry).Pairwise
      fun x y => x.1 < y.1 :=
    List.pairwise_map.mpr (runs_numbered (h₁.append h₂)).pairwise
  rw [← hrest] at hmem hsorted
  rcases List.mem_append.mp hmem with hmem | hmem
  · exact List.mem_map.mp hmem
  · have hgt := (List.pairwise_append.mp hsorted).2.2 b.entry (List.mem_map_of_mem hb) _ hmem
    have : b.sequence < a.sequence := hgt
    omega

/-! ## The condition -/

/-- The records of its batch that a drain publishes after the one in
hand. -/
def behind (h : History) : List OutboxRecord :=
  (h.flatMap batchOf).drop (h.countP isPublish + 1)

/-- Every record that stands before a claimable one of its account is
published, or can be claimed with it. -/
def NoneHeldBack (now : Time) (events : List OutboxRecord) : Prop :=
  ∀ b ∈ events, Claimable now b → ∀ a ∈ events, a.event.accountID = b.event.accountID →
    a.sequence < b.sequence → a.published = true ∨ Claimable now a

instance (now : Time) (events : List OutboxRecord) : Decidable (NoneHeldBack now events) :=
  inferInstanceAs (Decidable (∀ b ∈ events, Claimable now b → ∀ a ∈ events,
    a.event.accountID = b.event.accountID → a.sequence < b.sequence →
      a.published = true ∨ Claimable now a))

/-- The batch has no other record of the account behind the one in hand. -/
def LastOfAccount (h : History) : Prop :=
  ∀ record ∈ inHand h, ∀ later ∈ behind h, later.event.accountID ≠ record.event.accountID

instance (h : History) : Decidable (LastOfAccount h) :=
  inferInstanceAs (Decidable (∀ record ∈ inHand h, ∀ later ∈ behind h,
    later.event.accountID ≠ record.event.accountID))

/-- The reading that a claim of the outbox compares with. -/
def claimReading : Ev (switch E) → Option Time
  | .act _ ⟨.store (.claimPendingOutbox now _ _ _), _, _⟩ => some now
  | _ => none

/-- The drain of a failed publish. -/
def failedBy : Ev (switch E) → Option Nat
  | .act cid ⟨.publish _, _, .error _⟩ => some cid
  | _ => none

/-- The steps that keep the accounts in order: no claim passes over an
earlier record of an account, and no publish fails while the batch holds
another record of the account. -/
def Careful (tr : Trace (switch E)) (w : World (switch E)) (e : Ev (switch E)) : Prop :=
  (∀ now ∈ claimReading e, NoneHeldBack now w.state.store.events) ∧
    ∀ cid ∈ failedBy e, LastOfAccount (hist cid tr)

instance (tr : Trace (switch E)) (w : World (switch E)) (e : Ev (switch E)) :
    Decidable (Careful tr w e) :=
  inferInstanceAs (Decidable (_ ∧ _))

/-- The runs of the switch whose steps are all careful. -/
abbrev CarefulRuns (E : Env) (tl dl : Option E.Lim) (tr : Trace (switch E))
    (w : World (switch E)) : Prop :=
  RunIf Careful (.init (State.initial E tl dl)) tr w

/-- Of two records of one account, the one with the larger number is
delivered only after the other one. -/
def AccountOrdered (tr : Trace (switch E)) (w : World (switch E)) : Prop :=
  ∀ a ∈ w.state.store.events, ∀ b ∈ w.state.store.events,
    a.event.accountID = b.event.accountID → a.sequence < b.sequence →
    ∀ l₁ l₂, deliveries tr = l₁ ++ b.sequence :: l₂ → a.sequence ∈ l₁

/-- The drain of a record in hand has published what stands before it in the
batch, successfully or not. -/
theorem published_before (h : Runs E tl dl tr w) {cid : Nat} {q : Nat} {a : OutboxRecord}
    (hq : q < (hist cid tr).countP isPublish)
    (ha : ((hist cid tr).flatMap batchOf)[q]? = some a) :
    ∃ t₁ t₂ ev i r, tr = t₁ ++ actEv cid (.publish ev) i r :: t₂ ∧
      inHand (hist cid t₁) = some a ∧ behind (hist cid t₁) =
        ((hist cid tr).flatMap batchOf).drop (q + 1) := by
  obtain ⟨h₁, x, h₂, hh, hx, hcount⟩ := exists_split_countP hq
  obtain ⟨t₁, t₂, rfl, ht₁, -⟩ := hist_split hh
  unfold isPublish at hx
  split at hx
  · rename_i ev i r
    obtain ⟨w₁, -, hrun, -⟩ := runs_at h
    obtain ⟨c, -, hallow⟩ := (contract E tl dl).allows_at h
    cases hallow with
    | @publish record hhand =>
      obtain ⟨now, limit, tok, u, records, hclaim, -⟩ := inHand_claimed hhand
      have hbatch := batch_eq hrun hclaim
      have hbatch' := batch_eq h (hclaim.mono (by rw [hist_append]; exact List.prefix_append _ _))
      rw [hbatch'] at ha
      refine ⟨t₁, t₂, _, i, r, rfl, ?_, ?_⟩
      · rw [inHand, hbatch, ht₁, hcount, ha]
      · rw [behind, hbatch, hbatch', ht₁, hcount]
  · exact absurd hx (by simp)

/-- What was claimable before the record in hand was in the same batch, and
published before it. -/
theorem delivered_in_batch (h : CarefulRuns E tl dl tr w) {cid : Nat} {a record : OutboxRecord}
    (hhand : inHand (hist cid tr) = some record)
    (hsorted : ((hist cid tr).flatMap batchOf).Pairwise fun x y => x.sequence ≤ y.sequence)
    (ha : a ∈ (hist cid tr).flatMap batchOf) (hlt : a.sequence < record.sequence)
    (hacct : a.event.accountID = record.event.accountID) : a.sequence ∈ deliveries tr := by
  obtain ⟨q, hqlt, hq⟩ := List.mem_iff_getElem.mp ha
  have hqa : ((hist cid tr).flatMap batchOf)[q]? = some a := by
    rw [List.getElem?_eq_getElem hqlt, hq]
  obtain ⟨hplt, hp⟩ := List.getElem?_eq_some_iff.mp hhand
  have hbefore : q < (hist cid tr).countP isPublish := by
    by_contra hge
    rcases Nat.lt_or_eq_of_le (Nat.le_of_not_lt hge) with hgt | heq
    · have := List.pairwise_iff_getElem.mp hsorted _ _ hplt hqlt hgt
      rw [hp, hq] at this
      omega
    · subst heq
      rw [hq] at hp
      subst hp
      omega
  have hlater : record ∈ ((hist cid tr).flatMap batchOf).drop (q + 1) := by
    refine List.mem_of_getElem? (i := (hist cid tr).countP isPublish - (q + 1)) ?_
    rw [List.getElem?_drop, Nat.add_sub_cancel' hbefore]
    exact hhand
  obtain ⟨t₁, t₂, ev, i, r, rfl, hhand₁, hbehind⟩ := published_before h.run hbefore hqa
  rw [← hbehind] at hlater
  rcases r with e | ⟨⟩
  · obtain ⟨w₁, -, -, hp₁, -⟩ := h.at_entry
    exact absurd hacct.symm (hp₁.2 cid rfl a hhand₁ record hlater)
  · exact mem_deliveries hhand₁

/-- The records of a claim, and what the claim left behind for a record of
its batch. -/
theorem claim_batch (h : Runs E tl dl tr w) {cid : Nat} {now u : Time} {limit : Int}
    {tok : GoString} {i : Input} {records : List OutboxRecord} {w' : World (switch E)}
    (hstep : Step w (actEv cid (.store (.claimPendingOutbox now limit tok u)) i records) w') :
    records.Pairwise (fun x y => x.sequence ≤ y.sequence) ∧
      (∀ record ∈ records, ∃ b ∈ w.state.store.events, Claimable now b ∧
        b.entry = record.entry) ∧
      ∀ record ∈ records, ∀ a ∈ w.state.store.events, Claimable now a →
        a.sequence < record.sequence → ∃ a' ∈ records, a'.entry = a.entry := by
  obtain ⟨rfl, -⟩ := Prod.mk.inj (Option.some.inj (step_store hstep))
  have : Std.Total fun x y : OutboxRecord => x.sequence ≤ y.sequence :=
    ⟨fun x y => le_total x.sequence y.sequence⟩
  have : IsTrans OutboxRecord fun x y => x.sequence ≤ y.sequence :=
    ⟨fun x y z hxy hyz => le_trans hxy hyz⟩
  refine ⟨List.pairwise_insertionSort _ _, ?_, ?_⟩
  · intro record hrecord
    rw [List.mem_insertionSort] at hrecord
    exact (claims_claimLoop _ _ _ _ _).entries record hrecord
  · intro record hrecord a ha hcl hlt
    rw [List.mem_insertionSort] at hrecord
    obtain ⟨a', ha', he⟩ := claimLoop_before (runs_numbered h).pairwise ha hcl hrecord hlt
    exact ⟨a', (List.mem_insertionSort _).mpr ha', he⟩

/-- In every run whose steps are all careful, each account is delivered in
order. -/
theorem account_ordered_of_careful (h : CarefulRuns E tl dl tr w) : AccountOrdered tr w := by
  intro a ha b hb hacct hlt l₁ l₂ hl
  obtain ⟨t₁, e, t₂, rfl, rfl, hd⟩ := deliveriesFrom_split hl
  obtain ⟨cid, ev, i, record, rfl, hhand, hseq⟩ := delivery_eq_some hd
  rw [List.nil_append] at hhand
  show a.sequence ∈ deliveries t₁
  obtain ⟨w₁, w₂, h₁, -, hstep₁, hrest₁⟩ := h.at_entry
  -- back to the claim of the batch
  obtain ⟨now, limit, tok, u, records, hclaim, hmem⟩ := inHand_claimed hhand
  have hbatch := batch_eq h₁.run hclaim
  obtain ⟨j, hj⟩ := hclaim
  obtain ⟨s₁, s₂, rfl⟩ := List.append_of_mem (mem_hist.mp hj)
  obtain ⟨w₃, w₄, h₃, hcareful, hstep₃, hrest₃⟩ := h₁.at_entry
  obtain ⟨hsorted, hfrom, hfirst⟩ := claim_batch h₃.run hstep₃
  obtain ⟨b₃, hb₃, hcl, hbe⟩ := hfrom record hmem
  -- both records were in the outbox then
  have hrest : Run w₃ _ w :=
    ((Run.nil.snoc hstep₃).append hrest₃).append ((Run.nil.snoc hstep₁).append hrest₁)
  have hb₃seq : b₃.sequence = b.sequence := (congrArg Prod.fst hbe).trans hseq
  obtain ⟨a₃, ha₃, hae⟩ := older_mem h₃.run hrest ha hb₃ (by rw [hb₃seq]; exact hlt)
  have ha₃seq : a₃.sequence = a.sequence := congrArg Prod.fst hae
  have ha₃event : a₃.event = a.event := congrArg Prod.snd hae
  have hb₃event : b₃.event = b.event := by
    have hmem := (runs_entries h₃.run hrest).subset (List.mem_map_of_mem hb₃)
    obtain ⟨b', hb', hbe'⟩ := List.mem_map.mp hmem
    obtain rfl := eq_of_sequence (runs_numbered h.run) hb' hb
      ((congrArg Prod.fst hbe').trans hb₃seq)
    exact (congrArg Prod.snd hbe').symm
  have hacct₃ : a₃.event.accountID = b₃.event.accountID := by rw [ha₃event, hb₃event, hacct]
  have hlt₃ : a₃.sequence < b₃.sequence := by omega
  rcases hcareful.1 now rfl b₃ hb₃ hcl a₃ ha₃ hacct₃ hlt₃ with hpub | hcla
  · rw [← ha₃seq, deliveries_append]
    exact List.mem_append_left _ (delivered_of_published h₃.run ha₃ hpub)
  · have hb₃rec : b₃.event = record.event := congrArg Prod.snd hbe
    obtain ⟨a', ha', hae'⟩ := hfirst record hmem a₃ ha₃ hcla (by omega)
    have ha'seq : a'.sequence = a₃.sequence := congrArg Prod.fst hae'
    have ha'event : a'.event = a₃.event := congrArg Prod.snd hae'
    rw [← ha₃seq, ← ha'seq]
    rw [← hbatch] at hsorted ha'
    refine delivered_in_batch h₁ hhand hsorted ha' (by omega) ?_
    rw [ha'event, ← hb₃rec, hacct₃]

/-- The publisher is down for a while: the oldest record fails on its own,
and a second later one drain publishes all five. -/
def outageLabels : List (Label (switch sampleEnv)) :=
  createLabels ++ drainLabels 1 newYear 7 samplePolicy 1 ++
    publishLabels 1 newYear (.error ⟨[], go "broker down"⟩) ++
    drainLabels 2 (newYear + second) 8 samplePolicy 10 ++
    (List.replicate 5 (publishLabels 2 (newYear + second) (.ok ()))).flatten

set_option maxRecDepth 20000 in
theorem outage_isSome : ((World.init (State.initial sampleEnv none none)).execIf Careful []
    outageLabels).isSome := by
  decide +kernel

/-- The trace and the world of the outage. -/
def outage : Trace (switch sampleEnv) × World (switch sampleEnv) :=
  World.ranIf Careful _ outageLabels outage_isSome

/-- The failed record is retried before the others are published. -/
theorem account_ordered_of_careful_outage :
    deliveries outage.1 = [1, 2, 3, 4, 5] ∧ AccountOrdered outage.1 outage.2 :=
  ⟨by decide +kernel, account_ordered_of_careful (World.runIf_ranIf _ _ _)⟩

/-! ## A relay that goes on after a failed publish -/

/-- The drains that a trace starts. -/
def drains (tr : Trace (switch E)) : List Nat :=
  tr.filterMap fun
    | .spawn cid (.drain _ _) => some cid
    | _ => none

/-- A single relay drains: each drain has ended when the next one starts. -/
def SingleRelay (tr : Trace (switch E)) : Prop :=
  (((tr.map Ev.cid).filter fun cid => cid ∈ drains tr).destutter (· ≠ ·)).Nodup

instance (tr : Trace (switch E)) : Decidable (SingleRelay tr) :=
  inferInstanceAs (Decidable (List.Nodup _))

/-- One drain claims the two oldest records of an account: the publish of the
first one fails, that of the second one succeeds.  The next drain publishes
the first one. -/
def overtakeLabels : List (Label (switch sampleEnv)) :=
  createLabels ++ drainLabels 1 newYear 7 samplePolicy 2 ++
    publishLabels 1 newYear (.error ⟨[], go "broker down"⟩) ++
    publishLabels 1 newYear (.ok ()) ++
    drainLabels 2 (newYear + second) 8 samplePolicy 1 ++
    publishLabels 2 (newYear + second) (.ok ())

set_option maxRecDepth 20000 in
theorem overtake_isSome :
    ((World.init (State.initial sampleEnv none none)).exec overtakeLabels).isSome := by
  decide +kernel

/-- The trace and the world of the overtaken record. -/
def overtake : Trace (switch sampleEnv) × World (switch sampleEnv) :=
  World.ran _ overtakeLabels overtake_isSome

/-- A single relay under a clock that does not go back delivers the second
record of an account before the first one. -/
theorem account_order_overtaken :
    Runs sampleEnv none none overtake.1 overtake.2 ∧ SingleRelay overtake.1 ∧
      Clocked overtake.1 ∧ deliveries overtake.1 = [2, 1] ∧
      ¬ AccountOrdered overtake.1 overtake.2 := by
  have hdel : deliveries overtake.1 = [2, 1] := by decide +kernel
  refine ⟨World.run_ran _ _ _, by decide +kernel, by decide +kernel, hdel, fun hord => ?_⟩
  have h12 : ∃ a ∈ overtake.2.state.store.events, ∃ b ∈ overtake.2.state.store.events,
      a.event.accountID = b.event.accountID ∧ a.sequence = 1 ∧ b.sequence = 2 := by
    decide +kernel
  obtain ⟨a, ha, b, hb, hacct, hseq, hseq'⟩ := h12
  have hmem := hord a ha b hb hacct (by omega) [] [1] (by rw [hdel, hseq', List.nil_append])
  exact absurd hmem List.not_mem_nil

end PixRail.Outbox
