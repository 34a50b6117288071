import PixRail.Go.Segments
import PixRail.Idempotency.Ledger
import PixRail.Submission.Attempt
import PixRail.Submission.Queue

/-!
# Batches of the SPI worker

`SubmitPendingSPI` lists the pending transfers and submits them one after the
other.  A round of its loop that ends with a conflict is skipped; any other
error ends the loop, and the transfers behind it are not attempted.

A `Batch` is a run of the method that nobody interrupts, cut into the listing
and the rounds (`Attempts`).  Every such run is one, unless the listing fails
(`exists_batch`).  The rounds of different transfers do not see each other
(`Submission.Attempt`), so one transfer can influence the others only by
ending the loop.  `batch_independent_iff` compares two batches that differ in
the inputs of one transfer.
-/

namespace PixRail.Submission

open Go Rail Events Store Interleave Switcher Idempotency

variable {E : Env} {id : GoString}

/-! ## The loop -/

/-- One round of the loop of `SubmitPendingSPI`. -/
structure Attempt where
  transfer : Transfer
  acts : History
  result : Except Err Result

/-- The claim of the round was granted. -/
def Attempt.granted (a : Attempt) : Bool := a.acts.any isGrant

/-- The result ends the loop: an error that is no conflict. -/
def Stops : Except Err Result → Prop
  | .error e => ¬ e.is .conflict
  | .ok _ => False

instance : DecidablePred Stops
  | .error e => inferInstanceAs (Decidable (¬ e.is .conflict))
  | .ok _ => inferInstanceAs (Decidable False)

/-- The rounds of the loop over the listed transfers. -/
inductive Attempts (E : Env) : State E → List Transfer → List Attempt → State E → Prop where
  | done (s : State E) : Attempts E s [] [] s
  | stop {s s' : State E} {t : Transfer} {ts : List Transfer} {acts : History}
      {r : Except Err Result} (h : Submitted s t acts r s') (hstop : Stops r) :
      Attempts E s (t :: ts) [⟨t, acts, r⟩] s'
  | next {s s₁ s' : State E} {t : Transfer} {ts : List Transfer} {acts : History}
      {r : Except Err Result} {as : List Attempt} (h : Submitted s t acts r s₁)
      (hgo : ¬ Stops r) (hrest : Attempts E s₁ ts as s') :
      Attempts E s (t :: ts) (⟨t, acts, r⟩ :: as) s'

/-- What the loop returns after its rounds, from the counters `result` on. -/
def tally (result : SPIBatchResult) : List Attempt → SPIBatchResult × Option Err
  | [] => (result, none)
  | a :: as =>
    match a.result with
    | .error e =>
      if e.is .conflict then tally { result with skipped := result.skipped + 1 } as
      else (result, some e)
    | .ok submitted =>
      if submitted.idempotentReplay then tally { result with replayed := result.replayed + 1 } as
      else tally { result with submitted := result.submitted + 1 } as

/-- An execution of the loop is a list of rounds. -/
theorem attempts_of_submitLoop {s s' : State E} {result : SPIBatchResult}
    {pending : List Transfer} {acts : History} {out : SPIBatchResult × Option Err}
    (h : Solo (switch E) (submitLoop E.toLib result pending) s acts out s') :
    ∃ as, acts = as.flatMap (·.acts) ∧ Attempts E s pending as s' := by
  induction pending generalizing s result acts with
  | nil =>
    obtain ⟨rfl, -, rfl⟩ := h.ret_inv
    exact ⟨[], rfl, .done _⟩
  | cons t ts ih =>
    obtain ⟨acts₁, acts₂, r, s₁, rfl, hsub, hrest⟩ := Solo.bind_inv h
    -- the three ways on are the loop with another counter
    have hgo : ∀ result', Solo (switch E) (submitLoop E.toLib result' ts) s₁ acts₂ out s' →
        ¬ Stops r → ∃ as, acts₁ ++ acts₂ = as.flatMap (·.acts) ∧
          Attempts E s (t :: ts) as s' := by
      intro result' hloop hr
      obtain ⟨as, rfl, has⟩ := ih hloop
      exact ⟨⟨t, acts₁, r⟩ :: as, rfl, .next hsub hr has⟩
    cases r with
    | error e =>
      dsimp only at hrest
      split at hrest
      · rename_i hconflict
        exact hgo _ hrest (not_not_intro hconflict)
      · rename_i hstop
        obtain ⟨rfl, -, rfl⟩ := hrest.ret_inv
        exact ⟨[⟨t, acts₁, .error e⟩], by simp, .stop hsub hstop⟩
    | ok submitted =>
      dsimp only at hrest
      split at hrest
      · exact hgo _ hrest id
      · exact hgo _ hrest id

/-- Rounds are an execution of the loop. -/
theorem submitLoop_of_attempts {s s' : State E} {pending : List Transfer} {as : List Attempt}
    (h : Attempts E s pending as s') (result : SPIBatchResult) :
    Solo (switch E) (submitLoop E.toLib result pending) s (as.flatMap (·.acts))
      (tally result as) s' := by
  induction h generalizing result with
  | done s => exact .ret _ _
  | @stop s s' t ts acts r h hstop =>
    rw [List.flatMap_cons]
    refine Solo.bind h ?_
    cases r with
    | error e =>
      simp only [tally, if_neg hstop]
      exact .ret _ _
    | ok submitted => exact absurd hstop id
  | @next s s₁ s' t ts acts r as h hgo hrest ih =>
    rw [List.flatMap_cons]
    refine Solo.bind h ?_
    cases r with
    | error e =>
      simp only [tally, if_pos (not_not.mp hgo)]
      exact ih _
    | ok submitted =>
      simp only [tally]
      split
      · exact ih _
      · exact ih _

section loop

variable {s s' u u' : State E} {t : Transfer} {ts : List Transfer} {as bs : List Attempt}
  {x : GoString}

theorem Attempts.mem (h : Attempts E s ts as s') : ∀ a ∈ as, a.transfer ∈ ts := by
  induction h with
  | done s => simp
  | stop h hstop => simp
  | next h hgo hrest ih =>
    exact List.forall_mem_cons.mpr
      ⟨List.mem_cons_self, fun a ha => List.mem_cons_of_mem _ (ih a ha)⟩

/-- The first round of a loop, and the rest. -/
theorem Attempts.cons_inv (h : Attempts E s (t :: ts) as s') :
    ∃ acts r s₁ rest, as = ⟨t, acts, r⟩ :: rest ∧ Submitted s t acts r s₁ ∧
      (∀ a ∈ rest, a.transfer ∈ ts) ∧
      ((Stops r ∧ rest = [] ∧ s' = s₁) ∨ (¬ Stops r ∧ Attempts E s₁ ts rest s')) := by
  cases h with
  | stop h hstop => exact ⟨_, _, _, [], rfl, h, by simp, .inl ⟨hstop, rfl, rfl⟩⟩
  | next h hgo hrest => exact ⟨_, _, _, _, rfl, h, hrest.mem, .inr ⟨hgo, hrest⟩⟩

/-- The listed transfers have distinct ids, which are not trimmed further. -/
structure Distinct (ts : List Transfer) : Prop where
  nodup : (ts.map (·.id)).Nodup
  trimmed : ∀ t ∈ ts, trimSpace t.id = t.id

theorem Distinct.head (h : Distinct (t :: ts)) : trimSpace t.id = t.id :=
  h.trimmed t List.mem_cons_self

theorem Distinct.tail (h : Distinct (t :: ts)) : Distinct ts where
  nodup := (List.nodup_cons.mp h.nodup).2
  trimmed := fun t ht => h.trimmed t (List.mem_cons_of_mem _ ht)

theorem Distinct.ne (h : Distinct (t :: ts)) {t' : Transfer} (ht' : t' ∈ ts) : t'.id ≠ t.id := by
  intro he
  exact (List.nodup_cons.mp h.nodup).1 (List.mem_map.mpr ⟨t', ht', he⟩)

/-- The loop writes the transfers of its rounds only. -/
theorem Attempts.frame (h : Attempts E s ts as s') (hd : Distinct ts) (hk : s.store.Keyed) :
    s'.store.Keyed ∧ ∀ id, (∀ t ∈ ts, id ≠ t.id) → stored s' id = stored s id := by
  induction h with
  | done s => exact ⟨hk, fun _ _ => rfl⟩
  | stop h hstop =>
    obtain ⟨hk', hsame⟩ := h.frame hd.head hk
    exact ⟨hk', fun id hne => hsame id (hne _ List.mem_cons_self)⟩
  | next h hgo hrest ih =>
    obtain ⟨hk₁, hsame₁⟩ := h.frame hd.head hk
    obtain ⟨hk', hsame⟩ := ih hd.tail hk₁
    refine ⟨hk', fun id hne => ?_⟩
    rw [hsame id fun t ht => hne t (List.mem_cons_of_mem _ ht),
      hsame₁ id (hne _ List.mem_cons_self)]

/-- How far the submission of a transfer has come. -/
def progress (s : State E) (id : GoString) :
    Option (TransferStatus × GoString × GoString × Int) :=
  (stored s id).map fun t =>
    (t.status, t.spiMessageID, t.endToEndID, t.spiSubmissionAttempts)

/-- A round makes progress exactly when its claim is granted. -/
theorem Submitted.progress_iff {acts : History} {r : Except Err Result}
    (h : Submitted s t acts r s') (htrim : trimSpace t.id = t.id) (hk : s.store.Keyed) :
    progress s' t.id = progress s t.id ↔ acts.any isGrant = false := by
  unfold progress
  rcases h.attempts htrim hk with ⟨hno, he⟩ | ⟨hyes, t₀, t₁, hl₀, hl₁, hcount⟩
  · rw [he]
    exact iff_of_true rfl hno
  · rw [hl₀, hl₁, hyes]
    refine iff_of_false (fun he => ?_) (by simp)
    simp only [Option.map_some, Option.some.injEq, Prod.mk.injEq] at he
    omega

/-- The loop makes no progress exactly when no claim is granted. -/
theorem Attempts.progress_iff (h : Attempts E s ts as s') (hd : Distinct ts)
    (hk : s.store.Keyed) :
    (∀ t ∈ ts, progress s' t.id = progress s t.id) ↔ as.any Attempt.granted = false := by
  induction h with
  | done s => simp
  | @stop s s' t ts acts r h hstop =>
    have hrest : ∀ t' ∈ ts, progress s' t'.id = progress s t'.id := fun t' ht' =>
      congrArg _ ((h.frame hd.head hk).2 t'.id (hd.ne ht'))
    rw [List.forall_mem_cons, h.progress_iff hd.head hk]
    simp only [List.any_cons, List.any_nil, Bool.or_false, Attempt.granted]
    exact and_iff_left hrest
  | @next s s₁ s' t ts acts r as h hgo hrest ih =>
    obtain ⟨hk₁, hsame₁⟩ := h.frame hd.head hk
    have hhead : progress s' t.id = progress s₁ t.id :=
      congrArg _ ((hrest.frame hd.tail hk₁).2 t.id fun t' ht' => (hd.ne ht').symm)
    have htail : ∀ t' ∈ ts, progress s₁ t'.id = progress s t'.id := fun t' ht' =>
      congrArg _ (hsame₁ t'.id (hd.ne ht'))
    rw [List.forall_mem_cons, hhead, h.progress_iff hd.head hk, List.any_cons, Bool.or_eq_false_iff,
      ← ih hd.tail hk₁]
    refine and_congr Iff.rfl (forall₂_congr fun t' ht' => ?_)
    rw [htail t' ht']

/-! ## Two loops -/

/-- The loop stops at the transfer `x`. -/
def StopsAt (x : GoString) (as : List Attempt) : Prop :=
  ∃ a ∈ as, a.transfer.id = x ∧ Stops a.result

instance : Decidable (StopsAt x as) :=
  inferInstanceAs (Decidable (∃ a ∈ as, a.transfer.id = x ∧ Stops a.result))

/-- A claim is granted after the round of the transfer `x`. -/
def claimsAfter (x : GoString) : List Attempt → Bool
  | [] => false
  | a :: as => if a.transfer.id = x then as.any Attempt.granted else claimsAfter x as

/-- The rounds of all transfers but `x` have the same inputs. -/
def SameInputs (x : GoString) (as bs : List Attempt) : Prop :=
  ∀ a ∈ as, ∀ b ∈ bs, a.transfer.id = b.transfer.id → a.transfer.id ≠ x →
    a.acts.map (·.inp) = b.acts.map (·.inp)

/-- All transfers but `x` are the same. -/
def SameOff (x : GoString) (s u : State E) : Prop := ∀ id, id ≠ x → stored s id = stored u id

theorem stopsAt_cons {a : Attempt} :
    StopsAt x (a :: as) ↔ (a.transfer.id = x ∧ Stops a.result) ∨ StopsAt x as :=
  List.exists_mem_cons_iff ..

/-- A loop stops at its first transfer exactly when the first round says so. -/
theorem stopsAt_head {acts : History} {r : Except Err Result} (hd : Distinct (t :: ts))
    (hmem : ∀ a ∈ as, a.transfer ∈ ts) : StopsAt t.id (⟨t, acts, r⟩ :: as) ↔ Stops r := by
  rw [stopsAt_cons]
  constructor
  · rintro (⟨-, hstop⟩ | ⟨a, ha, hid, -⟩)
    · exact hstop
    · exact absurd hid (hd.ne (hmem a ha))
  · exact fun hstop => .inl ⟨rfl, hstop⟩

/-- A loop passes over a round of another transfer. -/
theorem stopsAt_tail {a : Attempt} (hne : a.transfer.id ≠ x) :
    StopsAt x (a :: as) ↔ StopsAt x as := by
  rw [stopsAt_cons]
  exact or_iff_right fun h => hne h.1

theorem SameInputs.tail {a b : Attempt} (h : SameInputs x (a :: as) (b :: bs)) :
    SameInputs x as bs :=
  fun a' ha' b' hb' => h a' (List.mem_cons_of_mem _ ha') b' (List.mem_cons_of_mem _ hb')

theorem SameOff.progress_eq (h : SameOff x s u) (hne : id ≠ x) : progress s id = progress u id :=
  congrArg _ (h id hne)

section round

variable {s₁ u₁ : State E} {acts acts' : History} {r r' : Except Err Result}

/-- A round of `x` leaves everything else the same. -/
theorem SameOff.round_self (hsame : SameOff x s u) (hs : Submitted s t acts r s₁)
    (hu : Submitted u t acts' r' u₁) (htrim : trimSpace t.id = t.id) (hks : s.store.Keyed)
    (hku : u.store.Keyed) (hx : t.id = x) : SameOff x s₁ u₁ := by
  intro id hne
  rw [← hx] at hne
  rw [(hs.frame htrim hks).2 id hne, (hu.frame htrim hku).2 id hne]
  exact hsame id (hx ▸ hne)

/-- A round of another transfer under the same inputs goes the same way. -/
theorem SameOff.round_other (hsame : SameOff x s u) (hs : Submitted s t acts r s₁)
    (hu : Submitted u t acts' r' u₁) (htrim : trimSpace t.id = t.id) (hks : s.store.Keyed)
    (hku : u.store.Keyed) (hx : t.id ≠ x) (hin : acts.map (·.inp) = acts'.map (·.inp)) :
    r = r' ∧ SameOff x s₁ u₁ := by
  obtain ⟨-, hr, hagree⟩ := hs.agree hu htrim hin (hsame t.id hx)
  refine ⟨hr, fun id hne => ?_⟩
  by_cases hid : id = t.id
  · rw [hid]
    exact hagree
  · rw [(hs.frame htrim hks).2 id hid, (hu.frame htrim hku).2 id hid]
    exact hsame id hne

end round

/-- Two loops that both stop at `x`, or both do not, leave all other transfers
the same. -/
theorem Attempts.agree (h : Attempts E s ts as s') (h' : Attempts E u ts bs u')
    (hd : Distinct ts) (hks : s.store.Keyed) (hku : u.store.Keyed) (hsame : SameOff x s u)
    (hin : SameInputs x as bs) (hstops : StopsAt x as ↔ StopsAt x bs) : SameOff x s' u' := by
  induction ts generalizing s u as bs with
  | nil =>
    cases h
    cases h'
    exact hsame
  | cons t ts ih =>
    obtain ⟨acts, r, s₁, as, rfl, hs, hmem, hrest⟩ := h.cons_inv
    obtain ⟨acts', r', u₁, bs, rfl, hu, hmem', hrest'⟩ := h'.cons_inv
    have hround : (Stops r ↔ Stops r') ∧ SameOff x s₁ u₁ ∧ (StopsAt x as ↔ StopsAt x bs) := by
      by_cases hx : t.id = x
      · refine ⟨?_, hsame.round_self hs hu hd.head hks hku hx, ?_⟩
        · subst hx
          rwa [stopsAt_head hd hmem, stopsAt_head hd hmem'] at hstops
        · -- `x` is not listed again
          refine iff_of_false ?_ ?_
          · rintro ⟨a, ha, hid, -⟩
            exact hd.ne (hmem a ha) (hid.trans hx.symm)
          · rintro ⟨b, hb, hid, -⟩
            exact hd.ne (hmem' b hb) (hid.trans hx.symm)
      · obtain ⟨rfl, hsame₁⟩ := hsame.round_other hs hu hd.head hks hku hx
          (hin _ List.mem_cons_self _ List.mem_cons_self rfl hx)
        rw [stopsAt_tail hx, stopsAt_tail hx] at hstops
        exact ⟨Iff.rfl, hsame₁, hstops⟩
    obtain ⟨hverdict, hsame₁, hstops₁⟩ := hround
    rcases hrest with ⟨hstop, -, rfl⟩ | ⟨hgo, hrest⟩
    · rcases hrest' with ⟨-, -, rfl⟩ | ⟨hgo', -⟩
      · exact hsame₁
      · exact absurd (hverdict.mp hstop) hgo'
    · rcases hrest' with ⟨hstop', -, -⟩ | ⟨-, hrest'⟩
      · exact absurd (hverdict.mpr hstop') hgo
      · exact ih hrest hrest' hd.tail (hs.frame hd.head hks).1 (hu.frame hd.head hku).1 hsame₁
          hin.tail hstops₁

/-- When only one of two loops stops at `x`, the other transfers come as far
in both exactly when the other loop is granted no claim after `x`. -/
theorem Attempts.differ (h : Attempts E s ts as s') (h' : Attempts E u ts bs u')
    (hd : Distinct ts) (hks : s.store.Keyed) (hku : u.store.Keyed) (hsame : SameOff x s u)
    (hin : SameInputs x as bs) (hstop : StopsAt x as) (hgo : ¬ StopsAt x bs) :
    claimsAfter x as = false ∧
      ((∀ t ∈ ts, t.id ≠ x → progress s' t.id = progress u' t.id) ↔
        claimsAfter x bs = false) := by
  induction ts generalizing s u as bs with
  | nil =>
    cases h
    exact absurd hstop (by simp [StopsAt])
  | cons t ts ih =>
    obtain ⟨acts, r, s₁, as, rfl, hs, hmem, hrest⟩ := h.cons_inv
    obtain ⟨acts', r', u₁, bs, rfl, hu, hmem', hrest'⟩ := h'.cons_inv
    have hku₁ := (hu.frame hd.head hku).1
    by_cases hx : t.id = x
    · have hsame₁ := hsame.round_self hs hu hd.head hks hku hx
      subst hx
      rw [stopsAt_head hd hmem] at hstop
      rw [stopsAt_head hd hmem'] at hgo
      obtain ⟨-, rfl, rfl⟩ := hrest.resolve_right fun hr => hr.1 hstop
      obtain ⟨-, hrest'⟩ := hrest'.resolve_left fun hr => hgo hr.1
      simp only [claimsAfter, if_true, List.any_nil, true_and]
      rw [← hrest'.progress_iff hd.tail hku₁, List.forall_mem_cons]
      constructor
      · rintro ⟨-, hall⟩ t' ht'
        rw [← hall t' ht' (hd.ne ht'), hsame₁.progress_eq (hd.ne ht')]
      · intro hall
        refine ⟨fun hne => absurd rfl hne, fun t' ht' hne => ?_⟩
        rw [hall t' ht', hsame₁.progress_eq hne]
    · obtain ⟨rfl, hsame₁⟩ := hsame.round_other hs hu hd.head hks hku hx
        (hin _ List.mem_cons_self _ List.mem_cons_self rfl hx)
      rw [stopsAt_tail hx] at hstop hgo
      have hnext : ¬ Stops r ∧ Attempts E s₁ ts as s' := by
        refine hrest.resolve_left fun hr => ?_
        rw [hr.2.1] at hstop
        exact absurd hstop (by simp [StopsAt])
      obtain ⟨-, hrest'⟩ := hrest'.resolve_left fun hr => hnext.1 hr.1
      have hks₁ := (hs.frame hd.head hks).1
      obtain ⟨hclaims, hiff⟩ :=
        ih hnext.2 hrest' hd.tail hks₁ hku₁ hsame₁ hin.tail hstop hgo
      -- the first transfer is not touched by the later rounds
      have hhead : progress s' t.id = progress u' t.id := by
        have hs' := (hnext.2.frame hd.tail hks₁).2 t.id fun t' ht' => (hd.ne ht').symm
        have hu' := (hrest'.frame hd.tail hku₁).2 t.id fun t' ht' => (hd.ne ht').symm
        unfold progress
        rw [hs', hu', hsame₁ t.id hx]
      simp only [claimsAfter, if_neg hx]
      refine ⟨hclaims, ?_⟩
      rw [← hiff, List.forall_mem_cons]
      exact and_iff_right fun _ => hhead

end loop

/-! ## Batches -/

/-- A run of `SubmitPendingSPI` from the world `w` that nobody interrupts, cut
into the listing and the rounds of the loop. -/
structure Batch (w : World (switch E)) (limit : Int) where
  cid : Nat
  listing : History
  pending : List Transfer
  attempts : List Attempt
  after : World (switch E)
  run : Run w (spawnEv cid (.submitPendingSPI limit) ::
    (listing ++ attempts.flatMap (·.acts)).map (Ev.act cid)) after
  listed : Solo (switch E) (pendingSPISubmissions limit) w.state listing (.ok pending) w.state
  attempted : Attempts E w.state pending attempts after.state

section batch

variable {w w' : World (switch E)} {limit : Int} {cid : Nat}

/-- The listing only reads. -/
theorem listing_inv {s s' : State E} {h : History} {r : Except Err (List Transfer)}
    (hs : Solo (switch E) (pendingSPISubmissions limit) s h r s') :
    s' = s ∧ ∀ pending, r = .ok pending → ∃ order now, s.store.RangeOrder order ∧
      pending = s.store.pendingSPISubmissions order now limit := by
  obtain ⟨i₁, ctx, s₁, h₁, rfl, hhealth, hs⟩ := hs.call_inv
  obtain ⟨-, rfl⟩ := Prod.mk.inj (Option.some.inj hhealth)
  cases ctx with
  | some err =>
    obtain ⟨-, rfl, rfl⟩ := hs.ret_inv
    exact ⟨rfl, fun pending he => absurd he (by simp)⟩
  | none =>
    obtain ⟨i₂, now, s₂, h₂, rfl, hnow, hs⟩ := hs.call_inv
    obtain ⟨-, rfl⟩ := Prod.mk.inj (Option.some.inj hnow)
    obtain ⟨i₃, pending, s₃, h₃, rfl, hlist, hs⟩ := hs.call_inv
    obtain ⟨-, rfl, rfl⟩ := hs.ret_inv
    cases ha : i₃.answer with
    | order order =>
      by_cases horder : s.store.RangeOrder order
      · simp only [handle, storeHandle, ha, if_pos horder] at hlist
        obtain ⟨rfl, rfl⟩ := Prod.mk.inj (Option.some.inj hlist)
        exact ⟨rfl, fun pending he => ⟨order, now, horder, (Except.ok.inj he).symm⟩⟩
      · simp [handle, storeHandle, ha, if_neg horder] at hlist
    | _ => simp [handle, storeHandle, ha] at hlist

/-- Every run of `SubmitPendingSPI` alone is such a batch, unless the listing
fails. -/
theorem exists_batch {acts : Trace (switch E)} {out : Outcome}
    (hrun : Run w (spawnEv cid (.submitPendingSPI limit) :: acts) w')
    (halone : ∀ e ∈ acts, e.cid = cid) (hresult : w'.result cid = some out) :
    (w'.state = w.state ∧ ∃ e, out = .batch ({}, some e)) ∨
      ∃ b : Batch w limit, b.cid = cid ∧ b.after = w' ∧
        acts = (b.listing ++ b.attempts.flatMap (·.acts)).map (Ev.act cid) := by
  have hcut : Run w ([] ++ spawnEv cid (.submitPendingSPI limit) :: acts) w' := hrun
  obtain ⟨w₀, w₁, h₀, hstep, hrest⟩ := hcut.at_entry
  obtain rfl := h₀.nil_inv
  cases hstep with
  | spawn c hfree =>
    obtain ⟨h, rfl, hsolo⟩ := Solo.of_run hrest halone (World.put_threads_self ..) hresult
    obtain ⟨result, rfl, hbatch⟩ := Solo.map_inv hsolo
    obtain ⟨h₁, h₂, r, s₁, rfl, hlist, hloop⟩ := Solo.bind_inv hbatch
    obtain rfl : s₁ = w₀.state := (listing_inv hlist).1
    cases r with
    | error e =>
      obtain ⟨-, rfl, he⟩ := hloop.ret_inv
      exact .inl ⟨he, e, rfl⟩
    | ok pending =>
      obtain ⟨as, rfl, has⟩ := attempts_of_submitLoop hloop
      exact .inr ⟨⟨cid, h₁, pending, as, w', hrun, hlist, has⟩, rfl, rfl, rfl⟩

/-! ## The listed transfers -/

theorem trimmed_newID {tag : GoString} (htag : Trimmed tag) (now : Time)
    (bytes : Option (List UInt8)) : Trimmed (newID tag now bytes) := by
  have hsep : Plain 0x5F := by decide
  have hgo : go "_" = [0x5F] := by decide +kernel
  cases bytes with
  | some bytes =>
    rw [newID, hgo, List.append_assoc, List.singleton_append]
    exact htag.append hsep (trimmed_of_plain plain_hexEncode)
  | none =>
    rw [newID, hgo, List.append_assoc, List.singleton_append]
    exact htag.append hsep (trimmed_of_plain (plain_itoa _))

variable {tl dl : Option E.Lim} {tr : Trace (switch E)}

/-- The id of a stored transfer was drawn, so there is nothing to trim. -/
theorem runs_trimmed (h : Runs E tl dl tr w) {t : Transfer} (hl : stored w.state id = some t) :
    trimSpace t.id = t.id := by
  obtain ⟨cid, t₀, evs, auds, i, ha, hsame⟩ := runs_origin h hl
  obtain ⟨t₁, t₂, rfl⟩ := List.append_of_mem ha
  obtain ⟨j, hdrawn⟩ := (insert_call h).drawn
  obtain ⟨t₃, t₄, rfl⟩ := List.append_of_mem hdrawn
  rw [List.append_assoc, List.cons_append] at h
  obtain ⟨w₁, w₂, -, hstep, -⟩ := h.at_entry
  rw [hsame.id]
  apply trimSpace_eq_self
  cases hstep with
  | act hthread hhandle =>
    cases hanswer : j.answer with
    | random bytes =>
      simp only [handle, hanswer] at hhandle
      split at hhandle
      · obtain ⟨hid, -⟩ := Prod.mk.inj (Option.some.inj hhandle)
        rw [← hid]
        exact trimmed_newID (by decide +kernel) _ _
      · exact absurd hhandle (by simp)
    | _ => simp [handle, hanswer] at hhandle

theorem Batch.distinct (h : Runs E tl dl tr w) (b : Batch w limit) : Distinct b.pending := by
  obtain ⟨order, now, horder, hpending⟩ := (listing_inv b.listed).2 b.pending rfl
  have hk := runs_keyed h
  constructor
  · rw [hpending]
    exact first_nodup ((range_nodup hk horder).sublist (List.filter_sublist.map _))
  · intro t ht
    rw [hpending] at ht
    have hmem := (List.mem_filter.mp (mem_of_mem_first ht)).1
    exact runs_trimmed h ((mem_range hk horder).mp hmem)

/-! ## Independence -/

/-- The batches list the same, and the rounds of all transfers but `x` have
the same inputs. -/
structure SameBut (x : GoString) (b₁ b₂ : Batch w limit) : Prop where
  listing : b₁.listing.map (·.inp) = b₂.listing.map (·.inp)
  rounds : SameInputs x b₁.attempts b₂.attempts

theorem SameInputs.symm {x : GoString} {as bs : List Attempt} (h : SameInputs x as bs) :
    SameInputs x bs as :=
  fun b hb a ha hid hne => (h a ha b hb hid.symm (hid ▸ hne)).symm

/-- Two batches from one reachable world that differ only in the inputs for
`x`: all other transfers come as far in both exactly when `x` stops both or
neither, or no claim is granted after `x` anyway. -/
theorem batch_independent_iff (h : Runs E tl dl tr w) {x : GoString} {b₁ b₂ : Batch w limit}
    (hsame : SameBut x b₁ b₂) :
    (∀ t ∈ b₁.pending, t.id ≠ x →
        progress b₁.after.state t.id = progress b₂.after.state t.id) ↔
      (StopsAt x b₁.attempts ↔ StopsAt x b₂.attempts) ∨
        (claimsAfter x b₁.attempts = false ∧ claimsAfter x b₂.attempts = false) := by
  have hk := runs_keyed h
  have hd := b₁.distinct h
  obtain ⟨-, hpending, -⟩ := b₁.listed.deterministic b₂.listed hsame.listing
  have hattempted := b₂.attempted
  rw [← Except.ok.inj hpending] at hattempted
  have hstart : SameOff x w.state w.state := fun _ _ => rfl
  by_cases hstops : StopsAt x b₁.attempts ↔ StopsAt x b₂.attempts
  · have hoff := b₁.attempted.agree hattempted hd hk hk hstart hsame.rounds hstops
    exact iff_of_true (fun t _ hne => hoff.progress_eq hne) (.inl hstops)
  · rw [or_iff_right hstops]
    by_cases hstop : StopsAt x b₁.attempts
    · have hgo : ¬ StopsAt x b₂.attempts := fun h => hstops (iff_of_true hstop h)
      obtain ⟨hnone, hiff⟩ :=
        b₁.attempted.differ hattempted hd hk hk hstart hsame.rounds hstop hgo
      rw [hiff]
      exact (and_iff_right hnone).symm
    · have hstop' : StopsAt x b₂.attempts := by
        by_contra hgo
        exact hstops (iff_of_false hstop hgo)
      obtain ⟨hnone, hiff⟩ :=
        hattempted.differ b₁.attempted hd hk hk hstart hsame.rounds.symm hstop' hstop
      rw [and_iff_left hnone, ← hiff]
      exact forall₃_congr fun _ _ _ => eq_comm

/-! ## Executing batches -/

/-- Execute the rounds of the loop, each under its own inputs. -/
def execAttempts (E : Env) : State E → List Transfer → List (List Input) →
    Option (List Attempt × State E)
  | s, [], [] => some ([], s)
  | s, t :: ts, is :: rounds =>
    match (submitToSPI E.toLib t.tenantID t.id t.correlationID).execAlone (switch E) s is with
    | none => none
    | some (acts, r, s₁) =>
      if Stops r then
        if rounds.isEmpty then some ([⟨t, acts, r⟩], s₁) else none
      else
        match execAttempts E s₁ ts rounds with
        | none => none
        | some (as, s') => some (⟨t, acts, r⟩ :: as, s')
  | _, _, _ => none

theorem attempts_of_exec {s s' : State E} {ts : List Transfer} {rounds : List (List Input)}
    {as : List Attempt} (h : execAttempts E s ts rounds = some (as, s')) :
    Attempts E s ts as s' := by
  induction ts generalizing s rounds as with
  | nil =>
    cases rounds with
    | nil =>
      obtain ⟨rfl, rfl⟩ := Prod.mk.inj (Option.some.inj h)
      exact .done _
    | cons is rounds => exact absurd h (by simp [execAttempts])
  | cons t ts ih =>
    cases rounds with
    | nil => exact absurd h (by simp [execAttempts])
    | cons is rounds =>
      simp only [execAttempts] at h
      split at h
      · exact absurd h (by simp)
      · rename_i acts r s₁ hexec
        have hsub : Submitted s t acts r s₁ := Solo.of_execAlone hexec
        split at h
        · rename_i hstop
          split at h
          · obtain ⟨rfl, rfl⟩ := Prod.mk.inj (Option.some.inj h)
            exact .stop hsub hstop
          · exact absurd h (by simp)
        · rename_i hgo
          split at h
          · exact absurd h (by simp)
          · rename_i rest s₂ hrest
            obtain ⟨rfl, rfl⟩ := Prod.mk.inj (Option.some.inj h)
            exact .next hsub hgo (ih hrest)

/-- Execute the listing and the rounds. -/
def execBatch (s : State E) (limit : Int) (first : List Input) (rounds : List (List Input)) :
    Option (History × List Transfer × List Attempt × State E) :=
  match (pendingSPISubmissions limit).execAlone (switch E) s first with
  | some (listing, .ok pending, s₁) =>
    match execAttempts E s₁ pending rounds with
    | some (as, s') => some (listing, pending, as, s')
    | none => none
  | _ => none

theorem execBatch_spec {s s' : State E} {first : List Input} {rounds : List (List Input)}
    {listing : History} {pending : List Transfer} {as : List Attempt}
    (h : execBatch s limit first rounds = some (listing, pending, as, s')) :
    Solo (switch E) (pendingSPISubmissions limit) s listing (.ok pending) s ∧
      Attempts E s pending as s' := by
  unfold execBatch at h
  split at h
  · rename_i listing₁ pending₁ s₁ hlist
    have hsolo : Solo (switch E) (pendingSPISubmissions limit) s listing₁ (.ok pending₁) s₁ :=
      Solo.of_execAlone hlist
    obtain rfl := (listing_inv hsolo).1
    split at h
    · rename_i as₁ s₂ hrounds
      simp only [Option.some.injEq, Prod.mk.injEq] at h
      obtain ⟨rfl, rfl, rfl, rfl⟩ := h
      exact ⟨hsolo, attempts_of_exec hrounds⟩
    · exact absurd h (by simp)
  · exact absurd h (by simp)

/-- A listing and rounds of the loop are a batch. -/
def Batch.ofAttempts (cid : Nat) (hfree : w.threads cid = none) {listing : History}
    {pending : List Transfer} {attempts : List Attempt} {s' : State E}
    (listed : Solo (switch E) (pendingSPISubmissions limit) w.state listing (.ok pending) w.state)
    (attempted : Attempts E w.state pending attempts s') : Batch w limit where
  cid := cid
  listing := listing
  pending := pending
  attempts := attempts
  after := w.put s' cid ⟨.submitPendingSPI limit,
    .ret (.batch (tally { scanned := pending.length } attempts))⟩
  run := by
    have hbody : Solo (switch E) (body E.toLib (.submitPendingSPI limit)) w.state
        (listing ++ attempts.flatMap (·.acts))
        (.batch (tally { scanned := pending.length } attempts)) s' :=
      (listed.bind (submitLoop_of_attempts attempted _)).map
    have hstart : Run w [spawnEv cid (.submitPendingSPI limit)]
        (w.put w.state cid ⟨.submitPendingSPI limit, body E.toLib (.submitPendingSPI limit)⟩) :=
      Run.nil.snoc (.spawn _ hfree)
    have hrest := Solo.run (w := w.put w.state cid
      ⟨.submitPendingSPI limit, body E.toLib (.submitPendingSPI limit)⟩) hbody
      (World.put_threads_self ..)
    rw [World.put_put] at hrest
    exact hstart.append hrest
  listed := listed
  attempted := attempted

def Batch.ofExec (w : World (switch E)) (limit : Int) (cid : Nat) (hfree : w.threads cid = none)
    (first : List Input) (rounds : List (List Input))
    (h : (execBatch w.state limit first rounds).isSome) : Batch w limit :=
  have hspec := execBatch_spec (Option.some_get h).symm
  Batch.ofAttempts cid hfree hspec.1 hspec.2

end batch

/-! ## Two transfers in a batch -/

deriving instance DecidableEq for Answer
deriving instance DecidableEq for Input

instance (x : GoString) (as bs : List Attempt) : Decidable (SameInputs x as bs) :=
  inferInstanceAs (Decidable (∀ a ∈ as, ∀ b ∈ bs, a.transfer.id = b.transfer.id →
    a.transfer.id ≠ x → a.acts.map (·.inp) = b.acts.map (·.inp)))

/-- The time of the batches, two seconds into the year. -/
def batchTime : Time := newYear + 2 * second

/-- The inputs of a listing that ranges over the two transfers. -/
def listInputs : List Input :=
  [tick batchTime, tick batchTime,
    { now := batchTime, answer := .order [laterID, sampleID] }]

/-- The inputs of a round that the SPI answers with `r`. -/
def roundInputs (n : UInt8) (r : Except Err SPIMessage) : List Input :=
  [draw batchTime n, tick batchTime, tick batchTime, { now := batchTime, answer := .spi r }] ++
    match r with
    | .ok _ => [draw batchTime (n + 1), tick batchTime, draw batchTime (n + 2), tick batchTime,
        tick batchTime]
    | .error _ => [tick batchTime, tick batchTime]

/-- The answer of the SPI for the second transfer. -/
def laterMessage : SPIMessage where
  messageID := go "spi_2"
  endToEndID := go "E2"
  transferID := laterID
  submittedAt := batchTime

/-- The SPI cannot be reached. -/
def spiDown : Err := ⟨[], go "spi unavailable"⟩

theorem queue_free : queue.2.threads 2 = none := by
  rw [← Option.isNone_iff_eq_none]
  decide +kernel

set_option maxRecDepth 20000 in
theorem batches_isSome :
    (execBatch queue.2.state 10 listInputs
      [roundInputs 30 (.ok sampleMessage), roundInputs 40 (.ok laterMessage)]).isSome ∧
    (execBatch queue.2.state 10 listInputs
      [roundInputs 30 (.error (ErrKind.conflict.wrap (go "spi"))),
        roundInputs 40 (.ok laterMessage)]).isSome ∧
    (execBatch queue.2.state 10 listInputs [roundInputs 30 (.error spiDown)]).isSome := by
  decide +kernel

/-- The SPI accepts both transfers. -/
def acceptedBatch : Batch queue.2 10 :=
  .ofExec queue.2 10 2 queue_free _ _ batches_isSome.1

/-- The SPI answers the first transfer with a conflict. -/
def skippedBatch : Batch queue.2 10 :=
  .ofExec queue.2 10 2 queue_free _ _ batches_isSome.2.1

/-- The SPI cannot be reached for the first transfer. -/
def stoppedBatch : Batch queue.2 10 :=
  .ofExec queue.2 10 2 queue_free _ _ batches_isSome.2.2

set_option maxRecDepth 20000 in
theorem batches_sameInputs :
    (acceptedBatch.listing.map (·.inp) = skippedBatch.listing.map (·.inp) ∧
      SameInputs sampleID acceptedBatch.attempts skippedBatch.attempts) ∧
    (acceptedBatch.listing.map (·.inp) = stoppedBatch.listing.map (·.inp) ∧
      SameInputs sampleID acceptedBatch.attempts stoppedBatch.attempts) := by
  decide +kernel

/-- A conflict on the first transfer is skipped, and the second one is
submitted as if nothing had happened. -/
theorem batch_independent_skipped :
    (∀ t ∈ acceptedBatch.pending, t.id ≠ sampleID →
        progress acceptedBatch.after.state t.id = progress skippedBatch.after.state t.id) ∧
      acceptedBatch.pending.map (·.id) = [sampleID, laterID] ∧
      progress skippedBatch.after.state laterID = some (.approved, go "spi_2", go "E2", 1) := by
  obtain ⟨⟨hlisting, hrounds⟩, -⟩ := batches_sameInputs
  refine ⟨(batch_independent_iff queue_runs ⟨hlisting, hrounds⟩).mpr (.inl ?_), ?_⟩ <;>
    decide +kernel

/-- When the SPI cannot be reached for the first transfer, the second one is
not attempted; when the SPI accepts the first, the second is submitted. -/
theorem batch_stops_at_first :
    Runs sampleEnv none none queue.1 queue.2 ∧ SameBut sampleID acceptedBatch stoppedBatch ∧
      acceptedBatch.pending.map (·.id) = [sampleID, laterID] ∧
      progress acceptedBatch.after.state laterID = some (.approved, go "spi_2", go "E2", 1) ∧
      progress stoppedBatch.after.state laterID = some (.accepted, [], [], 0) ∧
      ¬ ∀ t ∈ acceptedBatch.pending, t.id ≠ sampleID →
        progress acceptedBatch.after.state t.id = progress stoppedBatch.after.state t.id := by
  obtain ⟨-, hlisting, hrounds⟩ := batches_sameInputs
  refine ⟨queue_runs, ⟨hlisting, hrounds⟩, ?_⟩
  decide +kernel

end PixRail.Submission
