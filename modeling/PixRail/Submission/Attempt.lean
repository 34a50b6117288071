import PixRail.Interleave.Solo
import PixRail.Switcher.Runs

/-!
# One submission of a transfer

`SubmitToSPI` for one transfer, while nobody else takes a step.  It reads and
writes its own transfer only: every operation of the method names that
transfer or does not touch the store (`submitToSPI_concerns`).  So it leaves
all other transfers as they are (`Submitted.frame`), and what it does depends
on its inputs and on its own transfer (`Submitted.agree`).  It counts as an
attempt exactly when its claim is granted (`Submitted.attempts`).
-/

namespace PixRail.Submission

open Go Rail Events Store Interleave Switcher

variable {E : Env} {id : GoString}

/-! ## The operations of one submission -/

/-- The operations of `SubmitToSPI` for the transfer `id` after its claim. -/
inductive Finishes (id : GoString) : Op → Prop where
  | now : Finishes id .now
  | newID (tag : GoString) : Finishes id (.newID tag)
  | submit (t : Transfer) : Finishes id (.submit t)
  | record (tn tok : GoString) (m : SPIMessage) (evs : List Event) (aud : AuditRecord) :
      Finishes id (.store (.recordSPISubmission tn id tok m evs aud))
  | release (tn tok e : GoString) (r : Time) :
      Finishes id (.store (.releaseSPISubmission tn id tok e r))

/-- The operations of `SubmitToSPI` for the transfer `id`. -/
inductive Concerns (id : GoString) : Op → Prop where
  | claim (tn tok : GoString) (u : Time) :
      Concerns id (.store (.claimSPISubmission tn id tok u))
  | finishes {o : Op} (h : Finishes id o) : Concerns id o

section programs

variable {L : Lib} {tn tok cor : GoString}

theorem releaseAndFail_finishes (e : Err) :
    (releaseAndFail tn id tok e).Only (Finishes id) :=
  ⟨.now, fun _ => ⟨.release .., fun _ => trivial⟩⟩

theorem spiEvent_finishes (current : Transfer) (ty : EventType) (p : Payload) :
    (spiEvent L current cor ty p).Only (Finishes id) :=
  ⟨.newID _, fun _ => ⟨.now, fun _ => trivial⟩⟩

theorem submitClaimed_finishes (current : Transfer) :
    (submitClaimed L tn id tok cor current).Only (Finishes id) := by
  refine ⟨.submit current, fun r => ?_⟩
  cases r with
  | error e => exact releaseAndFail_finishes e
  | ok message =>
    refine (spiEvent_finishes _ _ _).bind fun r => ?_
    cases r with
    | error e => exact releaseAndFail_finishes e
    | ok created =>
      refine (spiEvent_finishes _ _ _).bind fun r => ?_
      cases r with
      | error e => exact releaseAndFail_finishes e
      | ok approved =>
        refine ⟨.record .., fun r => ?_⟩
        rcases r with e | ⟨updated, _ | _⟩ <;> trivial

theorem submitToSPI_concerns :
    (submitToSPI L tn id cor).Only (Concerns (trimSpace id)) := by
  unfold submitToSPI
  dsimp only
  split
  · trivial
  · refine ⟨.finishes (.newID _), fun tok => ⟨.finishes .now, fun now => ⟨.claim .., fun r => ?_⟩⟩⟩
    rcases r with e | ⟨current, _ | _⟩
    · trivial
    · exact (submitClaimed_finishes current).mono fun _ => .finishes
    · trivial

end programs

/-! ## What an operation reads and writes -/

/-- The action is a claim that was granted. -/
def isGrant : Action sig Input → Bool
  | ⟨.store (.claimSPISubmission _ _ _ _), _, .ok (_, false)⟩ => true
  | _ => false

/-- The stored transfer. -/
abbrev stored (s : State E) (id : GoString) : Option Transfer := s.store.transfers.lookup id

section operations

variable {o : Op} {i : Input} {s s' u u' : State E} {r r' : o.Ret}

/-- A transition by such an operation is one of the transfer `id`. -/
theorem concerns_moves {c : StoreCall} {t t' : Transfer} (hc : Concerns id (.store c))
    (hm : Moves i c t t') : t.id = id := by
  cases hc with
  | claim => cases hm with | claim => rfl
  | finishes h =>
    cases h with
    | record => cases hm with | record => rfl
    | release => cases hm with | release => rfl

/-- Other transfers stay as they are. -/
theorem concerns_frame (hc : Concerns id o) (h : handle E o i s = some (r, s'))
    (hk : s.store.Keyed) :
    s'.store.Keyed ∧ ∀ id', id' ≠ id → stored s' id' = stored s id' := by
  refine ⟨handle_keyed hk h, fun id' hne => ?_⟩
  unfold stored
  rcases handle_store h with ⟨-, he⟩ | ⟨c, r₁, ha, hstore⟩
  · rw [he]
  · have ho : o = .store c := congrArg Action.op ha
    subst ho
    rcases storeHandle_cases hstore with ⟨he, -⟩ | hs
    · rw [he]
    · rcases hs.transfers_cases hk with ⟨he, -⟩ | ⟨t, evs, auds, rfl, -, -⟩ | ⟨t, t', -, hm, he⟩
      · rw [he]
      · cases hc with | finishes h => cases h
      · rw [he, Finmap.lookup_insert_of_ne]
        rw [concerns_moves hc hm]
        exact hne

theorem lookup_putTransfer_congr {m n : MemoryStore}
    (h : m.transfers.lookup id = n.transfers.lookup id) (t : Transfer) :
    (m.putTransfer t).transfers.lookup id = (n.putTransfer t).transfers.lookup id := by
  unfold MemoryStore.putTransfer
  by_cases hid : id = t.id
  · subst hid
    rw [Finmap.lookup_insert, Finmap.lookup_insert]
  · rwa [Finmap.lookup_insert_of_ne _ hid, Finmap.lookup_insert_of_ne _ hid]

/-- The stores have the same transfer under `id`. -/
abbrev SameAt (id : GoString) (m n : MemoryStore) : Prop :=
  m.transfers.lookup id = n.transfers.lookup id

theorem SameAt.owned {m n : MemoryStore} (h : SameAt id m n) (tn : GoString) :
    m.owned tn id = n.owned tn id := by
  unfold MemoryStore.owned
  rw [h]

/-- The end of the three methods on a transfer: an early answer, or a
transition that may fail. -/
theorem SameAt.verdict {α : Type} {m n : MemoryStore} (h : SameAt id m n) {skip : Prop}
    [Decidable skip] (early : Except Err α) (step : Except Err Transfer) (moved : Transfer → α)
    (put : MemoryStore → Transfer → MemoryStore) (hput : ∀ t, SameAt id (put m t) (put n t)) :
    let verdict : MemoryStore → Except Err α × MemoryStore := fun s =>
      if skip then (early, s)
      else
        match step with
        | .error err => (.error err, s)
        | .ok t => (.ok (moved t), put s t)
    (verdict m).1 = (verdict n).1 ∧ SameAt id (verdict m).2 (verdict n).2 := by
  dsimp only
  split
  · exact ⟨rfl, h⟩
  · cases step with
    | error err => exact ⟨rfl, h⟩
    | ok t => exact ⟨rfl, hput t⟩

theorem claimSPISubmission_congr {m n : MemoryStore} (h : SameAt id m n) (ctx : Ctx) (now : Time)
    (tn tok : GoString) (until_ : Time) :
    (m.claimSPISubmission ctx now tn id tok until_).1 =
        (n.claimSPISubmission ctx now tn id tok until_).1 ∧
      SameAt id (m.claimSPISubmission ctx now tn id tok until_).2
        (n.claimSPISubmission ctx now tn id tok until_).2 := by
  unfold MemoryStore.claimSPISubmission
  rw [h.owned tn]
  cases ctx with
  | some err => exact ⟨rfl, h⟩
  | none =>
    cases n.owned tn id with
    | none => exact ⟨rfl, h⟩
    | some t =>
      exact h.verdict _ (t.claimSPISubmission tok until_ now) (·, false) MemoryStore.putTransfer
        (lookup_putTransfer_congr h)

theorem recordSPISubmission_congr {m n : MemoryStore} (h : SameAt id m n) (ctx : Ctx)
    (tn tok : GoString) (msg : SPIMessage) (evs : List Event) (aud : AuditRecord) :
    (m.recordSPISubmission ctx tn id tok msg evs aud).1 =
        (n.recordSPISubmission ctx tn id tok msg evs aud).1 ∧
      SameAt id (m.recordSPISubmission ctx tn id tok msg evs aud).2
        (n.recordSPISubmission ctx tn id tok msg evs aud).2 := by
  unfold MemoryStore.recordSPISubmission
  rw [h.owned tn]
  cases ctx with
  | some err => exact ⟨rfl, h⟩
  | none =>
    cases n.owned tn id with
    | none => exact ⟨rfl, h⟩
    | some t =>
      refine h.verdict _ (t.recordSPISubmission tok msg) (·, false) (fun s t => s.write t evs [aud])
        fun t' => ?_
      rw [SameAt, MemoryStore.write_transfers, MemoryStore.write_transfers]
      exact lookup_putTransfer_congr h t'

theorem releaseSPISubmission_congr {m n : MemoryStore} (h : SameAt id m n) (ctx : Ctx)
    (now : Time) (tn tok e : GoString) (retryAt : Time) :
    (m.releaseSPISubmission ctx now tn id tok e retryAt).1 =
        (n.releaseSPISubmission ctx now tn id tok e retryAt).1 ∧
      SameAt id (m.releaseSPISubmission ctx now tn id tok e retryAt).2
        (n.releaseSPISubmission ctx now tn id tok e retryAt).2 := by
  unfold MemoryStore.releaseSPISubmission
  rw [h.owned tn]
  cases ctx with
  | some err => exact ⟨rfl, h⟩
  | none =>
    cases n.owned tn id with
    | none => exact ⟨rfl, h⟩
    | some t =>
      exact h.verdict _ (t.releaseSPISubmission tok e retryAt now) (fun _ => ())
        MemoryStore.putTransfer (lookup_putTransfer_congr h)

/-- The answer and the transfer `id` afterwards depend on the transfer `id`
only. -/
theorem concerns_agree (hc : Concerns id o) (hsame : SameAt id s.store u.store)
    (hs : handle E o i s = some (r, s')) (hu : handle E o i u = some (r', u')) :
    r = r' ∧ SameAt id s'.store u'.store := by
  cases hc with
  | claim tn tok until_ =>
    obtain ⟨rfl, rfl⟩ := Prod.mk.inj (Option.some.inj hs)
    obtain ⟨rfl, rfl⟩ := Prod.mk.inj (Option.some.inj hu)
    exact claimSPISubmission_congr hsame i.ctx i.now tn tok until_
  | finishes h =>
    cases h with
    | now =>
      obtain ⟨rfl, rfl⟩ := Prod.mk.inj (Option.some.inj hs)
      obtain ⟨rfl, rfl⟩ := Prod.mk.inj (Option.some.inj hu)
      exact ⟨rfl, hsame⟩
    | newID tag =>
      cases ha : i.answer with
      | random bytes =>
        simp only [handle, ha] at hs hu
        split at hs
        · rename_i hlen
          rw [if_pos hlen] at hu
          obtain ⟨rfl, rfl⟩ := Prod.mk.inj (Option.some.inj hs)
          obtain ⟨rfl, rfl⟩ := Prod.mk.inj (Option.some.inj hu)
          exact ⟨rfl, hsame⟩
        · exact absurd hs (by simp)
      | _ => simp [handle, ha] at hs
    | submit t =>
      cases ha : i.answer with
      | spi answer =>
        simp only [handle, ha] at hs hu
        obtain ⟨rfl, rfl⟩ := Prod.mk.inj (Option.some.inj hs)
        obtain ⟨rfl, rfl⟩ := Prod.mk.inj (Option.some.inj hu)
        exact ⟨rfl, hsame⟩
      | _ => simp [handle, ha] at hs
    | record tn tok m evs aud =>
      obtain ⟨rfl, rfl⟩ := Prod.mk.inj (Option.some.inj hs)
      obtain ⟨rfl, rfl⟩ := Prod.mk.inj (Option.some.inj hu)
      exact recordSPISubmission_congr hsame i.ctx tn tok m evs aud
    | release tn tok e retryAt =>
      obtain ⟨rfl, rfl⟩ := Prod.mk.inj (Option.some.inj hs)
      obtain ⟨rfl, rfl⟩ := Prod.mk.inj (Option.some.inj hu)
      exact releaseSPISubmission_congr hsame i.ctx i.now tn tok e retryAt

/-- After the claim the number of attempts stays. -/
theorem finishes_attempts (hf : Finishes id o) (h : handle E o i s = some (r, s'))
    (hk : s.store.Keyed) {t : Transfer} (hl : stored s id = some t) :
    ∃ t', stored s' id = some t' ∧ t'.spiSubmissionAttempts = t.spiSubmissionAttempts := by
  unfold stored
  rcases handle_store h with ⟨-, he⟩ | ⟨c, r₁, ha, hstore⟩
  · rw [he]
    exact ⟨t, hl, rfl⟩
  · have ho : o = .store c := congrArg Action.op ha
    subst ho
    rcases storeHandle_cases hstore with ⟨he, -⟩ | hs
    · rw [he]
      exact ⟨t, hl, rfl⟩
    · obtain ⟨t', hl', rfl | hm⟩ := hs.lookup_mono hk hl
      · exact ⟨t', hl', rfl⟩
      · refine ⟨t', hl', ?_⟩
        cases hf with
        | record =>
          cases hm with
          | record h =>
            obtain ⟨-, -, -, -, -, rfl⟩ := Transfer.recordSPISubmission_eq_ok.mp h
            rfl
        | release =>
          cases hm with
          | release happ h =>
            obtain ⟨-, -, rfl⟩ := (Transfer.releaseSPISubmission_eq_ok happ).mp h
            rfl

theorem store_of_read (h : handle E o i s = some (r, s')) (ho : ∀ c, o ≠ .store c) :
    s'.store = s.store := by
  rcases handle_store h with ⟨-, he⟩ | ⟨c, r₁, ha, -⟩
  · exact he
  · exact absurd (congrArg Action.op ha) (ho c)

/-- A granted claim counts as an attempt; any other claim writes nothing. -/
theorem claim_attempts {tn tok : GoString} {until_ : Time} {answer : Except Err (Transfer × Bool)}
    (h : handle E (.store (.claimSPISubmission tn id tok until_)) i s = some (answer, s'))
    (hk : s.store.Keyed) :
    s'.store.Keyed ∧
      (((∀ t, answer ≠ .ok (t, false)) ∧ s'.store = s.store) ∨
        ∃ t₀ t₁, answer = .ok (t₁, false) ∧ stored s id = some t₀ ∧ stored s' id = some t₁ ∧
          t₁.spiSubmissionAttempts = t₀.spiSubmissionAttempts + 1) := by
  refine ⟨handle_keyed hk h, ?_⟩
  have hstore : storeHandle E.digest (.claimSPISubmission tn id tok until_) i s.store =
      some (answer, s'.store) := by
    obtain ⟨rfl, rfl⟩ := Prod.mk.inj (Option.some.inj h)
    rfl
  unfold stored
  generalize s'.store = store at hstore ⊢
  rcases storeHandle_cases hstore with ⟨he, hidle⟩ | hs
  · exact .inl ⟨hidle, he⟩
  · right
    cases hs with
    | @claimed _ _ _ _ t t' hctx hfind hclaim =>
      obtain ⟨hl, -⟩ := MemoryStore.owned_eq_some.mp hfind
      obtain ⟨-, -, -, -, ht'⟩ := Transfer.claimSPISubmission_eq_ok.mp hclaim
      have hid : t'.id = id := by
        rw [ht']
        exact hk id t hl
      refine ⟨t, t', rfl, hl, ?_, by rw [ht']⟩
      show (s.store.transfers.insert t'.id t').lookup id = some t'
      rw [hid, Finmap.lookup_insert]

end operations

/-! ## One submission -/

/-- `SubmitToSPI` of the listed transfer `t`, which nobody interrupts. -/
abbrev Submitted (s : State E) (t : Transfer) (acts : History) (r : Except Err Result)
    (s' : State E) : Prop :=
  Solo (switch E) (submitToSPI E.toLib t.tenantID t.id t.correlationID) s acts r s'

section submission

variable {s s' u u' : State E} {t : Transfer} {acts acts' : History} {r r' : Except Err Result}

/-- A submission writes its own transfer only. -/
theorem Submitted.frame (h : Submitted s t acts r s') (htrim : trimSpace t.id = t.id)
    (hk : s.store.Keyed) :
    s'.store.Keyed ∧ ∀ id', id' ≠ t.id → stored s' id' = stored s id' := by
  refine Solo.frame (Y := switch E) (P := Concerns (trimSpace t.id)) (I := fun s => s.store.Keyed)
    (F := fun s s' => ∀ id', id' ≠ t.id → stored s' id' = stored s id') ?_ ?_ ?_
    submitToSPI_concerns h hk
  · exact fun s id' _ => rfl
  · exact fun s s₁ s₂ h₁ h₂ id' hne => (h₂ id' hne).trans (h₁ id' hne)
  · intro o i s r s' ho hk hhandle
    rw [htrim] at ho
    exact concerns_frame ho hhandle hk

/-- A submission reads its own transfer only. -/
theorem Submitted.agree (h : Submitted s t acts r s') (h' : Submitted u t acts' r' u')
    (htrim : trimSpace t.id = t.id) (hin : acts.map (·.inp) = acts'.map (·.inp))
    (hsame : SameAt t.id s.store u.store) :
    acts = acts' ∧ r = r' ∧ SameAt t.id s'.store u'.store := by
  refine Solo.sim (Y := switch E) (P := Concerns (trimSpace t.id))
    (R := fun s u => SameAt t.id s.store u.store) ?_ submitToSPI_concerns h h' hin hsame
  intro o i s u r s' r' u' ho hsame hs hu
  rw [htrim] at ho
  exact concerns_agree ho hsame hs hu

/-- What a submission leaves after its claim was granted. -/
theorem finished_attempts {tn tok cor : GoString} {current : Transfer}
    (h : Solo (switch E) (submitClaimed E.toLib tn id tok cor current) s acts r s')
    (hk : s.store.Keyed) (hl : stored s id = some t) :
    ∃ t', stored s' id = some t' ∧ t'.spiSubmissionAttempts = t.spiSubmissionAttempts := by
  refine (Solo.frame (Y := switch E) (P := Finishes id) (I := fun s => s.store.Keyed)
    (F := fun s s' => ∀ t, stored s id = some t →
      ∃ t', stored s' id = some t' ∧ t'.spiSubmissionAttempts = t.spiSubmissionAttempts)
    (fun s t hl => ⟨t, hl, rfl⟩) ?_ ?_ (submitClaimed_finishes current) h hk).2 t hl
  · intro s s₁ s₂ h₁ h₂ t hl
    obtain ⟨t₁, hl₁, he₁⟩ := h₁ t hl
    obtain ⟨t₂, hl₂, he₂⟩ := h₂ t₁ hl₁
    exact ⟨t₂, hl₂, he₂.trans he₁⟩
  · intro o i s r s' ho hk hhandle
    exact ⟨handle_keyed hk hhandle, fun t hl => finishes_attempts ho hhandle hk hl⟩

/-- A submission counts as an attempt exactly when its claim is granted, and
leaves its transfer as it is otherwise. -/
theorem Submitted.attempts (h : Submitted s t acts r s') (htrim : trimSpace t.id = t.id)
    (hk : s.store.Keyed) :
    (acts.any isGrant = false ∧ stored s' t.id = stored s t.id) ∨
      (acts.any isGrant = true ∧ ∃ t₀ t₁, stored s t.id = some t₀ ∧
        stored s' t.id = some t₁ ∧ t₁.spiSubmissionAttempts = t₀.spiSubmissionAttempts + 1) := by
  unfold Submitted submitToSPI at h
  dsimp only at h
  rw [htrim] at h
  split at h
  · obtain ⟨rfl, -, rfl⟩ := h.ret_inv
    exact .inl ⟨rfl, rfl⟩
  · obtain ⟨i₁, tok, s₁, acts₁, rfl, h₁, h⟩ := h.call_inv
    obtain ⟨i₂, now, s₂, acts₂, rfl, h₂, h⟩ := h.call_inv
    obtain ⟨i₃, answer, s₃, acts₃, rfl, h₃, h⟩ := h.call_inv
    have he₁ : s₁.store = s.store := store_of_read (o := .newID _) h₁ (by simp)
    have he : s₂.store = s.store := (store_of_read (o := .now) h₂ (by simp)).trans he₁
    obtain ⟨hk₃, hclaim⟩ := claim_attempts h₃ (he ▸ hk)
    rcases hclaim with ⟨hno, he₃⟩ | ⟨t₀, t₁, rfl, hl₀, hl₁, hcount⟩
    · -- the method returns right after the claim
      left
      rcases answer with e | ⟨current, _ | _⟩
      · obtain ⟨rfl, -, rfl⟩ := h.ret_inv
        exact ⟨rfl, by rw [stored, he₃, he]⟩
      · exact absurd rfl (hno current)
      · obtain ⟨rfl, -, rfl⟩ := h.ret_inv
        exact ⟨rfl, by rw [stored, he₃, he]⟩
    · right
      obtain ⟨t₂, hl₂, hcount₂⟩ := finished_attempts h hk₃ hl₁
      refine ⟨rfl, t₀, t₂, ?_, hl₂, hcount₂.trans hcount⟩
      rw [stored, ← he]
      exact hl₀

end submission

end PixRail.Submission
