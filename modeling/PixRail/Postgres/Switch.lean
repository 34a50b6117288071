import PixRail.Interleave.Simulate
import PixRail.Postgres.Agreement
import PixRail.Switcher.Drafts

/-!
# The switch on Postgres

The service over `internal/postgres` in the place of the in-memory store: the
same calls and ports, with the store calls answered by the database.  Each
store call runs alone, as the transactions of `Store` do; a call whose context
has ended fails before it begins.  The relay has a store interface of its own
(`messaging.OutboxStore`), which this system leaves out.

The programs of the service ask an error for its class and for nothing else,
so answers that differ in the text of an error lead them to the same
operations (`body_alike`).
-/

namespace PixRail.Postgres

open Go Rail Events Store Sql Interleave Switcher Messaging

/-! ## The work queue -/

/-- The condition of `PendingSPISubmissions`, at the time `now()` of the
statement. -/
def awaitsSubmission (now : Time) (row : TransferRow) : Bool :=
  row.status = .accepted && coalesce row.spiMessageID = [] &&
    match row.spiClaimedUntil with
    | none => true
    | some claimedUntil => claimedUntil ≤ now

/-- `order` is an order in which a statement may meet the transfers. -/
def ScanOrder (db : Database) (order : List GoString) : Prop :=
  order.Perm (db.transfers.rows.map (·.id))

instance (db : Database) (order : List GoString) : Decidable (ScanOrder db order) :=
  inferInstanceAs (Decidable (order.Perm _))

/-- `Store.PendingSPISubmissions`, when the statement meets the rows in the
given order.  Rows of one `created_at` come out in any order. -/
def pendingSPISubmissions (order : List GoString) (now : Time) (limit : Int) (db : Database) :
    List Transfer :=
  let rows := (order.filterMap fun id => db.transfers.find? fun row => row.id = id).filter
    (awaitsSubmission now)
  ((rows.insertionSort fun a b => a.createdAt ≤ b.createdAt).take
    (if limit ≤ 0 then 100 else limit.toNat)).map scanTransfer

/-! ## The system -/

/-- The shared state. -/
structure PgState (E : Env) where
  db : Database
  tenantLimit : Option E.Lim
  dictLimit : Option E.Lim

/-- A method under a context: it does not begin once the context has ended. -/
def within {α : Type} (ctx : Ctx) (x : Db α) : Db α := fun db =>
  match ctx with
  | some err => (.error err.err, db)
  | none => x db

/-- The answer of the database to a store call. -/
def pgStoreHandle (H : Digest) : (c : StoreCall) → Input → Database → Option (c.Ret × Database)
  | .findByIdempotency tenantID key, i, db =>
    some (within i.ctx (findByIdempotency tenantID key) db)
  | .insertTransfer transfer outbox audit, i, db =>
    some (within i.ctx (insertTransfer transfer outbox audit) db)
  | .getTransfer tenantID transferID, i, db =>
    some (within i.ctx (getTransfer tenantID transferID) db)
  | .claimSPISubmission tenantID transferID claimToken claimUntil, i, db =>
    some (within i.ctx (claimSPISubmission i.now tenantID transferID claimToken claimUntil) db)
  | .recordSPISubmission tenantID transferID claimToken message outbox audit, i, db =>
    some (within i.ctx
      (recordSPISubmission tenantID transferID claimToken message outbox audit) db)
  | .releaseSPISubmission tenantID transferID claimToken lastError retryAt, i, db =>
    some (within i.ctx
      (releaseSPISubmission i.now tenantID transferID claimToken lastError retryAt) db)
  | .recordReviewDecision tenantID transferID status reason outbox audit, i, db =>
    some (within i.ctx
      (recordReviewDecision tenantID transferID status reason outbox audit) db)
  | .updateSettlement tenantID transferID callback outbox audit, i, db =>
    some (within i.ctx (updateSettlement H tenantID transferID callback outbox audit) db)
  | .pendingSPISubmissions now limit, i, db =>
    match i.answer with
    | .order order =>
      if ScanOrder db order then some (pendingSPISubmissions order now limit db, db) else none
    | _ => none
  | .claimPendingOutbox _ _ _ _, _, _ => none
  | .markOutboxPublished _ _ _, _, _ => none
  | .markOutboxFailed _ _ _ _, _, _ => none

/-- The answer to an operation.  The ports and the limiters answer as they do
for the in-memory store. -/
def pgHandle (E : Env) : (o : Op) → Input → PgState E → Option (o.Ret × PgState E)
  | .now, i, s => some (i.now, s)
  | .newID tag, i, s =>
    match i.answer with
    | .random bytes =>
      if ∀ b ∈ bytes, b.length = 16 then some (newID tag i.now bytes, s) else none
    | _ => none
  | .health, i, s => some (i.ctx, s)
  | .tenantAllow key, i, s =>
    let (ok, limiter) := allowed E s.tenantLimit i.now key
    some (ok, { s with tenantLimit := limiter })
  | .dictAllow key, i, s =>
    let (ok, limiter) := allowed E s.dictLimit i.now key
    some (ok, { s with dictLimit := limiter })
  | .resolve _ _ _, i, s => match i.answer with | .dict r => some (r, s) | _ => none
  | .score _ _, i, s => match i.answer with | .fraud r => some (r, s) | _ => none
  | .submit _, i, s => match i.answer with | .spi r => some (r, s) | _ => none
  | .publish _, i, s => match i.answer with | .published r => some (r, s) | _ => none
  | .store c, i, s =>
    match pgStoreHandle E.digest c i s.db with
    | some (r, db) => some (r, { s with db := db })
    | none => none

/-- The switch on Postgres. -/
@[reducible] def pgSwitch (E : Env) : System sig := (switch E).over (PgState E) (pgHandle E)

/-- The state of a switch that has just started on a migrated database. -/
def PgState.initial (E : Env) (tenantLimit dictLimit : Option E.Lim) : PgState E where
  db := .empty
  tenantLimit := tenantLimit
  dictLimit := dictLimit

/-- A run of the switch on Postgres. -/
abbrev PgRuns (E : Env) (tl dl : Option E.Lim) (tr : Trace (pgSwitch E))
    (w : World (pgSwitch E)) : Prop :=
  Run (.init (PgState.initial E tl dl)) tr w

/-! ## Answers that differ in the text of an error -/

theorem SameClass.refl (e : Err) : SameClass e e := fun _ _ => Iff.rfl

theorem SameClass.conflict {e e' : Err} (h : SameClass e e') : e.is .conflict ↔ e'.is .conflict :=
  h .conflict (by decide)

/-- The same value, or errors of the same class. -/
def SameResult {α : Type} : Except Err α → Except Err α → Prop
  | .ok a, .ok a' => a = a'
  | .error e, .error e' => SameClass e e'
  | _, _ => False

theorem SameResult.refl {α : Type} (r : Except Err α) : SameResult r r := by
  cases r with
  | ok a => exact rfl
  | error e => exact SameClass.refl e

/-- Two alike results are both values, or both errors. -/
theorem SameResult.cases {α : Type} {r r' : Except Err α} (h : SameResult r r') :
    (∃ a, r = .ok a ∧ r' = .ok a) ∨ ∃ e e', r = .error e ∧ r' = .error e' ∧ SameClass e e' := by
  cases r with
  | ok a =>
    cases r' with
    | ok a' =>
      obtain rfl : a = a' := h
      exact .inl ⟨a, rfl, rfl⟩
    | error e' => exact h.elim
  | error e =>
    cases r' with
    | ok a' => exact h.elim
    | error e' => exact .inr ⟨e, e', rfl, rfl, h⟩

/-- The answers to an operation differ at most in the text of an error of the
store. -/
def AnswersAlike : (o : Op) → o.Ret → o.Ret → Prop
  | .store (.findByIdempotency _ _), r, r' => SameResult r r'
  | .store (.insertTransfer _ _ _), r, r' => SameResult r r'
  | .store (.getTransfer _ _), r, r' => SameResult r r'
  | .store (.claimSPISubmission _ _ _ _), r, r' => SameResult r r'
  | .store (.recordSPISubmission _ _ _ _ _ _), r, r' => SameResult r r'
  | .store (.releaseSPISubmission _ _ _ _ _), r, r' => SameResult r r'
  | .store (.recordReviewDecision _ _ _ _ _ _), r, r' => SameResult r r'
  | .store (.updateSettlement _ _ _ _ _), r, r' => SameResult r r'
  | _, r, r' => r = r'

/-- The outcomes differ at most in the text of an error. -/
def OutcomesAlike : Switcher.Outcome → Switcher.Outcome → Prop
  | .result r, .result r' => SameResult r r'
  | .transfer r, .transfer r' => SameResult r r'
  | .batch (b, e), .batch (b', e') => b = b' ∧ Option.Rel SameClass e e'
  | .stats (b, e), .stats (b', e') => b = b' ∧ Option.Rel SameClass e e'
  | _, _ => False

/-! ## The programs -/

/-- The program does the same on answers that are alike, and returns results
that `Q` relates. -/
abbrev Steady {α : Type} (Q : α → α → Prop) (p : Code α) : Prop := p.Alike AnswersAlike Q p

section programs

variable {L : Lib} {α : Type} {Q : α → α → Prop}

theorem steady_perform {o : Op} {f : o.Ret → Code α} (ho : ∀ r r', AnswersAlike o r r' → r = r')
    (hf : ∀ r, Steady Q (f r)) : Steady Q (perform o >>= f) := by
  refine Prog.alike_perform fun r r' hr => ?_
  obtain rfl := ho r r' hr
  exact hf r

/-- A program whose results are equal goes on with one value. -/
theorem steady_bind {β : Type} {p : Code β} {f : β → Code α} (hp : Steady Eq p)
    (hf : ∀ b, Steady Q (f b)) : Steady Q (p >>= f) := by
  refine hp.bind fun b b' hb => ?_
  obtain rfl := hb
  exact hf b

theorem orNow_steady (t : Time) : Steady Eq (orNow t) := by
  unfold orNow
  split
  · exact .call fun r r' hr => .ret hr
  · exact .ret rfl

/-! ### `CreateTransfer` -/

theorem addEvent_steady (t : Transfer) (outbox : List Event) (ty : EventType) (p : Payload) :
    Steady Eq (addEvent L t outbox ty p) := by
  refine steady_perform (fun _ _ h => h) fun id => ?_
  refine steady_perform (fun _ _ h => h) fun at_ => ?_
  split <;> exact .ret rfl

theorem creationEvents_steady (t : Transfer) (dict : DictEntry) (decision : FraudDecision)
    (hash : GoString) : Steady Eq (creationEvents L t dict decision hash) := by
  refine steady_bind (addEvent_steady t _ _ _) fun o₁ => ?_
  refine steady_bind (addEvent_steady t _ _ _) fun o₂ => ?_
  refine steady_bind (addEvent_steady t _ _ _) fun o₃ => ?_
  split
  · exact steady_bind (addEvent_steady t _ _ _) fun o₄ => addEvent_steady t _ _ _
  · split
    · exact addEvent_steady t _ _ _
    · split
      · exact addEvent_steady t _ _ _
      · exact .ret rfl

theorem persist_steady (req : CreateTransferRequest) (hash : GoString) (dict : DictEntry)
    (decision : FraudDecision) : Steady SameResult (persist L req hash dict decision) := by
  refine steady_perform (fun _ _ h => h) fun now => ?_
  refine steady_perform (fun _ _ h => h) fun id => ?_
  refine steady_bind (creationEvents_steady _ dict decision hash) fun outbox => ?_
  refine Prog.alike_perform fun r r' hr => ?_
  obtain ⟨-, rfl, rfl⟩ | ⟨e, e', rfl, rfl, he⟩ := SameResult.cases hr
  · exact .ret rfl
  · dsimp only
    by_cases hconflict : e.is .conflict
    · rw [if_pos hconflict, if_pos (he.conflict.mp hconflict)]
      refine Prog.alike_perform fun r₂ r₂' hr₂ => ?_
      obtain ⟨found, rfl, rfl⟩ | ⟨e₂, e₂', rfl, rfl, he₂⟩ := SameResult.cases hr₂
      · cases found with
        | some existing => exact .ret (.refl _)
        | none => exact .ret he
      · exact .ret he₂
    · rw [if_neg hconflict, if_neg fun h => hconflict (he.conflict.mpr h)]
      exact .ret he

theorem decideTransfer_steady (req : CreateTransferRequest) (hash : GoString) :
    Steady SameResult (decideTransfer L req hash) := by
  refine steady_perform (fun _ _ h => h) fun r₁ => ?_
  split
  · exact .ret (.refl _)
  · refine steady_perform (fun _ _ h => h) fun r₂ => ?_
    split
    · exact .ret (.refl _)
    · refine steady_perform (fun _ _ h => h) fun r₃ => ?_
      split
      · split <;> exact .ret (.refl _)
      · refine steady_perform (fun _ _ h => h) fun r₄ => ?_
        split
        · exact .ret (.refl _)
        · split
          · exact persist_steady _ _ _ _
          · exact .ret (.refl _)

theorem createTransfer_steady (req : CreateTransferRequest) :
    Steady SameResult (createTransfer L req) := by
  refine steady_bind (orNow_steady _) fun at_ => ?_
  dsimp only
  split
  · exact .ret (.refl _)
  · refine Prog.alike_perform fun r r' hr => ?_
    obtain ⟨found, rfl, rfl⟩ | ⟨e, e', rfl, rfl, he⟩ := SameResult.cases hr
    · cases found with
      | some existing => exact .ret (.refl _)
      | none => exact decideTransfer_steady _ _
    · exact .ret he

/-! ### `SubmitToSPI` -/

section submit

variable {tn id tok cor : GoString}

theorem releaseAndFail_steady (e : Err) : Steady SameResult (releaseAndFail tn id tok e) := by
  refine steady_perform (fun _ _ h => h) fun now => ?_
  exact Prog.alike_perform fun r r' _ => .ret (.refl _)

theorem spiEvent_steady (current : Transfer) (ty : EventType) (p : Payload) :
    Steady Eq (spiEvent L current cor ty p) := by
  refine steady_perform (fun _ _ h => h) fun id => ?_
  exact steady_perform (fun _ _ h => h) fun at_ => .ret rfl

theorem submitClaimed_steady (current : Transfer) :
    Steady SameResult (submitClaimed L tn id tok cor current) := by
  refine steady_perform (fun _ _ h => h) fun r => ?_
  split
  · exact releaseAndFail_steady _
  · refine steady_bind (spiEvent_steady _ _ _) fun r₂ => ?_
    split
    · exact releaseAndFail_steady _
    · refine steady_bind (spiEvent_steady _ _ _) fun r₃ => ?_
      split
      · exact releaseAndFail_steady _
      · refine Prog.alike_perform fun r₄ r₄' hr₄ => ?_
        obtain ⟨⟨updated, replay⟩, rfl, rfl⟩ | ⟨e, e', rfl, rfl, he⟩ := SameResult.cases hr₄
        · cases replay <;> exact .ret (.refl _)
        · exact .ret he

theorem submitToSPI_steady (tn id cor : GoString) :
    Steady SameResult (submitToSPI L tn id cor) := by
  dsimp only [submitToSPI]
  split
  · exact .ret (.refl _)
  · refine steady_perform (fun _ _ h => h) fun tok => ?_
    refine steady_perform (fun _ _ h => h) fun now => ?_
    refine Prog.alike_perform fun r r' hr => ?_
    obtain ⟨⟨current, replay⟩, rfl, rfl⟩ | ⟨e, e', rfl, rfl, he⟩ := SameResult.cases hr
    · cases replay with
      | true => exact .ret (.refl _)
      | false => exact submitClaimed_steady _
    · exact .ret he

/-- The results of a batch: the same numbers, and errors of the same class. -/
abbrev SameBatch {β : Type} (x y : β × Option Err) : Prop :=
  x.1 = y.1 ∧ Option.Rel SameClass x.2 y.2

theorem submitLoop_steady (result : SPIBatchResult) (pending : List Transfer) :
    Steady SameBatch (submitLoop L result pending) := by
  induction pending generalizing result with
  | nil => exact .ret ⟨rfl, .none⟩
  | cons t pending ih =>
    refine (submitToSPI_steady _ _ _).bind fun r r' hr => ?_
    obtain ⟨res, rfl, rfl⟩ | ⟨e, e', rfl, rfl, he⟩ := hr.cases
    · dsimp only
      split <;> exact ih _
    · dsimp only
      by_cases hconflict : e.is .conflict
      · rw [if_pos hconflict, if_pos (he.conflict.mp hconflict)]
        exact ih _
      · rw [if_neg hconflict, if_neg fun h => hconflict (he.conflict.mpr h)]
        exact .ret ⟨rfl, .some he⟩

theorem submitPendingSPI_steady (limit : Int) : Steady SameBatch (submitPendingSPI L limit) := by
  refine steady_perform (fun _ _ h => h) fun r => ?_
  cases r with
  | some e => exact .ret ⟨rfl, .some (.refl _)⟩
  | none =>
    refine steady_perform (fun _ _ h => h) fun now => ?_
    refine steady_perform (fun _ _ h => h) fun pending => ?_
    exact submitLoop_steady _ _

end submit

/-! ### `RecordReview` and `RecordSettlement` -/

theorem reviewEvent_steady (current : Transfer) (cor : GoString) (at_ : Time) (ty : EventType)
    (p : Payload) : Steady Eq (reviewEvent L current cor at_ ty p) :=
  steady_perform (fun _ _ h => h) fun _ => .ret rfl

theorem writeReview_steady (tn id cor reason : GoString) (at_ : Time) (decision : ReviewDecision)
    (current : Transfer) (status : TransferStatus) (ty next : EventType) (p : Payload) :
    Steady SameResult
      (writeReview L tn id cor reason at_ decision current status ty next p) := by
  refine steady_bind (reviewEvent_steady _ _ _ _ _) fun r₁ => ?_
  split
  · exact .ret (.refl _)
  · refine steady_bind (reviewEvent_steady _ _ _ _ _) fun r₂ => ?_
    split
    · exact .ret (.refl _)
    · refine Prog.alike_perform fun r₃ r₃' hr₃ => ?_
      obtain ⟨updated, rfl, rfl⟩ | ⟨e, e', rfl, rfl, he⟩ := SameResult.cases hr₃
      · exact .ret (.refl _)
      · exact .ret he

theorem recordReview_steady (req : ReviewDecisionRequest) :
    Steady SameResult (recordReview L req) := by
  refine steady_bind (orNow_steady _) fun at_ => ?_
  dsimp only
  split
  · exact .ret (.refl _)
  · refine Prog.alike_perform fun r r' hr => ?_
    obtain ⟨current, rfl, rfl⟩ | ⟨e, e', rfl, rfl, he⟩ := SameResult.cases hr
    · dsimp only
      split
      · exact .ret (.refl _)
      · split
        · exact writeReview_steady _ _ _ _ _ _ _ _ _ _ _
        · exact writeReview_steady _ _ _ _ _ _ _ _ _ _ _
        · exact .ret (.refl _)
    · exact .ret he

theorem settle_steady (cb : SettlementCallback) : Steady SameResult (settle L cb) := by
  refine Prog.alike_perform fun r r' hr => ?_
  obtain ⟨current, rfl, rfl⟩ | ⟨e, e', rfl, rfl, he⟩ := SameResult.cases hr
  · dsimp only
    split
    · exact .ret (.refl _)
    · split
      · exact .ret (.refl _)
      · refine steady_perform (fun _ _ h => h) fun id => ?_
        split
        · exact .ret (.refl _)
        · refine Prog.alike_perform fun r₃ r₃' hr₃ => ?_
          obtain ⟨⟨updated, replay⟩, rfl, rfl⟩ | ⟨e, e', rfl, rfl, he⟩ := SameResult.cases hr₃
          · cases replay <;> exact .ret (.refl _)
          · exact .ret he
  · exact .ret he

theorem recordSettlement_steady (cb : SettlementCallback) :
    Steady SameResult (recordSettlement L cb) := by
  have hid : Steady Eq (orNewID cb.correlationID (go "corr")) := by
    unfold orNewID
    split
    · exact .call fun r r' hr => .ret hr
    · exact .ret rfl
  refine steady_bind (orNow_steady _) fun at_ => ?_
  refine steady_bind hid fun cor => ?_
  dsimp only
  split
  · exact .ret (.refl _)
  · exact settle_steady _

/-! ### `Drain` -/

theorem drainLoop_steady (policy : RetryPolicy) (tok : GoString) (stats : RelayStats)
    (records : List OutboxRecord) : Steady SameBatch (drainLoop policy tok stats records) := by
  induction records generalizing stats with
  | nil => exact .ret ⟨rfl, .none⟩
  | cons record records ih =>
    refine steady_perform (fun _ _ h => h) fun r => ?_
    cases r with
    | error e =>
      refine steady_perform (fun _ _ h => h) fun at_ => ?_
      refine steady_perform (fun _ _ h => h) fun r₃ => ?_
      cases r₃ with
      | error e => exact .ret ⟨rfl, .some (.refl _)⟩
      | ok _ => exact ih _
    | ok _ =>
      refine steady_perform (fun _ _ h => h) fun at_ => ?_
      refine steady_perform (fun _ _ h => h) fun r₃ => ?_
      cases r₃ with
      | error e => exact .ret ⟨rfl, .some (.refl _)⟩
      | ok _ => exact ih _

theorem drain_steady (policy : RetryPolicy) (limit : Int) :
    Steady SameBatch (drain policy limit) := by
  refine steady_perform (fun _ _ h => h) fun tok => ?_
  refine steady_perform (fun _ _ h => h) fun at_ => ?_
  refine steady_perform (fun _ _ h => h) fun r => ?_
  cases r with
  | some e => exact .ret ⟨rfl, .some (.refl _)⟩
  | none =>
    refine steady_perform (fun _ _ h => h) fun checkedAt => ?_
    dsimp only [Prog.bind]
    split
    · exact .ret ⟨rfl, .some (.refl _)⟩
    · refine steady_perform (fun _ _ h => h) fun now => ?_
      exact steady_perform (fun _ _ h => h) fun records => drainLoop_steady _ _ _ _

/-- Answers that are alike lead a call to the same operations, and to outcomes
that are alike. -/
theorem body_alike (c : Call) : (body L c).Alike AnswersAlike OutcomesAlike (body L c) := by
  cases c with
  | createTransfer req => exact (createTransfer_steady req).map fun _ _ h => h
  | getTransfer tn id => exact .call fun r r' hr => .ret hr
  | submitToSPI tn id cor => exact (submitToSPI_steady tn id cor).map fun _ _ h => h
  | submitPendingSPI limit => exact (submitPendingSPI_steady limit).map fun _ _ h => h
  | recordReview req => exact (recordReview_steady req).map fun _ _ h => h
  | recordSettlement cb => exact (recordSettlement_steady cb).map fun _ _ h => h
  | drain policy limit => exact (drain_steady policy limit).map fun _ _ h => h

end programs

end PixRail.Postgres
