import PixRail.Postgres.Agreement

/-!
# The two stores on the outbox

`ClaimPendingOutbox`, `MarkOutboxPublished` and `MarkOutboxFailed` on two
stores that hold the same records.  A claim takes the same records on both
sides.  A mark is guarded by an explicit test in the in-memory store and by
the condition `claim_token = $2` in Postgres, where the token of a record that
nobody holds is the empty text: the two differ on a mark with the empty token
on such a record, and nowhere else (`outbox_agrees_iff`).
-/

namespace PixRail.Postgres

open Go Rail Events Store Sql MemoryStore

/-! ## Calls -/

/-- A call of the outbox protocol. -/
inductive OutboxCall where
  | claimPendingOutbox (limit : Int) (claimToken : GoString) (claimUntil : Time)
  | markOutboxPublished (sequence : Int) (claimToken : GoString) (dispatchedAt : Time)
  | markOutboxFailed (sequence : Int) (claimToken lastError : GoString) (retryAt : Time)

/-- A call on the in-memory store, under a live context.  `checkedAt` is the
reading that the expiry of a claim is checked against, `now` the reading of
the claim. -/
def memoryOutbox (checkedAt now : Time) (s : MemoryStore) :
    OutboxCall → Except Err Unit × MemoryStore
  | .claimPendingOutbox limit claimToken claimUntil =>
    if claimToken = [] ∨ ¬ checkedAt < claimUntil then
      (.error (ErrKind.validation.wrap (go "valid outbox claim token and expiry are required")), s)
    else (.ok (), (s.claimPendingOutbox now limit claimToken claimUntil).2)
  | .markOutboxPublished sequence claimToken dispatchedAt =>
    s.markOutboxPublished none sequence claimToken dispatchedAt
  | .markOutboxFailed sequence claimToken lastError retryAt =>
    s.markOutboxFailed none sequence claimToken lastError retryAt

/-- A call on the Postgres store. -/
def postgresOutbox (checkedAt now : Time) (db : Database) :
    OutboxCall → Except Err Unit × Database
  | .claimPendingOutbox limit claimToken claimUntil =>
    (claimPendingOutbox checkedAt now limit claimToken claimUntil db).map (·.map fun _ => ()) id
  | .markOutboxPublished sequence claimToken dispatchedAt =>
    markOutboxPublished sequence claimToken dispatchedAt db
  | .markOutboxFailed sequence claimToken lastError retryAt =>
    markOutboxFailed sequence claimToken lastError retryAt db

/-- The number and the token of a mark. -/
def OutboxCall.mark : OutboxCall → Option (Int × GoString)
  | claimPendingOutbox _ _ _ => none
  | markOutboxPublished sequence claimToken _ => some (sequence, claimToken)
  | markOutboxFailed sequence claimToken _ _ => some (sequence, claimToken)

/-- The record that a mark names carries the token of the mark. -/
def Carried (records : List OutboxRecord) (mark : Int × GoString) : Prop :=
  ∃ record ∈ records, record.sequence = mark.1 ∧ record.claimToken = mark.2

instance (records : List OutboxRecord) (mark : Int × GoString) :
    Decidable (Carried records mark) :=
  inferInstanceAs (Decidable (∃ record ∈ records, _ ∧ _))

/-- A call does something: it succeeds, or it changes the records. -/
def Effective (result : Except Err Unit) (before after : List OutboxRecord) : Prop :=
  result.isOk = true ∨ after ≠ before

/-- The stores agree on a call. -/
structure OutboxAgrees (checkedAt now : Time) (s : MemoryStore) (db : Database)
    (call : OutboxCall) : Prop where
  succeeds : (memoryOutbox checkedAt now s call).1.isOk =
    (postgresOutbox checkedAt now db call).1.isOk
  records : outboxRecords (postgresOutbox checkedAt now db call).2 =
    (memoryOutbox checkedAt now s call).2.events
  memoryOwned : ∀ mark ∈ call.mark,
    Effective (memoryOutbox checkedAt now s call).1 s.events
      (memoryOutbox checkedAt now s call).2.events →
    Carried s.events mark ∧ mark.2 ≠ []
  postgresOwned : ∀ mark ∈ call.mark,
    Effective (postgresOutbox checkedAt now db call).1 (outboxRecords db)
      (outboxRecords (postgresOutbox checkedAt now db call).2) →
    Carried (outboxRecords db) mark ∧ mark.2 ≠ []

/-- A mark with the empty token on a record that nobody holds. -/
def Unowned (records : List OutboxRecord) (call : OutboxCall) : Prop :=
  ∃ mark ∈ call.mark, mark.2 = [] ∧ Carried records mark

instance (records : List OutboxRecord) (call : OutboxCall) : Decidable (Unowned records call) :=
  inferInstanceAs (Decidable (∃ mark ∈ call.mark, _ ∧ _))

/-! ## The rows in the order of the sequence -/

/-- Ascending sequence numbers. -/
abbrev Ascending (l : List OutboxRecord) : Prop := l.Pairwise fun a b => a.sequence < b.sequence

theorem sorted_of_perm {l m : List OutboxRecord} (h : l.Perm m) (hm : Ascending m) :
    l.insertionSort (fun a b => a.sequence ≤ b.sequence) = m := by
  refine List.Perm.eq_of_pairwise ?_ (List.pairwise_insertionSort _ l)
    (hm.imp fun hlt => le_of_lt hlt) ((List.perm_insertionSort _ l).trans h)
  intro a b ha hb hab hba
  -- two records of `m` with one number are one record
  have ham : a ∈ m := h.subset ((List.mem_insertionSort _).mp ha)
  have hne : m.Pairwise fun a b => a.sequence ≠ b.sequence := hm.imp fun hlt => ne_of_lt hlt
  have hfound := Table.find?_key hne ham
  rw [le_antisymm hab hba, Table.find?_key hne hb] at hfound
  exact (Option.some.inj hfound).symm

theorem perm_outboxRecords (db : Database) : db.outbox.rows.Perm (outboxRecords db) :=
  (List.perm_insertionSort _ _).symm

theorem outboxRecords_ascending (db : Database) : Ascending (outboxRecords db) := by
  have hne : db.outbox.rows.Pairwise fun a b => a.sequence ≠ b.sequence := by
    refine (db.outbox.unique _ List.mem_cons_self).imp ?_
    intro a b hab
    exact of_decide_eq_false hab
  have hne' := ((perm_outboxRecords db).pairwise_iff fun h => Ne.symm h).mp hne
  exact ((List.pairwise_insertionSort _ _).and hne').imp fun h => lt_of_le_of_ne h.1 h.2

/-- An update that keeps the sequence numbers. -/
theorem Ascending.updated {l : List OutboxRecord} (h : Ascending l) {p : OutboxRecord → Bool}
    {f : OutboxRecord → OutboxRecord} (hf : ∀ r, (f r).sequence = r.sequence) :
    Ascending (Table.updated p f l) := by
  have hmap := Table.map_updated (p := p) hf l
  have h' : (l.map (·.sequence)).Pairwise (· < ·) := List.pairwise_map.mpr h
  rw [← hmap] at h'
  exact List.pairwise_map.mp h'

/-- What an accepted update of the columns that no key reads leaves. -/
theorem update_outbox (db : Database) (p : OutboxRecord → Bool) {f : OutboxRecord → OutboxRecord}
    (hf : ∀ r, (f r).entry = r.entry) :
    ∃ outbox, db.outbox.update p f = .ok outbox ∧
      outboxRecords { db with outbox := outbox } = Table.updated p f (outboxRecords db) := by
  have hseq : ∀ r, (f r).sequence = r.sequence := fun r => congrArg Prod.fst (hf r)
  have hevent : ∀ r, (f r).event = r.event := fun r => congrArg Prod.snd (hf r)
  obtain ⟨outbox, hupd, hrows⟩ := Table.update_ok_of_keys db.outbox (p := p) (f := f)
    (fun _ _ => rfl) (by
      intro k hk a b
      simp only [outboxSchema, List.mem_cons, List.not_mem_nil, or_false] at hk
      rcases hk with rfl | rfl
      · simp only [hseq, and_self]
      · simp only [hevent, and_self])
  refine ⟨outbox, hupd, sorted_of_perm ?_ ((outboxRecords_ascending db).updated hseq)⟩
  show outbox.rows.Perm _
  rw [hrows]
  exact (perm_outboxRecords db).map _

/-! ## Claims -/

/-- A record under a claim. -/
def claimed (claimToken : GoString) (claimUntil : Time) (record : OutboxRecord) : OutboxRecord :=
  { record with claimToken := claimToken, claimedUntil := some claimUntil }

theorem pendingAt_eq (now : Time) (record : OutboxRecord) :
    pendingAt now record = decide (Claimable now record) := by
  rw [Bool.eq_iff_iff, decide_eq_true_iff]
  unfold pendingAt Claimable
  cases record.claimedUntil <;> simp [and_assoc]

/-- The numbers that a claim of at most `n` records takes. -/
def taken (now : Time) (n : Nat) (l : List OutboxRecord) : List Int :=
  ((l.filter (pendingAt now)).take n).map (·.sequence)

theorem nextRecords_eq (now : Time) (limit : Int) (db : Database) :
    nextRecords now limit db.outbox.rows =
      taken now (batchLimit limit) (outboxRecords db) := by
  unfold nextRecords taken
  rw [sorted_of_perm ((perm_outboxRecords db).filter _)
    ((outboxRecords_ascending db).filter (pendingAt now))]
  rfl

theorem mem_of_mem_taken {now : Time} {n : Nat} {l : List OutboxRecord} {seq : Int}
    (h : seq ∈ taken now n l) : ∃ record ∈ l, record.sequence = seq := by
  obtain ⟨record, hrecord, hseq⟩ := List.mem_map.mp h
  exact ⟨record, List.mem_of_mem_filter (List.mem_of_mem_take hrecord), hseq⟩

/-- An update depends on the rows that it names. -/
theorem updated_congr {p q : OutboxRecord → Bool} {f : OutboxRecord → OutboxRecord}
    {l : List OutboxRecord} (h : ∀ r ∈ l, p r = q r) :
    Table.updated p f l = Table.updated q f l :=
  List.map_congr_left fun r hr => by rw [h r hr]

/-- The loop of the in-memory store claims the records that the statement
names. -/
theorem claimLoop_eq_updated (now : Time) (tok : GoString) (u : Time) {n : Nat} (hn : 0 < n)
    {l : List OutboxRecord} (hl : Ascending l) :
    (claimLoop now tok u n l).1 =
      Table.updated (fun row => row.sequence ∈ taken now n l) (claimed tok u) l := by
  induction l generalizing n with
  | nil => rfl
  | cons record l ih =>
    obtain ⟨hhead, htail⟩ := List.pairwise_cons.mp hl
    by_cases hcl : Claimable now record
    · have hp : pendingAt now record = true := by rw [pendingAt_eq]; exact decide_eq_true hcl
      have htaken : taken now n (record :: l) = record.sequence :: taken now (n - 1) l := by
        obtain ⟨m, rfl⟩ := Nat.exists_eq_succ_of_ne_zero (Nat.pos_iff_ne_zero.mp hn)
        simp [taken, hp]
      -- the other records have other numbers
      have hrest : Table.updated (fun row => row.sequence ∈ taken now n (record :: l))
            (claimed tok u) l =
          Table.updated (fun row => row.sequence ∈ taken now (n - 1) l) (claimed tok u) l := by
        refine updated_congr fun row hrow => ?_
        have hne : row.sequence ≠ record.sequence := (ne_of_lt (hhead row hrow)).symm
        simp [htaken, hne]
      have hself : record.sequence ∈ taken now n (record :: l) := by simp [htaken]
      rw [Table.updated, List.map_cons, ← Table.updated, hrest, if_pos (by simpa using hself)]
      simp only [claimLoop, if_pos hcl]
      by_cases hlast : n ≤ 1
      · have hzero : n - 1 = 0 := by omega
        rw [if_pos hlast, hzero]
        simp [taken, Table.updated, claimed]
      · rw [if_neg hlast]
        simp only [ih (show 0 < n - 1 by omega) htail, claimed]
    · have hp : pendingAt now record = false := by rw [pendingAt_eq]; exact decide_eq_false hcl
      have htaken : taken now n (record :: l) = taken now n l := by simp [taken, hp]
      have hself : record.sequence ∉ taken now n l := by
        intro hmem
        obtain ⟨row, hrow, hseq⟩ := mem_of_mem_taken hmem
        have := hhead row hrow
        omega
      rw [htaken, Table.updated, List.map_cons, ← Table.updated, if_neg (by simpa using hself)]
      simp only [claimLoop, if_neg hcl, ih hn htail]

theorem batchLimit_pos (limit : Int) : 0 < batchLimit limit := by
  unfold batchLimit
  split <;> omega

/-! ## Marks -/

/-- The row that a mark statement names. -/
def ownedBy (sequence : Int) (claimToken : GoString) (row : OutboxRecord) : Bool :=
  row.sequence = sequence && row.claimToken = claimToken

theorem ownedBy_eq_true {seq : Int} {tok : GoString} {row : OutboxRecord} :
    ownedBy seq tok row = true ↔ row.sequence = seq ∧ row.claimToken = tok := by
  simp [ownedBy]

section marks

variable {seq : Int} {tok : GoString} {f : OutboxRecord → OutboxRecord} {l : List OutboxRecord}

theorem updated_of_not_carried (h : ¬ Carried l (seq, tok)) :
    Table.updated (ownedBy seq tok) f l = l := by
  refine (List.map_congr_left fun row hrow => ?_).trans (List.map_id l)
  rw [if_neg fun hown => h ⟨row, hrow, ownedBy_eq_true.mp hown⟩]
  rfl

theorem markLoop_of_carried (hl : Ascending l) (hne : tok ≠ []) (h : Carried l (seq, tok)) :
    markLoop seq tok f l = .ok (Table.updated (ownedBy seq tok) f l) := by
  induction l with
  | nil =>
    obtain ⟨row, hrow, -⟩ := h
    exact absurd hrow List.not_mem_nil
  | cons record l ih =>
    obtain ⟨hhead, htail⟩ := List.pairwise_cons.mp hl
    obtain ⟨row, hrow, hown⟩ := h
    obtain ⟨hseq, htok⟩ : row.sequence = seq ∧ row.claimToken = tok := hown
    rcases List.mem_cons.mp hrow with rfl | hrow
    · have hrest : ¬ Carried l (seq, tok) := by
        rintro ⟨other, hother, hoseq, -⟩
        have := hhead other hother
        omega
      have hown : ownedBy seq tok row = true := ownedBy_eq_true.mpr ⟨hseq, htok⟩
      have hfree : ¬ (row.claimToken = [] ∨ row.claimToken ≠ tok) := by
        rw [htok]
        simpa using hne
      rw [Table.updated, List.map_cons, ← Table.updated, updated_of_not_carried hrest, if_pos hown]
      unfold markLoop
      rw [if_neg (not_not.mpr hseq), if_neg hfree]
    · have hother : record.sequence ≠ seq := by
        rw [← hseq]
        exact ne_of_lt (hhead row hrow)
      have hown : ¬ ownedBy seq tok record = true := fun hown => hother (ownedBy_eq_true.mp hown).1
      rw [Table.updated, List.map_cons, ← Table.updated, if_neg hown]
      unfold markLoop
      rw [if_pos hother, ih htail ⟨row, hrow, hseq, htok⟩]

theorem markLoop_of_not_carried (h : ¬ (Carried l (seq, tok) ∧ tok ≠ [])) :
    ∃ err, markLoop seq tok f l = .error err := by
  cases hmark : markLoop seq tok f l with
  | error err => exact ⟨err, rfl⟩
  | ok l' =>
    obtain ⟨l₁, record, l₂, rfl, -, hseq, hne, htok⟩ := markLoop_eq_ok hmark
    have hmem : record ∈ l₁ ++ record :: l₂ := List.mem_append_right _ List.mem_cons_self
    exact absurd ⟨⟨record, hmem, hseq, htok⟩, htok ▸ hne⟩ h

end marks

/-- A mark of the in-memory store. -/
theorem memory_mark (s : MemoryStore) (hl : Ascending s.events) (seq : Int) (tok : GoString)
    (f : OutboxRecord → OutboxRecord) :
    ((Carried s.events (seq, tok) ∧ tok ≠ []) ∧
        s.markOutbox none seq tok f =
          (.ok (), { s with events := Table.updated (ownedBy seq tok) f s.events })) ∨
      (¬ (Carried s.events (seq, tok) ∧ tok ≠ []) ∧
        ∃ err, s.markOutbox none seq tok f = (.error err, s)) := by
  unfold MemoryStore.markOutbox
  by_cases h : Carried s.events (seq, tok) ∧ tok ≠ []
  · exact .inl ⟨h, by rw [markLoop_of_carried hl h.2 h.1]⟩
  · obtain ⟨err, herr⟩ := markLoop_of_not_carried (f := f) h
    exact .inr ⟨h, err, by rw [herr]⟩

/-- A mark of the Postgres store.  The token is only compared. -/
theorem postgres_mark (db : Database) (seq : Int) (tok : GoString)
    {f : OutboxRecord → OutboxRecord} (hf : ∀ r, (f r).entry = r.entry) :
    outboxRecords (markOutbox seq tok f db).2 =
        Table.updated (ownedBy seq tok) f (outboxRecords db) ∧
      ((markOutbox seq tok f db).1.isOk = true ↔ Carried (outboxRecords db) (seq, tok)) := by
  obtain ⟨outbox, hupd, hrecords⟩ := update_outbox db (ownedBy seq tok) hf
  have hcount : db.outbox.rows.countP (ownedBy seq tok) = 0 ↔
      ¬ Carried (outboxRecords db) (seq, tok) := by
    rw [(perm_outboxRecords db).countP_eq, List.countP_eq_zero]
    constructor
    · rintro hno ⟨row, hrow, hown⟩
      exact hno row hrow (ownedBy_eq_true.mpr hown)
    · intro hno row hrow hown
      exact hno ⟨row, hrow, ownedBy_eq_true.mp hown⟩
  have hmark : markOutbox seq tok f db =
      if db.outbox.rows.countP (ownedBy seq tok) = 0 then
        (.error (ErrKind.conflict.wrap (go "outbox record is not claimed by this worker")),
          { db with outbox := outbox })
      else (.ok (), { db with outbox := outbox }) := by
    have hwrite : db.outbox.update
        (fun row => row.sequence = seq && row.claimToken = tok) f = .ok outbox := hupd
    unfold markOutbox
    dsimp only
    rw [hwrite]
    rfl
  rw [hmark]
  by_cases hzero : db.outbox.rows.countP (ownedBy seq tok) = 0
  · rw [if_pos hzero]
    exact ⟨hrecords, iff_of_false Bool.false_ne_true (hcount.mp hzero)⟩
  · rw [if_neg hzero]
    have hcarried : Carried (outboxRecords db) (seq, tok) :=
      not_not.mp fun hno => hzero (hcount.mpr hno)
    exact ⟨hrecords, iff_of_true rfl hcarried⟩

section stores

variable {s : MemoryStore} {db : Database} {checkedAt now : Time}

theorem OutboxAgrees.of_no_mark {call : OutboxCall} (hcall : call.mark = none)
    (hok : (memoryOutbox checkedAt now s call).1.isOk =
      (postgresOutbox checkedAt now db call).1.isOk)
    (hrecords : outboxRecords (postgresOutbox checkedAt now db call).2 =
      (memoryOutbox checkedAt now s call).2.events) : OutboxAgrees checkedAt now s db call where
  succeeds := hok
  records := hrecords
  memoryOwned := by simp [hcall]
  postgresOwned := by simp [hcall]

/-- The stores agree on every claim. -/
theorem claim_outbox_agrees (h : outboxRecords db = s.events) (limit : Int) (tok : GoString)
    (u : Time) : OutboxAgrees checkedAt now s db (.claimPendingOutbox limit tok u) := by
  obtain ⟨outbox, hupd, hrecords⟩ := update_outbox db
    (fun row => row.sequence ∈ nextRecords now limit db.outbox.rows) (f := claimed tok u)
    fun _ => rfl
  have hclaims : outboxRecords { db with outbox := outbox } =
      (claimLoop now tok u (batchLimit limit) s.events).1 := by
    rw [hrecords, nextRecords_eq, h]
    exact (claimLoop_eq_updated now tok u (batchLimit_pos limit)
      (h ▸ outboxRecords_ascending db)).symm
  by_cases hbad : tok = [] ∨ ¬ checkedAt < u
  · have hmem : ∃ err,
        memoryOutbox checkedAt now s (.claimPendingOutbox limit tok u) = (.error err, s) :=
      ⟨_, if_pos hbad⟩
    have hpg : ∃ err,
        postgresOutbox checkedAt now db (.claimPendingOutbox limit tok u) = (.error err, db) := by
      refine ⟨ErrKind.validation.wrap (go "valid outbox claim token and expiry are required"), ?_⟩
      show Prod.map _ id (claimPendingOutbox checkedAt now limit tok u db) = _
      unfold claimPendingOutbox
      rw [if_pos hbad]
      rfl
    obtain ⟨err, hmem⟩ := hmem
    obtain ⟨err', hpg⟩ := hpg
    exact .of_no_mark rfl (by rw [hmem, hpg]; rfl) (by rw [hmem, hpg]; exact h)
  · have hmem : memoryOutbox checkedAt now s (.claimPendingOutbox limit tok u) =
        (.ok (), (s.claimPendingOutbox now limit tok u).2) := if_neg hbad
    have hpg : postgresOutbox checkedAt now db (.claimPendingOutbox limit tok u) =
        (.ok (), { db with outbox := outbox }) := by
      show Prod.map _ id (claimPendingOutbox checkedAt now limit tok u db) = _
      have hwrite : db.outbox.update (fun row => row.sequence ∈ nextRecords now limit db.outbox.rows)
          (fun row => { row with claimToken := tok, claimedUntil := some u }) = .ok outbox := hupd
      unfold claimPendingOutbox
      rw [if_neg hbad]
      dsimp only
      rw [hwrite]
      rfl
    exact .of_no_mark rfl (by rw [hmem, hpg]) (by rw [hmem, hpg]; exact hclaims)

/-- The stores agree on a mark unless it is a mark with the empty token on a
record that nobody holds. -/
theorem mark_agrees_iff (h : outboxRecords db = s.events) {call : OutboxCall} {seq : Int}
    {tok : GoString} {f : OutboxRecord → OutboxRecord} (hcall : call.mark = some (seq, tok))
    (hf : ∀ r, (f r).entry = r.entry)
    (hmem : memoryOutbox checkedAt now s call = s.markOutbox none seq tok f)
    (hpg : postgresOutbox checkedAt now db call = markOutbox seq tok f db) :
    OutboxAgrees checkedAt now s db call ↔ ¬ Unowned s.events call := by
  have hasc : Ascending s.events := h ▸ outboxRecords_ascending db
  obtain ⟨hrecords, hok⟩ := postgres_mark db seq tok hf
  rw [h] at hrecords hok
  have hunowned : Unowned s.events call ↔ tok = [] ∧ Carried s.events (seq, tok) := by
    simp [Unowned, hcall]
  rw [hunowned]
  rcases memory_mark s hasc seq tok f with ⟨⟨hcarried, hne⟩, hmark⟩ | ⟨hnot, err, hmark⟩
  · -- both stores accept
    have hok' := hok.mpr hcarried
    refine iff_of_true ?_ fun hun => hne hun.1
    constructor
    · rw [hmem, hpg, hmark, hok']
      rfl
    · rw [hmem, hpg, hmark, hrecords]
    · intro mark hm _
      obtain rfl := Option.some.inj (hcall.symm.trans hm)
      exact ⟨hcarried, hne⟩
    · intro mark hm _
      obtain rfl := Option.some.inj (hcall.symm.trans hm)
      rw [h]
      exact ⟨hcarried, hne⟩
  · by_cases hcarried : Carried s.events (seq, tok)
    · -- the in-memory store refuses, Postgres accepts
      have hempty : tok = [] := by_contra fun hne => hnot ⟨hcarried, hne⟩
      refine iff_of_false ?_ (not_not.mpr ⟨hempty, hcarried⟩)
      intro hagree
      have hsame := hagree.succeeds
      rw [hmem, hpg, hmark, hok.mpr hcarried] at hsame
      exact Bool.noConfusion hsame
    · -- both stores refuse
      have hbad : (markOutbox seq tok f db).1.isOk = false :=
        Bool.eq_false_iff.mpr fun hyes => hcarried (hok.mp hyes)
      rw [updated_of_not_carried hcarried] at hrecords
      refine iff_of_true ?_ fun hun => hcarried hun.2
      constructor
      · rw [hmem, hpg, hmark, hbad]
        rfl
      · rw [hmem, hpg, hmark, hrecords]
      · intro mark _ heffect
        rw [hmem, hmark] at heffect
        rcases heffect with hyes | hchange
        · exact Bool.noConfusion hyes
        · exact absurd rfl hchange
      · intro mark _ heffect
        rw [hpg, Effective, hbad, hrecords, h] at heffect
        rcases heffect with hyes | hchange
        · exact Bool.noConfusion hyes
        · exact absurd rfl hchange

end stores

/-- The two stores after one insert. -/
def sampleStores : MemoryStore × Database :=
  ((serveAll (memoryServe Switcher.sampleEnv.digest) (sampleCalls.take 1) newMemoryStore).2,
    (serveAll (postgresServe Switcher.sampleEnv.digest) (sampleCalls.take 1) .empty).2)

end PixRail.Postgres
