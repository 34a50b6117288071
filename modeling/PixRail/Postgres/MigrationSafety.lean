import PixRail.Postgres.Migrations

/-!
# Safety of the migrations

A runner that is too late, or whose look-up failed, executes SQL that has
been committed before.  The row it inserts in the same transaction repeats a
version, so the transaction is not committed.  Hence at every moment the
committed SQL is that of a prefix of the list, each once (`migrations_safe`).

The argument is one of rely and guarantee.  Every runner only adds rows, and
adds that of a migration after it has seen rows for all before it.
-/

namespace PixRail.Postgres

open Go Sql Interleave

/-! ## What is recorded -/

def MigrationDb.versions (db : MigrationDb) : List GoString :=
  db.schemaMigrations.rows.map (·.version)

/-- The columns of a row that come from its migration. -/
def MigrationRow.source (row : MigrationRow) : GoString × GoString × GoString :=
  (row.version, row.name, row.checksum)

def Migration.source (m : Migration) : GoString × GoString × GoString :=
  (m.version, m.name, m.checksum)

/-- The recorded versions are those of `first`, each once, and the SQL of the
recorded migrations has been committed, in the order of their rows. -/
structure Recorded (first applied : List Migration) (db : MigrationDb) : Prop where
  versions : ∀ v, v ∈ db.versions ↔ v ∈ first.map (·.version)
  nodup : db.versions.Nodup
  sub : applied.Sublist first
  rows : db.schemaMigrations.rows.map (·.source) = applied.map (·.source)
  committed : db.committed = applied.map (·.sql)

/-- Every migration of the list has a row with its checksum. -/
def Covered (migrations : List Migration) (db : MigrationDb) : Prop :=
  ∀ m ∈ migrations, ∃ row ∈ db.schemaMigrations.rows,
    row.version = m.version ∧ row.checksum = m.checksum

theorem migrationDb_nodup (db : MigrationDb) : db.versions.Nodup := by
  refine List.pairwise_map.mpr ((db.schemaMigrations.unique _ List.mem_cons_self).imp ?_)
  intro a b hab
  exact of_decide_eq_false hab

theorem Covered.mono {migrations : List Migration} {db db' : MigrationDb}
    (h : Covered migrations db)
    (hrows : db.schemaMigrations.rows <+: db'.schemaMigrations.rows) :
    Covered migrations db' := by
  intro m hm
  obtain ⟨row, hrow, hsame⟩ := h m hm
  exact ⟨row, hrows.subset hrow, hsame⟩

theorem Covered.snoc {migrations : List Migration} {m : Migration} {db : MigrationDb}
    (h : Covered migrations db) {row : MigrationRow} (hrow : row ∈ db.schemaMigrations.rows)
    (hversion : row.version = m.version) (hchecksum : row.checksum = m.checksum) :
    Covered (migrations ++ [m]) db := by
  intro m' hm'
  rcases List.mem_append.mp hm' with hm' | hm'
  · exact h m' hm'
  · obtain rfl := List.mem_singleton.mp hm'
    exact ⟨row, hrow, hversion, hchecksum⟩

theorem Covered.version_mem {migrations : List Migration} {db : MigrationDb}
    (h : Covered migrations db) {v : GoString} (hv : v ∈ migrations.map (·.version)) :
    v ∈ db.versions := by
  obtain ⟨m, hm, rfl⟩ := List.mem_map.mp hv
  obtain ⟨row, hrow, hversion, -⟩ := h m hm
  exact List.mem_map.mpr ⟨row, hrow, hversion⟩

/-- A covered migration is found with its checksum. -/
theorem Covered.find {migrations : List Migration} {db : MigrationDb}
    (h : Covered migrations db) {m : Migration} (hm : m ∈ migrations) :
    ∃ row, db.schemaMigrations.find? (·.version = m.version) = some row ∧
      row.checksum = m.checksum := by
  obtain ⟨row, hrow, hversion, hchecksum⟩ := h m hm
  refine ⟨row, ?_, hchecksum⟩
  rw [Table.find?, ← hversion]
  exact Table.find?_key (List.pairwise_map.mp (migrationDb_nodup db)) hrow

/-- The database after the transaction of one migration. -/
theorem apply_ok {db db' : MigrationDb} {sql : GoString} {row : MigrationRow}
    (h : db.apply ⟨[sql], [row]⟩ = .ok db') :
    db'.schemaMigrations.rows = db.schemaMigrations.rows ++ [row] ∧
      db'.committed = db.committed ++ [sql] ∧ row.version ∉ db.versions := by
  unfold MigrationDb.apply at h
  simp only [List.foldlM_cons, List.foldlM_nil, bind_pure] at h
  cases hinsert : db.schemaMigrations.insert row with
  | error violation =>
    rw [hinsert] at h
    cases h
  | ok table =>
    rw [hinsert] at h
    obtain rfl := Except.ok.inj h
    have hrows : table.rows = db.schemaMigrations.rows ++ [row] := Table.replace_rows hinsert
    refine ⟨hrows, rfl, ?_⟩
    have hnodup := migrationDb_nodup ⟨table, db.committed ++ [sql]⟩
    rw [MigrationDb.versions, hrows, List.map_append] at hnodup
    exact fun hmem => List.disjoint_of_nodup_append hnodup hmem List.mem_cons_self

/-- A runner that has covered the migrations before `m` commits `m` in its
turn. -/
theorem Recorded.commit {migrations first applied pre : List Migration} {m : Migration}
    {db db' : MigrationDb} {now : Time} (h : Recorded first applied db)
    (hfirst : first <+: migrations) (hpre : pre ++ [m] <+: migrations) (hcovered : Covered pre db)
    (happly : db.apply ⟨[m.sql], [m.row now]⟩ = .ok db') :
    Recorded (pre ++ [m]) (applied ++ [m]) db' := by
  obtain ⟨hrows, hcommitted, hfresh⟩ := apply_ok happly
  have hversions : db'.versions = db.versions ++ [m.version] := by
    rw [MigrationDb.versions, hrows, List.map_append]
    rfl
  -- the recorded prefix does not reach `m`, whose version is new
  have hshort : first <+: pre := by
    have hnot : m.version ∉ first.map (·.version) := fun hmem => hfresh ((h.versions _).mpr hmem)
    rcases List.prefix_or_prefix_of_prefix hfirst hpre with hle | hle
    · rcases List.prefix_concat_iff.mp hle with rfl | hle
      · exact absurd (by simp) hnot
      · exact hle
    · exact absurd (List.mem_map_of_mem (hle.subset (by simp))) hnot
  refine ⟨fun v => ?_, migrationDb_nodup db', ?_, ?_, ?_⟩
  · rw [hversions, List.map_append, List.mem_append, List.mem_append, h.versions]
    refine or_congr_left ⟨fun hv => ?_, fun hv => ?_⟩
    · exact (hshort.map _).subset hv
    · exact (h.versions v).mp (hcovered.version_mem hv)
  · exact (h.sub.trans hshort.sublist).append (List.Sublist.refl _)
  · rw [hrows, List.map_append, List.map_append, h.rows]
    rfl
  · rw [hcommitted, h.committed, List.map_append]
    rfl

/-! ## The runners -/

/-- What holds of the database and how it changes, whatever the runners do. -/
def migrationPact (migrations : List Migration) : Pact (migrator migrations) where
  inv (db : MigrationDb) := ∃ first applied, first <+: migrations ∧ Recorded first applied db
  rely (db db' : MigrationDb) := db.schemaMigrations.rows <+: db'.schemaMigrations.rows
  refl _ := List.prefix_rfl
  trans := List.IsPrefix.trans

section statements

variable {db db' : MigrationDb} {i : Outcome}

/-- Statements other than a commit leave the database as it is. -/
theorem handle_frame {o : MigrateOp} (ho : ∀ tx, o ≠ .commit tx) {r : o.Ret}
    (h : db.handle o i = some (r, db')) : db' = db := by
  cases o with
  | commit tx => exact absurd rfl (ho tx)
  | rollback tx =>
    cases i <;> cases h <;> rfl
  | selectChecksum version =>
    cases i with
    | ok =>
      simp only [MigrationDb.handle] at h
      split at h <;> cases h <;> rfl
    | fail err => cases h; rfl
    | lost err => cases h
  | insertRow tx row =>
    cases i with
    | ok =>
      simp only [MigrationDb.handle] at h
      split at h <;> cases h <;> rfl
    | fail err => cases h; rfl
    | lost err => cases h
  | ensureTable | begin | exec tx sql =>
    cases i <;> cases h <;> rfl

theorem select_ok {version checksum : GoString}
    (h : db.handle (.selectChecksum version) i = some (.ok checksum, db')) :
    ∃ row ∈ db.schemaMigrations.rows, row.version = version ∧ row.checksum = checksum := by
  cases i with
  | ok =>
    simp only [MigrationDb.handle] at h
    split at h
    · rename_i row hfind
      cases h
      exact ⟨row, List.mem_of_find?_eq_some hfind, by simpa using List.find?_some hfind, rfl⟩
    · cases h
  | fail err => cases h
  | lost err => cases h

theorem begin_ok {tx : MigrationTx} (h : db.handle .begin i = some (.ok tx, db')) : tx = {} := by
  cases i <;> cases h
  rfl

theorem exec_ok {tx tx' : MigrationTx} {sql : GoString}
    (h : db.handle (.exec tx sql) i = some (.ok tx', db')) :
    tx' = { tx with executed := tx.executed ++ [sql] } := by
  cases i <;> cases h
  rfl

theorem insertRow_ok {tx tx' : MigrationTx} {row : MigrationRow}
    (h : db.handle (.insertRow tx row) i = some (.ok tx', db')) :
    tx' = { tx with inserted := tx.inserted ++ [row] } := by
  cases i with
  | ok =>
    simp only [MigrationDb.handle] at h
    split at h <;> cases h
    rfl
  | fail err => cases h
  | lost err => cases h

/-- A commit takes effect or not, and it has taken effect when it succeeds. -/
theorem commit_cases {tx : MigrationTx} {err : Option GoString}
    (h : db.handle (.commit tx) i = some (err, db')) :
    db.apply tx = .ok db' ∨ db' = db ∧ err ≠ none := by
  cases i with
  | fail err => cases h; exact .inr ⟨rfl, nofun⟩
  | ok =>
    simp only [MigrationDb.handle] at h
    split at h
    · rename_i db'' happly
      cases h
      exact .inl happly
    · cases h
      exact .inr ⟨rfl, nofun⟩
  | lost err =>
    simp only [MigrationDb.handle] at h
    split at h
    · rename_i db'' happly
      cases h
      exact .inl happly
    · cases h
      exact .inr ⟨rfl, nofun⟩

/-- Every statement can be performed without a fault. -/
theorem handle_isSome (o : MigrateOp) (db : MigrationDb) : (db.handle o .ok).isSome := by
  cases o with
  | selectChecksum version => simp only [MigrationDb.handle]; split <;> rfl
  | insertRow tx row => simp only [MigrationDb.handle]; split <;> rfl
  | commit tx => simp only [MigrationDb.handle]; split <;> rfl
  | ensureTable | begin | exec tx sql | rollback tx => rfl

end statements

section runners

variable {migrations : List Migration} {T : Terms (migrator migrations)} {db : MigrationDb}

/-- A statement other than a commit. -/
theorem guarded_statement {o : MigrateOp} {k : o.Ret → MigrateCode (MigrationResult × Option GoString)}
    (ho : ∀ tx, o ≠ .commit tx) (hdoes : T.does o)
    (hnext : ∀ db₁ : MigrationDb, (migrationPact migrations).rely db db₁ →
      (migrationPact migrations).inv db₁ → ∀ i r, T.needs i →
      db₁.handle o i = some (r, db₁) → (migrationPact migrations).Guarded T db₁ (k r)) :
    (migrationPact migrations).Guarded T db (.call o k) :=
  Pact.Guarded.read hdoes (fun _ _ _ _ h => handle_frame ho h) hnext

/-- What every runner gives: unless it returns an error, it has covered its
list. -/
def covering (migrations : List Migration) : Terms (migrator migrations) :=
  .always fun (db : MigrationDb) (out : MigrationResult × Option GoString) =>
    out.2 = none → Covered migrations db

theorem guarded_error (result : MigrationResult) (err : GoString) :
    (migrationPact migrations).Guarded (covering migrations) db (.ret (result, some err)) :=
  fun _ _ _ hnone => nomatch hnone

theorem guarded_rollback (tx : MigrationTx) (result : MigrationResult) (err : GoString) :
    (migrationPact migrations).Guarded (covering migrations) db
      (.call (.rollback tx) fun _ => .ret (result, some err)) :=
  guarded_statement nofun trivial fun _ _ _ _ _ _ _ => guarded_error result err

/-- The commit of the next migration. -/
theorem guarded_commit {pre rest : List Migration} {m : Migration} {now : Time}
    (hlist : (pre ++ [m]) ++ rest = migrations) (hcovered : Covered pre db)
    {k : Option GoString → MigrateCode (MigrationResult × Option GoString)}
    (hfail : ∀ (db : MigrationDb) err,
      (migrationPact migrations).Guarded (covering migrations) db (k (some err)))
    (hnext : ∀ db : MigrationDb, Covered (pre ++ [m]) db →
      (migrationPact migrations).Guarded (covering migrations) db (k none)) :
    (migrationPact migrations).Guarded (covering migrations) db
      (.call (.commit ⟨[m.sql], [m.row now]⟩) k) := by
  refine ⟨trivial, fun db₁ h₁ hinv i err db₂ _ hr => ?_⟩
  replace hcovered := hcovered.mono h₁
  rcases commit_cases hr with happly | ⟨rfl, herr⟩
  · obtain ⟨first, applied, hfirst, hrecorded⟩ := hinv
    obtain ⟨hrows, -, -⟩ := apply_ok happly
    have hgrow : db₁.schemaMigrations.rows <+: db₂.schemaMigrations.rows :=
      hrows ▸ List.prefix_append _ _
    have hpre : pre ++ [m] <+: migrations := hlist ▸ List.prefix_append _ _
    refine ⟨⟨_, _, hpre, hrecorded.commit hfirst hpre hcovered happly⟩, hgrow, ?_⟩
    cases err with
    | some err => exact hfail db₂ err
    | none =>
      have hrow : m.row now ∈ db₂.schemaMigrations.rows := by simp [hrows]
      exact hnext db₂ ((hcovered.mono hgrow).snoc hrow rfl rfl)
  · obtain ⟨err, rfl⟩ := Option.ne_none_iff_exists'.mp herr
    exact ⟨hinv, List.prefix_rfl, hfail _ err⟩

/-- A runner that has covered `pre` and goes on with the rest of the list. -/
theorem guarded_applyLoop (now : Time) (rest : List Migration) :
    ∀ {pre : List Migration} (result : MigrationResult) {db : MigrationDb},
      pre ++ rest = migrations → Covered pre db →
      (migrationPact migrations).Guarded (covering migrations) db
        (applyLoop now result rest) := by
  induction rest with
  | nil =>
    intro pre result db hlist hcovered db' hrely _ _
    rw [List.append_nil] at hlist
    exact hlist ▸ hcovered.mono hrely
  | cons m rest ih =>
    intro pre result db hlist hcovered
    rw [List.append_cons] at hlist
    refine guarded_statement nofun trivial fun db₁ h₁ _ _ r _ hr => ?_
    replace hcovered := hcovered.mono h₁
    cases r with
    | ok checksum =>
      obtain ⟨row, hrow, hversion, hchecksum⟩ := select_ok hr
      refine Pact.Guarded.ite (fun _ => guarded_error _ _) fun hsame => ?_
      exact ih _ hlist (hcovered.snoc hrow hversion (hchecksum.trans (not_not.mp hsame)))
    | error _ =>
      refine guarded_statement nofun trivial fun db₂ h₂ _ _ r _ hr => ?_
      cases r with
      | error err => exact guarded_error _ _
      | ok tx =>
        obtain rfl := begin_ok hr
        refine guarded_statement nofun trivial fun db₃ h₃ _ _ r _ hr => ?_
        cases r with
        | error err => exact guarded_rollback _ _ _
        | ok tx =>
          obtain rfl := exec_ok hr
          refine guarded_statement nofun trivial fun db₄ h₄ _ _ r _ hr => ?_
          cases r with
          | error err => exact guarded_rollback _ _ _
          | ok tx =>
            obtain rfl := insertRow_ok hr
            refine guarded_commit hlist (((hcovered.mono h₂).mono h₃).mono h₄) ?_ ?_
            · exact fun _ _ => guarded_error _ _
            · exact fun _ hcovered => ih _ hlist hcovered

/-- Every runner keeps to the pact. -/
theorem guarded_applyMigrations (now : Time) (db : MigrationDb) :
    (migrationPact migrations).Guarded (covering migrations) db
      (applyMigrations migrations now) := by
  refine guarded_statement nofun trivial fun db₁ _ _ _ r _ _ => ?_
  cases r with
  | some err => exact guarded_error _ _
  | none => exact guarded_applyLoop now migrations {} (List.nil_append _) nofun

/-! ## A later run without faults -/

/-- What a runner without faults gives once the list is covered: it opens no
transaction and skips the list. -/
def skipping (migrations : List Migration) : Terms (migrator migrations) where
  needs i := i = Outcome.ok
  does o := o = MigrateOp.ensureTable ∨ ∃ version, o = MigrateOp.selectChecksum version
  gives _ out := out = ({ skipped := migrations }, none)

theorem skip_applyLoop (now : Time) (rest : List Migration) :
    ∀ {pre : List Migration} {db : MigrationDb}, pre ++ rest = migrations →
      Covered migrations db →
      (migrationPact migrations).Guarded (skipping migrations) db
        (applyLoop now { skipped := pre } rest) := by
  induction rest with
  | nil =>
    intro pre db hlist _ _ _ _
    rw [List.append_nil] at hlist
    show (_, _) = _
    rw [hlist]
  | cons m rest ih =>
    intro pre db hlist hcovered
    have hm : m ∈ migrations := hlist ▸ by simp
    rw [List.append_cons] at hlist
    refine guarded_statement nofun (.inr ⟨_, rfl⟩) fun db₁ h₁ _ i r hi hr => ?_
    replace hcovered := hcovered.mono h₁
    obtain rfl : i = .ok := hi
    obtain ⟨row, hfind, hchecksum⟩ := hcovered.find hm
    simp only [MigrationDb.handle, hfind] at hr
    cases hr
    exact Pact.Guarded.ite (absurd hchecksum) fun _ => ih hlist hcovered

theorem skip_applyMigrations (now : Time) (hcovered : Covered migrations db) :
    (migrationPact migrations).Guarded (skipping migrations) db
      (applyMigrations migrations now) := by
  refine guarded_statement nofun (.inl rfl) fun db₁ h₁ _ i r hi hr => ?_
  obtain rfl : i = .ok := hi
  cases hr
  exact skip_applyLoop now migrations (List.nil_append _) (hcovered.mono h₁)

end runners

/-- What holds in a world that runners have reached. -/
structure MigrationsSafe (migrations : List Migration) (w : World (migrator migrations)) :
    Prop where
  /-- The recorded versions are those of a prefix of the list, and the SQL of
  each has been committed once. -/
  recorded : ∃ first applied, first <+: migrations ∧ Recorded first applied w.state
  /-- When a runner has returned no error, the whole list is recorded. -/
  complete : ∀ {cid : Nat} {result : MigrationResult}, w.result cid = some (result, none) →
    ∀ m ∈ migrations, m.version ∈ MigrationDb.versions w.state
  /-- A runner without faults that starts then opens no transaction, can come
  to its end, and skips the list. -/
  skips : ∀ {cid : Nat} {result : MigrationResult}, w.result cid = some (result, none) →
    ∀ {later : Nat} {now : Time} {tr : Trace (migrator migrations)}
      {w' : World (migrator migrations)}, Run w (.spawn later now :: tr) w' →
      (∀ a ∈ hist later tr, a.inp = Outcome.ok) →
        (∀ a ∈ hist later tr, a.op = .ensureTable ∨ ∃ version, a.op = .selectChecksum version) ∧
        (∀ out, w'.result later = some out → out = ({ skipped := migrations }, none)) ∧
        ∃ tr' w'', Run w' tr' w'' ∧ (∀ a ∈ hist later tr', a.inp = Outcome.ok) ∧
          w''.result later = some ({ skipped := migrations }, none)

theorem migrations_safe (migrations : List Migration) {tr : Trace (migrator migrations)}
    {w : World (migrator migrations)} (h : Run (.init MigrationDb.empty) tr w) :
    MigrationsSafe migrations w := by
  have hbody : ∀ c s, (migrationPact migrations).inv s →
      (migrationPact migrations).Guarded (covering migrations) s ((migrator migrations).body c) :=
    fun now db _ => guarded_applyMigrations now db
  have hinit : (migrationPact migrations).inv MigrationDb.empty :=
    ⟨[], [], List.nil_prefix, by simp [MigrationDb.versions, MigrationDb.empty, Table.empty],
      List.nodup_nil, List.Sublist.refl _, rfl, rfl⟩
  obtain ⟨hinv, hthreads⟩ := Pact.keeps hbody hinit h
  have hcovered : ∀ {cid : Nat} {result : MigrationResult},
      w.result cid = some (result, none) → Covered migrations w.state := by
    intro cid result hresult
    obtain ⟨now, hth⟩ := World.result_eq_some hresult
    exact (hthreads cid _ hth).returns hinv hth hresult rfl
  refine ⟨hinv, ?_, ?_⟩
  · intro cid result hresult m hm
    exact (hcovered hresult).version_mem (List.mem_map_of_mem hm)
  · intro cid result hresult later now tr' w' h' hok
    -- what the later runner does, wherever it has got to
    have hlater : ∀ {t w₁}, Run w (.spawn later now :: t) w₁ →
        (∀ a ∈ hist later t, a.inp = Outcome.ok) →
        (∀ a ∈ hist later t, (skipping migrations).does a.op) ∧
          ∃ p, w₁.threads later = some ⟨now, p⟩ ∧
            ∀ out, w₁.result later = some out → out = ({ skipped := migrations }, none) := by
      intro t w₁ h₁ hok₁
      obtain ⟨hdid, p, hth, hp⟩ := Pact.guarded_of_spawn hbody hinit h
        (skip_applyMigrations now (hcovered hresult)) h₁ hok₁
      obtain ⟨hinv₁, -⟩ := Pact.keeps hbody hinit (h.append h₁)
      exact ⟨hdid, p, hth, fun out hout => hp.returns hinv₁ hth hout⟩
    obtain ⟨hdid, p, hth, hout⟩ := hlater h' hok
    refine ⟨hdid, hout, ?_⟩
    obtain ⟨t, w'', out, hrun, hok', hend⟩ := Run.finish handle_isSome p hth
    have hresult'' : w''.result later = some out := by rw [World.result, hend]
    have hall : ∀ a ∈ hist later (tr' ++ t), a.inp = Outcome.ok := by
      rw [hist_append]
      exact fun a ha => (List.mem_append.mp ha).elim (hok a) (hok' a)
    obtain ⟨-, -, -, hout''⟩ := hlater (h'.append hrun) hall
    exact ⟨t, w'', hrun, hok', hout'' out hresult'' ▸ hresult''⟩

def raceMigrations : List Migration :=
  [⟨go "001", go "001_init.sql", go "create table transfers ();", go "c1"⟩,
    ⟨go "002", go "002_outbox.sql", go "create table outbox ();", go "c2"⟩]

def startRunner (cid : Nat) : Label (migrator raceMigrations) := .spawn cid (unixEpoch : Time)

/-- A number of statements of a runner without faults. -/
def runner (cid n : Nat) : List (Label (migrator raceMigrations)) :=
  .replicate n (.step cid Outcome.ok)

/-- Runners 0 and 1 execute the first migration at the same time; the commit
of 0 takes effect but its answer is lost, and 1 is too late.  The look-up of
runner 2 fails, so it executes the first migration once more.  Runner 3
completes the list. -/
def migrationLabels : List (Label (migrator raceMigrations)) :=
  startRunner 0 :: startRunner 1 :: runner 0 5 ++ runner 1 5 ++
    .step 0 (Outcome.lost (go "timeout")) :: runner 1 1 ++
    startRunner 2 :: runner 2 1 ++ .step 2 (Outcome.fail (go "timeout")) :: runner 2 4 ++
    startRunner 3 :: runner 3 7

set_option maxRecDepth 20000 in
theorem migrationLabels_isSome :
    ((World.init (Y := migrator raceMigrations) .empty).exec migrationLabels).isSome := by
  decide +kernel

def migrationRace : Trace (migrator raceMigrations) × World (migrator raceMigrations) :=
  World.ran _ migrationLabels migrationLabels_isSome

/-- What a runner has returned in the race. -/
def raced (cid : Nat) : Option (MigrationResult × Option GoString) := migrationRace.2.result cid

/-- All but the last runner fail, and the SQL of each migration is committed
once. -/
theorem migrations_safe_race :
    raced 0 = some ({}, some (go "commit migration 001_init.sql: timeout")) ∧
      raced 1 = some ({}, some (go "commit migration 001_init.sql: " ++ duplicateKey)) ∧
      raced 2 = some ({}, some (go "record migration 001_init.sql: " ++ duplicateKey)) ∧
      raced 3 = some (⟨raceMigrations.drop 1, raceMigrations.take 1⟩, none) ∧
      MigrationDb.committed migrationRace.2.state = raceMigrations.map (·.sql) ∧
      MigrationsSafe raceMigrations migrationRace.2 :=
  ⟨by decide +kernel, by decide +kernel, by decide +kernel, by decide +kernel, by decide +kernel,
    migrations_safe raceMigrations (World.run_ran _ _ _)⟩

end PixRail.Postgres
