import PixRail.Go.Segments
import PixRail.Interleave.Rely
import PixRail.Rail.Model
import PixRail.Sql.Table
import Mathlib.Data.List.Sort

/-!
# Migrations

`LoadMigrations` reads the SQL files of a directory, in the order of their
names.

`ApplyMigrations` runs over such a list.  A runner looks up each migration.
Unless the look-up finds it, also when the look-up fails, the runner executes
its SQL and records its version in one transaction.  Any number of runners
work at once, and each of their statements can fail.

What a transaction has done is not seen by the others before it commits, so a
transaction is a value that its statements extend, and a commit makes its
statements part of the database all at once.  The table `schema_migrations`
carries its primary key: a transaction that would repeat a version is not
committed.
-/

namespace PixRail.Postgres

open Go Rail Sql Interleave

structure Migration where
  version : GoString
  name : GoString
  sql : GoString
  checksum : GoString
  deriving DecidableEq

/-! ## `LoadMigrations` -/

/-- An entry of the directory, and what reading it gives. -/
structure DirEntry where
  name : GoString
  isDir : Bool
  content : Except GoString GoString

def DirEntry.isSQL (entry : DirEntry) : Bool :=
  !entry.isDir && (go ".sql").isSuffixOf entry.name

/-- The byte that ends the version in the name of a file. -/
def underscore : UInt8 := 0x5F

/-- The body of the loop of `LoadMigrations`. -/
def loadEntry (H : Digest) (entry : DirEntry) : Except GoString Migration :=
  match entry.content with
  | .error err => .error (go "read migration " ++ entry.name ++ go ": " ++ err)
  | .ok raw =>
    match cut underscore entry.name with
    | none =>
      .error (go "migration " ++ entry.name ++ go " must start with a version prefix")
    | some (version, _) =>
      if version = [] then
        .error (go "migration " ++ entry.name ++ go " must start with a version prefix")
      else
        .ok { version := version, name := entry.name, sql := raw,
              checksum := hexEncode (H.sum256 raw) }

def loadEntries (H : Digest) : List DirEntry → Except GoString (List Migration)
  | [] => .ok []
  | entry :: entries =>
    if entry.isSQL = false then loadEntries H entries
    else
      match loadEntry H entry with
      | .error err => .error err
      | .ok migration => (loadEntries H entries).map (migration :: ·)

/-- `LoadMigrations`, from what `fs.ReadDir` gives. -/
def loadMigrations (H : Digest) (dir : Except GoString (List DirEntry)) :
    Except GoString (List Migration) :=
  match dir with
  | .error err => .error (go "read migrations dir: " ++ err)
  | .ok entries =>
    (loadEntries H entries).map fun migrations =>
      migrations.insertionSort fun a b => a.name ≤ b.name

/-- What a loaded migration has: the version is the name up to the first
underscore. -/
structure Migration.Loaded (H : Digest) (m : Migration) : Prop where
  version_ne_nil : m.version ≠ []
  version : ∃ rest, cut underscore m.name = some (m.version, rest)
  checksum : m.checksum = hexEncode (H.sum256 m.sql)

theorem loadEntry_ok {H : Digest} {entry : DirEntry} {m : Migration}
    (h : loadEntry H entry = .ok m) : m.name = entry.name ∧ m.Loaded H := by
  unfold loadEntry at h
  split at h
  · cases h
  · split at h
    · cases h
    · rename_i version rest hcut
      split at h
      · cases h
      · rename_i hne
        cases h
        exact ⟨rfl, hne, ⟨rest, hcut⟩, rfl⟩

theorem loadEntries_ok {H : Digest} {entries : List DirEntry} {loaded : List Migration}
    (h : loadEntries H entries = .ok loaded) :
    loaded.map (·.name) = (entries.filter (·.isSQL)).map (·.name) ∧ ∀ m ∈ loaded, m.Loaded H := by
  induction entries generalizing loaded with
  | nil =>
    cases h
    exact ⟨rfl, nofun⟩
  | cons entry entries ih =>
    rw [loadEntries] at h
    cases hsql : entry.isSQL with
    | false =>
      rw [if_pos hsql] at h
      rw [List.filter_cons_of_neg (by simp [hsql])]
      exact ih h
    | true =>
      rw [if_neg (by simp [hsql])] at h
      rw [List.filter_cons_of_pos hsql]
      cases hentry : loadEntry H entry with
      | error err =>
        rw [hentry] at h
        cases h
      | ok m =>
        rw [hentry] at h
        cases hrest : loadEntries H entries with
        | error err =>
          rw [hrest] at h
          cases h
        | ok rest =>
          rw [hrest] at h
          cases h
          obtain ⟨hname, hm⟩ := loadEntry_ok hentry
          obtain ⟨hnames, hloaded⟩ := ih hrest
          refine ⟨?_, List.forall_mem_cons.mpr ⟨hm, hloaded⟩⟩
          rw [List.map_cons, List.map_cons, hname, hnames]

/-- The loaded list has one migration for each SQL file, sorted by name. -/
theorem loadMigrations_ok {H : Digest} {entries : List DirEntry} {migrations : List Migration}
    (h : loadMigrations H (.ok entries) = .ok migrations) :
    migrations.Pairwise (fun a b => a.name ≤ b.name) ∧
      (migrations.map (·.name)).Perm ((entries.filter (·.isSQL)).map (·.name)) ∧
      ∀ m ∈ migrations, m.Loaded H := by
  have : Std.Total fun a b : Migration => a.name ≤ b.name :=
    ⟨fun a b => List.le_total a.name b.name⟩
  have : IsTrans Migration fun a b => a.name ≤ b.name :=
    ⟨fun a b c hab hbc => List.le_trans hab hbc⟩
  rw [loadMigrations] at h
  cases hentries : loadEntries H entries with
  | error err =>
    rw [hentries] at h
    cases h
  | ok loaded =>
    rw [hentries] at h
    cases h
    obtain ⟨hnames, hloaded⟩ := loadEntries_ok hentries
    refine ⟨List.pairwise_insertionSort _ _, ?_, fun m hm => ?_⟩
    · rw [← hnames]
      exact (List.perm_insertionSort _ _).map _
    · exact hloaded m ((List.mem_insertionSort _).mp hm)

/-! ## The database -/

structure MigrationResult where
  applied : List Migration := []
  skipped : List Migration := []
  deriving DecidableEq

/-- A row of `schema_migrations`. -/
structure MigrationRow where
  version : GoString
  name : GoString
  checksum : GoString
  appliedAt : Time
  deriving DecidableEq

def migrationSchema : Schema MigrationRow GoString where
  check _ := true
  keys := [⟨go "schema_migrations_pkey", fun a b => a.version = b.version⟩]

/-- The table `schema_migrations`, and the SQL of the migrations that has been
committed, oldest first. -/
structure MigrationDb where
  schemaMigrations : Table migrationSchema
  committed : List GoString

/-- What the statements of a transaction have done. -/
structure MigrationTx where
  executed : List GoString := []
  inserted : List MigrationRow := []

/-- The database after the transaction, if the primary key allows it. -/
def MigrationDb.apply (db : MigrationDb) (tx : MigrationTx) :
    Except (Violation GoString) MigrationDb :=
  match tx.inserted.foldlM Table.insert db.schemaMigrations with
  | .error violation => .error violation
  | .ok table => .ok { schemaMigrations := table, committed := db.committed ++ tx.executed }

/-! ## Statements -/

inductive MigrateOp where
  /-- `create table if not exists schema_migrations`. -/
  | ensureTable
  | selectChecksum (version : GoString)
  | begin
  | exec (tx : MigrationTx) (sql : GoString)
  | insertRow (tx : MigrationTx) (row : MigrationRow)
  | rollback (tx : MigrationTx)
  | commit (tx : MigrationTx)

/-- The answers.  A statement of a transaction answers with the transaction
as it is then. -/
@[reducible] def MigrateOp.Ret : MigrateOp → Type
  | .ensureTable => Option GoString
  | .selectChecksum _ => Except GoString GoString
  | .begin => Except GoString MigrationTx
  | .exec _ _ => Except GoString MigrationTx
  | .insertRow _ _ => Except GoString MigrationTx
  | .rollback _ => Unit
  | .commit _ => Option GoString

abbrev migrateSig : Sig := ⟨MigrateOp, MigrateOp.Ret⟩

/-- What happens to a statement. -/
inductive Outcome where
  | ok
  /-- It fails and has no effect. -/
  | fail (err : GoString)
  /-- A commit that takes effect although its answer is an error. -/
  | lost (err : GoString)
  deriving DecidableEq

def duplicateKey : GoString := go "duplicate key value violates unique constraint"

/-- The answer of the database to a statement. -/
def MigrationDb.handle : (o : MigrateOp) → Outcome → MigrationDb → Option (o.Ret × MigrationDb)
  | .ensureTable, .ok, db => some (none, db)
  | .ensureTable, .fail err, db => some (some err, db)
  | .selectChecksum version, .ok, db =>
    match db.schemaMigrations.find? (·.version = version) with
    | some row => some (.ok row.checksum, db)
    | none => some (.error (go "no rows in result set"), db)
  | .selectChecksum _, .fail err, db => some (.error err, db)
  | .begin, .ok, db => some (.ok {}, db)
  | .begin, .fail err, db => some (.error err, db)
  | .exec tx sql, .ok, db => some (.ok { tx with executed := tx.executed ++ [sql] }, db)
  | .exec _ _, .fail err, db => some (.error err, db)
  | .insertRow tx row, .ok, db =>
    match db.apply { tx with inserted := tx.inserted ++ [row] } with
    | .ok _ => some (.ok { tx with inserted := tx.inserted ++ [row] }, db)
    | .error _ => some (.error duplicateKey, db)
  | .insertRow _ _, .fail err, db => some (.error err, db)
  | .rollback _, _, db => some ((), db)
  | .commit tx, .ok, db =>
    match db.apply tx with
    | .ok db' => some (none, db')
    | .error _ => some (some duplicateKey, db)
  | .commit _, .fail err, db => some (some err, db)
  | .commit tx, .lost err, db =>
    match db.apply tx with
    | .ok db' => some (some err, db')
    | .error _ => some (some err, db)
  | _, .lost _, _ => none

/-! ## `ApplyMigrations` -/

abbrev MigrateCode := Prog migrateSig

def statement (o : MigrateOp) : MigrateCode o.Ret := Prog.perform (S := migrateSig) o

/-- The row that a runner inserts. -/
def Migration.row (migration : Migration) (now : Time) : MigrationRow where
  version := migration.version
  name := migration.name
  checksum := migration.checksum
  appliedAt := now

/-- `fmt.Errorf("doing migration %s: %w", …)`. -/
def migrationErr (doing : String) (migration : Migration) (err : GoString) : GoString :=
  go doing ++ go " migration " ++ migration.name ++ go ": " ++ err

/-- The loop of `ApplyMigrations`. -/
def applyLoop (now : Time) (result : MigrationResult) :
    List Migration → MigrateCode (MigrationResult × Option GoString)
  | [] => return (result, none)
  | migration :: migrations => do
    match ← statement (.selectChecksum migration.version) with
    | .ok currentChecksum =>
      if currentChecksum ≠ migration.checksum then
        return (result, some (go "migration " ++ migration.name ++ go " checksum mismatch"))
      else applyLoop now { result with skipped := result.skipped ++ [migration] } migrations
    | .error _ =>
      match ← statement .begin with
      | .error err => return (result, some (migrationErr "begin" migration err))
      | .ok tx =>
        match ← statement (.exec tx migration.sql) with
        | .error err =>
          let _ ← statement (.rollback tx)
          return (result, some (migrationErr "apply" migration err))
        | .ok tx =>
          match ← statement (.insertRow tx (migration.row now)) with
          | .error err =>
            let _ ← statement (.rollback tx)
            return (result, some (migrationErr "record" migration err))
          | .ok tx =>
            match ← statement (.commit tx) with
            | some err => return (result, some (migrationErr "commit" migration err))
            | none =>
              applyLoop now { result with applied := result.applied ++ [migration] } migrations

/-- `ApplyMigrations`. -/
def applyMigrations (migrations : List Migration) (now : Time) :
    MigrateCode (MigrationResult × Option GoString) := do
  match ← statement .ensureTable with
  | some err => return ({}, some (go "ensure schema_migrations: " ++ err))
  | none => applyLoop now {} migrations

/-- Runners of one list of migrations over one database.  A call is a runner
with its time. -/
def migrator (migrations : List Migration) : System migrateSig where
  Input := Outcome
  State := MigrationDb
  Call := Time
  Out := MigrationResult × Option GoString
  handle := MigrationDb.handle
  body := applyMigrations migrations

/-- The database with an empty `schema_migrations`. -/
def MigrationDb.empty : MigrationDb := ⟨.empty, []⟩

end PixRail.Postgres
