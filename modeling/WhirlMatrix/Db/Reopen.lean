/-
# Opening a database again

`Open` on a database object in any state: fresh, or already open on some directory and
written to.  `ReplayWAL` clears the mem-table always, but it resets `version_` only when
there is a log file to replay.  So the version of a database object that has been written
to survives when it is opened on a directory without a log.
-/
import WhirlMatrix.Db.Recovery

namespace Whirl.Db

variable {Key Value : Type} [Ord Key] [Std.TransOrd Key] {L : Libraries Key Value}

/-! ## A database object and its disk -/

/-- The log files on a disk, by path. -/
abbrev Disk (L : Libraries Key Value) := String → Option L.File

/-- A file is written. -/
def Disk.set (disk : Disk L) (path : String) (file : L.File) : Disk L :=
  fun other => if other = path then some file else disk other

/-- The batches of a log, when `ReadNext` returns one after another.  They do not depend on
a database object. -/
def walBatches (L : Libraries Key Value) : Option L.File → Outcome (List (WriteBatch Key Value))
  | none => .ok []
  | some file => (L.records file).mapM (readRecord L)

/-- A database object on a disk.  `logPath` is `LogPath` for a directory: paths are joined
by the library `persist`. -/
structure Session (L : Libraries Key Value) (logPath : String → String) where
  db : Database Key Value := {}
  disk : Disk L := fun _ => none

/-- What a program does with a database object. -/
inductive Request (Key Value : Type) where
  | openDir (directory : String)
  | write (batch : WriteBatch Key Value)
  deriving DecidableEq, Repr

namespace Session

variable {logPath : String → String}

/-- `Open`. -/
def openDir (session : Session L logPath) (directory : String) : Outcome (Session L logPath) := do
  let path := logPath directory
  let (db, file) ← session.db.openDir L directory (session.disk path)
  return ⟨db, session.disk.set path file⟩

/-- `Write`, when no other fiber writes. -/
def write (session : Session L logPath) (batch : WriteBatch Key Value) :
    Outcome (Session L logPath) := do
  session.db.ensureOpened
  match session.db.dir.map logPath with
  | none => .error .undefined
  | some path =>
    match session.disk path with
    | none => .error .undefined
    | some file => do
      let (db, file) ← session.db.appendToWAL L file batch
      return ⟨db.finishWrite batch, session.disk.set path file⟩

/-- One request. -/
def execute (session : Session L logPath) : Request Key Value → Outcome (Session L logPath)
  | .openDir directory => session.openDir directory
  | .write batch => session.write batch

/-! ## What an open database shows -/

/-- `Open` leaves what the log in the directory determines: all its batches in the
mem-table, their number as the version, and both in the snapshots. -/
structure OpensFresh (session : Session L logPath) (directory : String) : Prop where
  memTable : (session.openDir directory).map (fun opened => opened.db.memTable)
    = (walBatches L (session.disk (logPath directory))).map applyAll
  version : (session.openDir directory).map (fun opened => opened.db.version)
    = (walBatches L (session.disk (logPath directory))).map List.length
  snapshot : (session.openDir directory >>= fun opened => opened.db.makeSnapshot)
    = (walBatches L (session.disk (logPath directory))).map
        fun batches => ⟨(applyAll batches).entries, batches.length⟩

/-! ## Replay of any log -/

/-- Replay fails when a record cannot be read, and applies and counts all batches
otherwise.  Induction on the records. -/
theorem foldlM_replayRecord_eq_map (records : List L.Record) (db : Database Key Value) :
    records.foldlM (Database.replayRecord L) db
      = (records.mapM (readRecord L)).map fun batches => { db with
          memTable := batches.foldl MemTable.applyBatch db.memTable
          version := db.version + batches.length } := by
  induction records generalizing db with
  | nil => rfl
  | cons record records ih =>
    rw [List.foldlM_cons, List.mapM_cons, Database.replayRecord]
    cases readRecord L record with
    | error failure => rfl
    | ok batch =>
      show records.foldlM (Database.replayRecord L) _ = _
      rw [ih]
      cases records.mapM (readRecord L) with
      | error failure => rfl
      | ok batches =>
        have hversion : db.version + 1 + batches.length = db.version + (batches.length + 1) := by
          omega
        exact congrArg (fun version => Except.ok { db with
          memTable := batches.foldl MemTable.applyBatch (db.memTable.applyBatch batch)
          version := version }) hversion

/-- With a log, `Open` starts from nothing. -/
theorem openDir_of_some {session : Session L logPath} {directory : String} {file : L.File}
    (h : session.disk (logPath directory) = some file) :
    session.openDir directory = (walBatches L (some file)).map fun batches =>
      ⟨{ dir := some directory
         memTable := applyAll batches
         wal := some (L.offsetForWriter file)
         version := batches.length },
        session.disk.set (logPath directory)
          (L.openWriter (some file) (L.offsetForWriter file))⟩ := by
  rw [openDir, h, Database.openDir, Database.replayWAL]
  dsimp only
  rw [foldlM_replayRecord_eq_map, walBatches]
  cases (L.records file).mapM (readRecord L) with
  | error failure => rfl
  | ok batches =>
    show Except.ok _ = Except.ok _
    simp only [Nat.zero_add]
    rfl

/-- Without a log, `Open` clears the mem-table and keeps the version. -/
theorem openDir_of_none {session : Session L logPath} {directory : String}
    (h : session.disk (logPath directory) = none) :
    session.openDir directory = .ok
      ⟨{ dir := some directory
         memTable := {}
         wal := some 0
         version := session.db.version },
        session.disk.set (logPath directory) (L.openWriter none 0)⟩ := by
  rw [openDir, h]
  rfl

/-- **When `Open` depends on the disk only.**  It does exactly if there is a log in the
directory, or the version was still 0. -/
theorem opensFresh_iff (session : Session L logPath) (directory : String) :
    session.OpensFresh directory ↔
      (session.disk (logPath directory)).isSome = true ∨ session.db.version = 0 := by
  cases hfile : session.disk (logPath directory) with
  | some file =>
    refine iff_of_true ?_ (Or.inl rfl)
    have hopen := openDir_of_some hfile
    cases hbatches : walBatches L (some file) with
    | error failure =>
      rw [hbatches] at hopen
      constructor <;> (rw [hopen, hfile, hbatches]; rfl)
    | ok batches =>
      rw [hbatches] at hopen
      constructor <;> (rw [hopen, hfile, hbatches]; rfl)
  | none =>
    have hopen := openDir_of_none hfile
    constructor
    · intro h
      right
      have hversion := h.version
      rw [hopen, hfile] at hversion
      exact Except.ok.inj hversion
    · rintro (hsome | hversion)
      · cases hsome
      · rw [hversion] at hopen
        constructor <;> (rw [hopen, hfile]; rfl)

/-! ## A database that is opened twice -/

/-- The path of the log in a directory. -/
def walPath (directory : String) : String := directory ++ "/wal"

/-- A database object that was opened on the empty directory "a" and written to. -/
def writtenSession : Session recordLog walPath :=
  (Runs.exec execute (fun _ _ => True) {} [.openDir "a", .write ⟨[.put 1 10]⟩]).getD {}

/-- Opened on the directory "a" again, the database has one entry and version 1. -/
theorem opensFresh_iff_writtenSession : writtenSession.OpensFresh "a" :=
  (opensFresh_iff writtenSession "a").mpr (Or.inl rfl)

/-- Opened on the empty directory "b", the database has no entries, but version 1. -/
theorem not_opensFresh_writtenSession :
    Runs.exec execute (fun _ _ => True) ({} : Session recordLog walPath)
        [.openDir "a", .write ⟨[.put 1 10]⟩] = some writtenSession ∧
      ¬ writtenSession.OpensFresh "b" := by
  refine ⟨rfl, ?_⟩
  intro h
  have hversion : (1 : ℕ) = 0 := Except.ok.inj h.version
  exact absurd hversion Nat.one_ne_zero

end Session

end Whirl.Db
