/-
# The database of a node

`MemTable`, `Snapshot` and `Database` of `matrix/db`, for any ordered type of keys.
The libraries `persist` (the log on disk) and `muesli` (serialization) are parameters.
The file `sstable` is left out: it only delays operations.
-/
import WhirlMatrix.Time
import Mathlib.Data.Finset.Basic

namespace Whirl.Db

/-! ## Batches and tables -/

/-- `node::db::Mutation`. -/
inductive Mutation (Key Value : Type) where
  | put (key : Key) (value : Value)
  | delete (key : Key)
  deriving DecidableEq, Repr

/-- The key that a mutation is about. -/
def Mutation.key {Key Value : Type} : Mutation Key Value → Key
  | put key _ => key
  | delete key => key

/-- The value that a mutation leaves. -/
def Mutation.value? {Key Value : Type} : Mutation Key Value → Option Value
  | put _ value => some value
  | delete _ => none

/-- `node::db::WriteBatch`. -/
structure WriteBatch (Key Value : Type) where
  muts : List (Mutation Key Value)
  deriving DecidableEq, Repr

/-- `Entries`, a `std::map`. -/
abbrev Entries (Key Value : Type) [Ord Key] [Std.TransOrd Key] := Std.ExtTreeMap Key Value compare

/-- `MemTable`. -/
structure MemTable (Key Value : Type) [Ord Key] [Std.TransOrd Key] where
  entries : Entries Key Value := ∅

variable {Key Value : Type} [Ord Key] [Std.TransOrd Key]

namespace MemTable

/-- `Put`. -/
def put (table : MemTable Key Value) (key : Key) (value : Value) : MemTable Key Value where
  entries := table.entries.insert key value

/-- `TryGet`. -/
def tryGet (table : MemTable Key Value) (key : Key) : Option Value := table.entries[key]?

/-- `Delete`. -/
def delete (table : MemTable Key Value) (key : Key) : MemTable Key Value where
  entries := table.entries.erase key

/-- `Clear`. -/
def clear (_ : MemTable Key Value) : MemTable Key Value where
  entries := ∅

/-- One turn of the loop of `ApplyToMemTable`. -/
def applyMutation (table : MemTable Key Value) : Mutation Key Value → MemTable Key Value
  | .put key value => table.put key value
  | .delete key => table.delete key

/-- The loop of `ApplyToMemTable`. -/
def applyBatch (table : MemTable Key Value) (batch : WriteBatch Key Value) : MemTable Key Value :=
  batch.muts.foldl applyMutation table

theorem tryGet_applyMutation (table : MemTable Key Value) (mutation : Mutation Key Value)
    (key : Key) : (table.applyMutation mutation).tryGet key
      = if compare mutation.key key = .eq then mutation.value? else table.tryGet key := by
  cases mutation with
  | put key' value => exact Std.ExtTreeMap.getElem?_insert
  | delete key' => exact Std.ExtTreeMap.getElem?_erase

/-- The last mutation of a key wins, and a key that it deletes is absent. -/
theorem tryGet_foldl_applyMutation (mutations : List (Mutation Key Value))
    (table : MemTable Key Value) (key : Key) :
    (mutations.foldl applyMutation table).tryGet key
      = match mutations.reverse.find? fun mutation => compare mutation.key key == .eq with
        | some mutation => mutation.value?
        | none => table.tryGet key := by
  induction mutations using List.reverseRecOn with
  | nil => rfl
  | append_singleton mutations mutation ih =>
    rw [List.foldl_append, List.foldl_cons, List.foldl_nil, tryGet_applyMutation,
      List.reverse_append, List.reverse_singleton, List.singleton_append, List.find?_cons]
    by_cases hkey : compare mutation.key key = .eq
    · rw [if_pos hkey, hkey]
      rfl
    · rw [if_neg hkey, beq_false_of_ne hkey, ih]

end MemTable

/-- `Snapshot`. -/
structure Snapshot (Key Value : Type) [Ord Key] [Std.TransOrd Key] where
  entries : Entries Key Value
  version : ℕ

/-- `Snapshot::TryGet`. -/
def Snapshot.tryGet (snapshot : Snapshot Key Value) (key : Key) : Option Value :=
  snapshot.entries[key]?

/-! ## The log -/

/-- `WALEntry`. -/
structure WALEntry (Key Value : Type) where
  muts : List (Mutation Key Value)
  deriving DecidableEq, Repr

/-- The libraries below the database. -/
structure Libraries (Key Value : Type) where
  /-- Contents of a log file. -/
  File : Type
  /-- Serialized data. -/
  Record : Type
  /-- `muesli::Serialize`. -/
  serialize : WALEntry Key Value → Record
  /-- `muesli::Deserialize`. -/
  deserialize : Record → Outcome (WALEntry Key Value)
  /-- What `LogReader::ReadNext` returns, one after another, until it returns nothing. -/
  records : File → List Record
  /-- `LogReader::OffsetForWriter` after that. -/
  offsetForWriter : File → ℕ
  /-- `LogWriter::Open` on a file that may be missing. -/
  openWriter : Option File → ℕ → File
  /-- `LogWriter::Append`: the file and the next offset of the writer. -/
  append : File → ℕ → Record → File × ℕ
  /-- The file after a crash inside `Append`, when so many of the bytes were written. -/
  interrupted : File → ℕ → Record → ℕ → File

/-- What the database relies on. -/
structure Libraries.Spec (L : Libraries Key Value) : Prop where
  deserialize : ∀ entry, L.deserialize (L.serialize entry) = .ok entry
  openWriter_none : L.records (L.openWriter none 0) = [] ∧
    L.offsetForWriter (L.openWriter none 0) = 0
  openWriter_some : ∀ file,
    L.records (L.openWriter (some file) (L.offsetForWriter file)) = L.records file ∧
      L.offsetForWriter (L.openWriter (some file) (L.offsetForWriter file)) = L.offsetForWriter file
  append : ∀ file record,
    L.records (L.append file (L.offsetForWriter file) record).1 = L.records file ++ [record] ∧
      L.offsetForWriter (L.append file (L.offsetForWriter file) record).1
        = (L.append file (L.offsetForWriter file) record).2
  interrupted : ∀ file record written,
    L.records (L.interrupted file (L.offsetForWriter file) record written) = L.records file ∨
      L.records (L.interrupted file (L.offsetForWriter file) record written)
        = L.records file ++ [record]

variable (L : Libraries Key Value)

/-- The record that `WALWriter::Append` makes of a batch. -/
def walRecord (batch : WriteBatch Key Value) : L.Record := L.serialize ⟨batch.muts⟩

/-- `WALReader::ReadNext` of one record. -/
def readRecord (record : L.Record) : Outcome (WriteBatch Key Value) := do
  let entry ← L.deserialize record
  return ⟨entry.muts⟩

/-! ## The database -/

/-- `Database`; `version_` counts batches, and is exact here as long as the log is shorter than
2^64 records. -/
structure Database (Key Value : Type) [Ord Key] [Std.TransOrd Key] where
  dir : Option String := none
  memTable : MemTable Key Value := {}
  /-- The offset of the writer `wal_`. -/
  wal : Option ℕ := none
  version : ℕ := 0

namespace Database

/-- `ApplyToMemTable`. -/
def applyToMemTable (db : Database Key Value) (batch : WriteBatch Key Value) :
    Database Key Value :=
  { db with memTable := db.memTable.applyBatch batch }

/-- One turn of the loop of `ReplayWAL`. -/
def replayRecord (db : Database Key Value) (record : L.Record) : Outcome (Database Key Value) := do
  let batch ← readRecord L record
  let db := db.applyToMemTable batch
  return { db with version := db.version + 1 }

/-- `ReplayWAL`. -/
def replayWAL (db : Database Key Value) (file : Option L.File) :
    Outcome (Database Key Value × ℕ) := do
  let db := { db with memTable := db.memTable.clear }
  match file with
  | none => return (db, 0)
  | some file =>
    let db := { db with version := 0 }
    let db ← (L.records file).foldlM (replayRecord L) db
    return (db, L.offsetForWriter file)

/-- `Open`, up to `PrepareSSTable`. -/
def openDir (db : Database Key Value) (directory : String) (file : Option L.File) :
    Outcome (Database Key Value × L.File) := do
  let db := { db with dir := some directory }
  let (db, offset) ← db.replayWAL L file
  return ({ db with wal := some offset }, L.openWriter file offset)

/-- `EnsureOpened`. -/
def ensureOpened (db : Database Key Value) : Outcome Unit :=
  verify db.dir.isSome "Open database first"

/-- `wal_->Append(batch)` in `DoWrite`. -/
def appendToWAL (db : Database Key Value) (file : L.File) (batch : WriteBatch Key Value) :
    Outcome (Database Key Value × L.File) :=
  match db.wal with
  | none => .error .undefined
  | some offset =>
    let (file, offset) := L.append file offset (walRecord L batch)
    .ok ({ db with wal := some offset }, file)

/-- The rest of `DoWrite`. -/
def finishWrite (db : Database Key Value) (batch : WriteBatch Key Value) : Database Key Value :=
  let db := db.applyToMemTable batch
  { db with version := db.version + 1 }

/-- `MakeSnapshot`. -/
def makeSnapshot (db : Database Key Value) : Outcome (Snapshot Key Value) := do
  db.ensureOpened
  return ⟨db.memTable.entries, db.version⟩

end Database

end Whirl.Db
