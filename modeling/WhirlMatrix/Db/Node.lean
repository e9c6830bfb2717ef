/-
# A node with a database

What the fibers of a node do with its database, cut at the places where a fiber blocks:
at the mutex of the writers, in `Append` to the log, and in the access to the SSTable
that a cache miss costs.  A crash can come between any two of these pieces, and then the
next incarnation opens the database again.

`reads`, `snapshots`, `returned` and `incarnations` record what the calls returned; the
program of the node does not read them.
-/
import WhirlMatrix.Db.Database

namespace Whirl.Db

variable {Key Value : Type} [Ord Key] [Std.TransOrd Key]

/-! ## States -/

/-- How far a node is. -/
inductive Phase where
  /-- Crashed, or not started yet. -/
  | down
  /-- In `Open`, before the log is read. -/
  | opening
  /-- In `PrepareSSTable`. -/
  | preparing
  /-- `Open` has returned. -/
  | up
  deriving DecidableEq, Repr

/-- The fiber that holds `write_mutex_`. -/
inductive Writer (Key Value : Type) where
  /-- Blocked in `Append`. -/
  | appending (batch : WriteBatch Key Value)
  /-- The record is on disk, and the fiber goes on next. -/
  | appended (batch : WriteBatch Key Value)
  deriving DecidableEq, Repr

/-- The batch that a writer writes. -/
def Writer.batch : Writer Key Value → WriteBatch Key Value
  | appending batch => batch
  | appended batch => batch

/-- What `TryGet` returned, and `version_` at that point. -/
structure Read (Key Value : Type) where
  key : Key
  value : Option Value
  version : ℕ
  deriving DecidableEq, Repr

/-- What is left of an incarnation: the batches whose `Write` returned, in this order,
and those whose `Write` was interrupted. -/
structure Incarnation (Key Value : Type) where
  returned : List (WriteBatch Key Value)
  interrupted : List (WriteBatch Key Value)
  deriving DecidableEq, Repr

/-- A node, with the log file in the directory of its database. -/
structure Node (L : Libraries Key Value) where
  file : Option L.File := none
  phase : Phase := .down
  db : Database Key Value := {}
  /-- `write_mutex_`, which excludes all fibers but one. -/
  writeMutex : Option (Writer Key Value) := none
  /-- The fibers that wait for the mutex. -/
  waiting : List (WriteBatch Key Value) := []
  /-- The fibers in `AccessSSTable`. -/
  reading : List Key := []
  reads : List (Read Key Value) := []
  snapshots : List (Snapshot Key Value) := []
  returned : List (WriteBatch Key Value) := []
  incarnations : List (Incarnation Key Value) := []

/-- What happens in a node. -/
inductive Action (Key Value : Type) where
  /-- The node starts, and its program constructs and opens the database. -/
  | start
  /-- The log is read and opened for writing. -/
  | replay (directory : String)
  /-- `Open` returns. -/
  | opened
  | write (batch : WriteBatch Key Value)
  | put (key : Key) (value : Value)
  | delete (key : Key)
  /-- A waiting fiber gets the mutex and goes on until it blocks in `Append`. -/
  | lock (index : ℕ)
  /-- The record of the writer is on disk. -/
  | append
  /-- `Append` returns, and the writer goes on until its `Write` returns. -/
  | finish
  /-- `TryGet`, with or without a cache miss. -/
  | tryGet (key : Key) (cacheMiss : Bool)
  /-- A fiber has accessed the SSTable, and its `TryGet` returns. -/
  | accessed (index : ℕ)
  | makeSnapshot
  /-- A crash, when so many bytes of the record that is being appended were written. -/
  | crash (written : ℕ)

/-- Whether an action is a part of a call that is made after `Open` has returned. -/
def Action.isCall : Action Key Value → Bool
  | start => false
  | replay _ => false
  | opened => false
  | crash _ => false
  | _ => true

/-! ## Steps -/

namespace Node

variable {L : Libraries Key Value}

/-- `DoWrite`, up to the mutex. -/
def doWrite (node : Node L) (batch : WriteBatch Key Value) : Outcome (Node L) := do
  node.db.ensureOpened
  return { node with waiting := node.waiting ++ [batch] }

/-- A fiber continues after `AccessSSTable`, or without it. -/
def readTable (node : Node L) (key : Key) : Node L :=
  { node with reads := node.reads ++ [⟨key, node.db.memTable.tryGet key, node.db.version⟩] }

/-- The log file that a crash leaves. -/
def fileAfterCrash (node : Node L) (written : ℕ) : Option L.File :=
  match node.file, node.db.wal, node.writeMutex with
  | some file, some offset, some (.appending batch) =>
    some (L.interrupted file offset (walRecord L batch) written)
  | file, _, _ => file

/-- One action of a node that is up. -/
def call (node : Node L) : Action Key Value → Outcome (Node L)
  | .write batch => node.doWrite batch
  | .put key value => node.doWrite ⟨[.put key value]⟩
  | .delete key => node.doWrite ⟨[.delete key]⟩
  | .lock index =>
    match node.writeMutex, node.waiting[index]? with
    | none, some batch => .ok { node with
        writeMutex := some (.appending batch)
        waiting := node.waiting.eraseIdx index }
    | _, _ => .error .undefined
  | .append =>
    match node.file, node.writeMutex with
    | some file, some (.appending batch) => do
      let (db, file) ← node.db.appendToWAL L file batch
      return { node with
        file := some file
        db := db
        writeMutex := some (.appended batch) }
    | _, _ => .error .undefined
  | .finish =>
    match node.writeMutex with
    | some (.appended batch) => .ok { node with
        db := node.db.finishWrite batch
        writeMutex := none
        returned := node.returned ++ [batch] }
    | _ => .error .undefined
  | .tryGet key cacheMiss => do
    node.db.ensureOpened
    if cacheMiss then
      return { node with reading := node.reading ++ [key] }
    else
      return node.readTable key
  | .accessed index =>
    match node.reading[index]? with
    | some key => .ok { node.readTable key with reading := node.reading.eraseIdx index }
    | none => .error .undefined
  | .makeSnapshot => do
    let snapshot ← node.db.makeSnapshot
    return { node with snapshots := node.snapshots ++ [snapshot] }
  | _ => .error .undefined

/-- One action.  A node that is not in the right phase for an action has no such action. -/
def execute (node : Node L) (action : Action Key Value) : Outcome (Node L) :=
  match action, node.phase with
  | .start, .down => .ok { node with phase := .opening, db := {} }
  | .replay directory, .opening => do
    let (db, file) ← node.db.openDir L directory node.file
    return { node with phase := .preparing, db := db, file := some file }
  | .opened, .preparing => .ok { node with phase := .up }
  | .crash written, _ => .ok {
      file := node.fileAfterCrash written
      incarnations := node.incarnations ++ [⟨node.returned,
        node.waiting ++ (node.writeMutex.map Writer.batch).toList⟩] }
  | action, .up => node.call action
  | _, _ => .error .undefined

end Node

end Whirl.Db
