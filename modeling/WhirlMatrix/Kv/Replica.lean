/-
# A storage replica

`Replica` of the example `examples/kv/node/main.cpp`: the fibers of its RPC handlers
`LocalWrite` and `LocalRead`, cut at the places where a fiber blocks: at `write_mutex_`, in
the access to the SSTable that a cache miss costs, and in `Put`.  They use the database of
their node, so a crash leaves the log of the database and nothing else.

The library `node::store::KVStore`, which keeps stamped values in the database, is a
parameter.  Calls carry a name of type `Rpc`, by which their replies are told apart.
-/
import WhirlMatrix.Db.Recovery
import WhirlMatrix.Library.LastWriter

namespace Whirl.Kv

open Db LastWriter

/-! ## Stamped values -/

/-- `WriteTimestamp`. -/
structure WriteTimestamp where
  value : ℕ
  deriving DecidableEq, Repr

instance : LT WriteTimestamp := ⟨fun a b => a.value < b.value⟩

instance : DecidableLT WriteTimestamp := fun a b => inferInstanceAs (Decidable (a.value < b.value))

/-- `WriteTimestamp::Min`. -/
def WriteTimestamp.min : WriteTimestamp := ⟨0⟩

/-- `StampedValue`. -/
structure StampedValue (Value : Type) where
  value : Value
  timestamp : WriteTimestamp
  deriving DecidableEq, Repr

/-- What `LocalRead` returns for a key without a value: the empty string. -/
def StampedValue.initial {Value : Type} [Inhabited Value] : StampedValue Value :=
  ⟨default, WriteTimestamp.min⟩

/-- The stamp of a value. -/
def StampedValue.stamp {Value : Type} (v : StampedValue Value) : ℕ := v.timestamp.value

/-- A table of stamped values. -/
abbrev Table (Key Value : Type) := Key → Option (StampedValue Value)

/-- `node::store::KVStore<StampedValue>` with its namespace. -/
structure KVStore (Key Value DbKey DbValue : Type) where
  dbKey : Key → DbKey
  serialize : StampedValue Value → DbValue
  deserialize : DbValue → Outcome (StampedValue Value)

namespace KVStore

variable {Key Value DbKey DbValue : Type} [Ord DbKey] [Std.TransOrd DbKey]

/-- What the replica relies on. -/
structure Spec (store : KVStore Key Value DbKey DbValue) : Prop where
  dbKey_inj : ∀ key key', store.dbKey key = store.dbKey key' → key = key'
  deserialize : ∀ v, store.deserialize (store.serialize v) = .ok v

variable (store : KVStore Key Value DbKey DbValue)

/-- `TryGet`, after the access to the SSTable. -/
def tryGet (table : MemTable DbKey DbValue) (key : Key) : Outcome (Option (StampedValue Value)) :=
  match table.tryGet (store.dbKey key) with
  | none => .ok none
  | some bytes => do
    let v ← store.deserialize bytes
    return some v

/-- `GetOr`. -/
def getOr (table : MemTable DbKey DbValue) (key : Key) (v : StampedValue Value) :
    Outcome (StampedValue Value) := do
  let found ← store.tryGet table key
  return found.getD v

/-- The action of the database that `Put` begins. -/
def put (key : Key) (v : StampedValue Value) : Db.Action DbKey DbValue :=
  .put (store.dbKey key) (store.serialize v)

/-- The batch that this action writes. -/
def batch (key : Key) (v : StampedValue Value) : WriteBatch DbKey DbValue :=
  ⟨[.put (store.dbKey key) (store.serialize v)]⟩

end KVStore

/-! ## The replica -/

/-- A call of `LocalWrite`. -/
structure LocalWrite (Rpc Key Value : Type) where
  rpc : Rpc
  key : Key
  targetValue : StampedValue Value
  deriving DecidableEq, Repr

/-- A call of `LocalRead`. -/
structure LocalRead (Rpc Key : Type) where
  rpc : Rpc
  key : Key
  deriving DecidableEq, Repr

/-- How far the fiber is that holds `write_mutex_`. -/
inductive WritePhase where
  /-- In `TryGet`. -/
  | lookingUp
  /-- In `Put`. -/
  | updating
  deriving DecidableEq, Repr

/-- What a handler returned. -/
inductive Reply (Rpc Key Value : Type) where
  | wrote (call : LocalWrite Rpc Key Value)
  | read (call : LocalRead Rpc Key) (value : StampedValue Value)
  deriving DecidableEq, Repr

/-- `Replica`, with its node. -/
structure Replica {DbKey DbValue : Type} [Ord DbKey] [Std.TransOrd DbKey]
    (L : Libraries DbKey DbValue) (Rpc Key Value : Type) where
  node : Node L := {}
  /-- `write_mutex_`. -/
  writeMutex : Option (LocalWrite Rpc Key Value × WritePhase) := none
  /-- The fibers of `LocalWrite` that wait for the mutex. -/
  waiting : List (LocalWrite Rpc Key Value) := []
  /-- The fibers of `LocalRead` in the access to the SSTable. -/
  reading : List (LocalRead Rpc Key) := []

/-- What happens in a replica. -/
inductive ReplicaAction (Rpc Key Value : Type) where
  /-- The node starts. -/
  | start
  /-- Its program opens the database. -/
  | replay (directory : String)
  /-- The database is open, and the RPC server starts. -/
  | opened
  | localWrite (call : LocalWrite Rpc Key Value)
  /-- A waiting fiber gets the mutex and calls `TryGet`, with or without a cache miss. -/
  | lock (index : ℕ) (cacheMiss : Bool)
  /-- The fiber that holds the mutex has accessed the SSTable. -/
  | lookedUp
  /-- The fiber that holds the mutex gets the mutex of the database. -/
  | lockDatabase
  /-- The record of the database is on disk. -/
  | append
  /-- `Put` returns. -/
  | finish
  | localRead (call : LocalRead Rpc Key) (cacheMiss : Bool)
  /-- A fiber of `LocalRead` has accessed the SSTable. -/
  | accessed (index : ℕ)
  | crash (written : ℕ)
  deriving DecidableEq, Repr

namespace Replica

section

variable {DbKey DbValue Rpc Key Value : Type} [Ord DbKey] [Std.TransOrd DbKey]
  {L : Libraries DbKey DbValue} (store : KVStore Key Value DbKey DbValue)

/-- `Update`, up to the mutex of the database. -/
def update (r : Replica L Rpc Key Value) (call : LocalWrite Rpc Key Value) :
    Outcome (Replica L Rpc Key Value × List (Reply Rpc Key Value)) := do
  let node ← r.node.execute (store.put call.key call.targetValue)
  return ({ r with node := node, writeMutex := some (call, .updating) }, [])

/-- `LocalWrite` from the end of `TryGet` on. -/
def compare (r : Replica L Rpc Key Value) (call : LocalWrite Rpc Key Value) :
    Outcome (Replica L Rpc Key Value × List (Reply Rpc Key Value)) := do
  let localValue ← store.tryGet r.node.db.memTable call.key
  match localValue with
  | none => r.update store call
  | some localValue =>
    if localValue.timestamp < call.targetValue.timestamp then
      r.update store call
    else
      return ({ r with writeMutex := none }, [.wrote call])

/-- `LocalRead` after the access to the SSTable, or without it. -/
def readValue [Inhabited Value] (r : Replica L Rpc Key Value) (call : LocalRead Rpc Key) :
    Outcome (List (Reply Rpc Key Value)) := do
  let value ← store.getOr r.node.db.memTable call.key StampedValue.initial
  return [.read call value]

/-- The node takes a step while a fiber is in `Put`. -/
def stepDatabase (r : Replica L Rpc Key Value) (action : Db.Action DbKey DbValue) :
    Outcome (LocalWrite Rpc Key Value × Replica L Rpc Key Value) :=
  match r.writeMutex with
  | some (call, .updating) => do
    let node ← r.node.execute action
    return (call, { r with node := node })
  | _ => .error .undefined

/-- The node starts or opens its database. -/
def boot (r : Replica L Rpc Key Value) (action : Db.Action DbKey DbValue) :
    Outcome (Replica L Rpc Key Value × List (Reply Rpc Key Value)) := do
  let node ← r.node.execute action
  return ({ r with node := node }, [])

/-- One action.  An action that the replica cannot take fails. -/
def execute [Inhabited Value] (r : Replica L Rpc Key Value) :
    ReplicaAction Rpc Key Value → Outcome (Replica L Rpc Key Value × List (Reply Rpc Key Value))
  | .start => r.boot .start
  | .replay directory => r.boot (.replay directory)
  | .opened => r.boot .opened
  | .localWrite call =>
    match r.node.phase with
    | .up => .ok ({ r with waiting := r.waiting ++ [call] }, [])
    | _ => .error .undefined
  | .lock index cacheMiss =>
    match r.writeMutex, r.waiting[index]? with
    | none, some call =>
      let r := { r with
        writeMutex := some (call, .lookingUp)
        waiting := r.waiting.eraseIdx index }
      if cacheMiss then .ok (r, []) else r.compare store call
    | _, _ => .error .undefined
  | .lookedUp =>
    match r.writeMutex with
    | some (call, .lookingUp) => r.compare store call
    | _ => .error .undefined
  | .lockDatabase => do
    let (_, r) ← r.stepDatabase (.lock 0)
    return (r, [])
  | .append => do
    let (_, r) ← r.stepDatabase .append
    return (r, [])
  | .finish => do
    let (call, r) ← r.stepDatabase .finish
    return ({ r with writeMutex := none }, [.wrote call])
  | .localRead call cacheMiss =>
    match r.node.phase with
    | .up =>
      if cacheMiss then
        .ok ({ r with reading := r.reading ++ [call] }, [])
      else do
        let replies ← r.readValue store call
        return (r, replies)
    | _ => .error .undefined
  | .accessed index =>
    match r.reading[index]? with
    | some call => do
      let replies ← r.readValue store call
      return ({ r with reading := r.reading.eraseIdx index }, replies)
    | none => .error .undefined
  | .crash written => do
    let node ← r.node.execute (.crash written)
    return ({ node := node }, [])

/-- The calls of `LocalWrite` that have not returned. -/
def writes (r : Replica L Rpc Key Value) : List (LocalWrite Rpc Key Value) :=
  (r.writeMutex.map Prod.fst).toList ++ r.waiting

end

end Replica

end Whirl.Kv
