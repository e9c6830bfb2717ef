/-
# The cluster of the key-value example

The nodes of `examples/kv/node/main.cpp`: on each a `Coordinator` and a `Replica`.  A fiber of
`Set` or `Get` broadcasts a call of `LocalWrite` or `LocalRead` and awaits the replies of a
majority.

The network may lose, delay and repeat what it carries, and a call is made at least once.  So a
peer may execute a call any number of times after it was made, also when its caller has crashed,
and a reply may arrive any number of times or never.  An `Operation` is a fiber of a coordinator;
its number names the calls that it makes.

`begunAt` and `after` record when an operation began and which ones had returned by then; the
program does not read them.
-/
import WhirlMatrix.Clocks.Wall
import WhirlMatrix.Kv.Replica

namespace Whirl.Kv

open Db LastWriter Clocks

/-! ## Operations -/

/-- The call that a coordinator broadcasts. -/
inductive Broadcast (Key Value : Type) where
  /-- `Set`, with the stamped value. -/
  | set (key : Key) (targetValue : StampedValue Value)
  | get (key : Key)
  deriving DecidableEq, Repr

/-- How far a fiber is. -/
inductive Progress (Value : Type) where
  | awaiting
  /-- `Set` returns nothing, and `Get` a value. -/
  | returned (value : Option Value)
  /-- The node has crashed. -/
  | interrupted
  deriving DecidableEq, Repr

/-- A fiber of `Set` or `Get`. -/
structure Operation (n : ℕ) (Key Value : Type) where
  coordinator : Fin n
  call : Broadcast Key Value
  /-- What the quorum future has collected. -/
  replies : List (Fin n × Reply ℕ Key Value) := []
  progress : Progress Value := .awaiting
  begunAt : ℕ
  after : List ℕ

/-- `Majority`. -/
def majority (n : ℕ) : ℕ := n / 2 + 1

/-- `FindMostRecent`. -/
def findMostRecent {Value : Type} (values : List (StampedValue Value)) : Outcome (StampedValue Value) :=
  match freshest StampedValue.stamp values with
  | some v => .ok v
  | none => .error .undefined

/-- The value of a reply to `LocalRead`. -/
def Reply.value? {Rpc Key Value : Type} : Reply Rpc Key Value → Option (StampedValue Value)
  | wrote _ => none
  | read _ value => some value

/-- The call that a reply answers. -/
def Reply.rpc {Rpc Key Value : Type} : Reply Rpc Key Value → Rpc
  | wrote call => call.rpc
  | read call _ => call.rpc

/-- How a replica gets a call. -/
def Broadcast.action {Key Value : Type} (id : ℕ) (cacheMiss : Bool) :
    Broadcast Key Value → ReplicaAction ℕ Key Value
  | set key targetValue => .localWrite ⟨id, key, targetValue⟩
  | get key => .localRead ⟨id, key⟩ cacheMiss

namespace Operation

variable {n : ℕ} {Key Value : Type}

/-- The peers that have replied. -/
def peers (op : Operation n Key Value) : List (Fin n) := op.replies.map Prod.fst

/-- The values in the read quorum. -/
def values (op : Operation n Key Value) : List (StampedValue Value) :=
  op.replies.filterMap fun reply => reply.2.value?

/-- What `Set` and `Get` return when the quorum is there. -/
def result (op : Operation n Key Value) : Outcome (Option Value) :=
  match op.call with
  | .set _ _ => .ok none
  | .get _ => do
    let mostRecent ← findMostRecent op.values
    return some mostRecent.value

/-- A reply arrives: the future of its peer is fulfilled unless it is already. -/
def receive (op : Operation n Key Value) (peer : Fin n) (reply : Reply ℕ Key Value) :
    Operation n Key Value :=
  match op.progress with
  | .awaiting =>
    if peer ∈ op.peers ∨ majority n ≤ op.replies.length then op
    else { op with replies := op.replies ++ [(peer, reply)] }
  | _ => op

/-- The fiber goes on when the quorum is there. -/
def complete (op : Operation n Key Value) : Outcome (Operation n Key Value) :=
  match op.progress with
  | .awaiting =>
    if op.replies.length = majority n then do
      let value ← op.result
      return { op with progress := .returned value }
    else
      .error .undefined
  | _ => .error .undefined

/-- The node of a coordinator crashes, and its fibers are gone. -/
def crash (op : Operation n Key Value) (server : Fin n) : Operation n Key Value :=
  match op.progress with
  | .awaiting => if op.coordinator = server then { op with progress := .interrupted } else op
  | _ => op

/-- `Set` or `Get` has returned. -/
def Returned (op : Operation n Key Value) : Prop :=
  match op.progress with
  | .returned _ => True
  | _ => False

instance (op : Operation n Key Value) : Decidable op.Returned := by
  unfold Returned
  cases op.progress with
  | returned value => exact isTrue trivial
  | _ => exact isFalse id

end Operation

/-! ## Clusters -/

/-- The nodes, the clocks of their servers, and the messages between them. -/
structure Cluster {DbKey DbValue : Type} [Ord DbKey] [Std.TransOrd DbKey]
    (L : Libraries DbKey DbValue) (n : ℕ) (Key Value : Type) where
  globalNow : ℕ
  wallClocks : Fin n → WallClock
  replicas : Fin n → Replica L ℕ Key Value := fun _ => {}
  operations : List (Operation n Key Value) := []
  /-- The replies that were sent, each with its sender. -/
  replies : List (Fin n × Reply ℕ Key Value) := []

/-- What happens in a cluster. -/
inductive ClusterAction (n : ℕ) (Key Value : Type) where
  | set (coordinator : Fin n) (key : Key) (value : Value)
  | get (coordinator : Fin n) (key : Key)
  /-- The call of an operation reaches a peer. -/
  | request (peer : Fin n) (id : ℕ) (cacheMiss : Bool)
  /-- A fiber of a replica goes on, or its node starts. -/
  | replica (peer : Fin n) (action : ReplicaAction ℕ Key Value)
  /-- A reply reaches its caller. -/
  | reply (index : ℕ)
  | complete (id : ℕ)
  | crash (server : Fin n) (written : ℕ)
  | adjustWallClock (server : Fin n) (offset : ℕ)
  /-- World time goes on. -/
  | pass (time : ℕ)

/-- Whether an action is one of the replica alone. -/
def ReplicaAction.isInternal {Rpc Key Value : Type} : ReplicaAction Rpc Key Value → Bool
  | localWrite _ => false
  | localRead _ _ => false
  | crash _ => false
  | _ => true

namespace Cluster

variable {DbKey DbValue Key Value : Type} [Ord DbKey] [Std.TransOrd DbKey]
  {L : Libraries DbKey DbValue} {n : ℕ} (store : KVStore Key Value DbKey DbValue)

/-- The operations that have returned. -/
def returned (c : Cluster L n Key Value) : List ℕ :=
  (List.range c.operations.length).filter fun id =>
    match c.operations[id]? with
    | some op => decide op.Returned
    | none => false

/-- A fiber begins. -/
def begin (c : Cluster L n Key Value) (coordinator : Fin n) (call : Broadcast Key Value) :
    Outcome (Cluster L n Key Value) :=
  match (c.replicas coordinator).node.phase with
  | .up => .ok { c with operations := c.operations ++ [{
      coordinator := coordinator
      call := call
      begunAt := c.globalNow
      after := c.returned }] }
  | _ => .error .undefined

/-- `ChooseWriteTimestamp`. -/
def chooseWriteTimestamp (c : Cluster L n Key Value) (coordinator : Fin n) : WriteTimestamp :=
  ⟨(c.wallClocks coordinator).now c.globalNow⟩

/-- A replica takes an action, and its replies are sent. -/
def serve [Inhabited Value] (c : Cluster L n Key Value) (peer : Fin n)
    (action : ReplicaAction ℕ Key Value) : Outcome (Cluster L n Key Value) := do
  let (r, replies) ← (c.replicas peer).execute store action
  return { c with
    replicas := Function.update c.replicas peer r
    replies := c.replies ++ replies.map fun reply => (peer, reply) }

/-- One action.  An action that the cluster cannot take fails. -/
def execute [Inhabited Value] (c : Cluster L n Key Value) :
    ClusterAction n Key Value → Outcome (Cluster L n Key Value)
  | .set coordinator key value =>
    c.begin coordinator (.set key ⟨value, c.chooseWriteTimestamp coordinator⟩)
  | .get coordinator key => c.begin coordinator (.get key)
  | .request peer id cacheMiss =>
    match c.operations[id]? with
    | some op => c.serve store peer (op.call.action id cacheMiss)
    | none => .error .undefined
  | .replica peer action =>
    if action.isInternal then c.serve store peer action else .error .undefined
  | .reply index =>
    match c.replies[index]? with
    | some (peer, reply) =>
      .ok { c with operations := c.operations.modify reply.rpc fun op => op.receive peer reply }
    | none => .error .undefined
  | .complete id =>
    match c.operations[id]? with
    | some op => do
      let op ← op.complete
      return { c with operations := c.operations.set id op }
    | none => .error .undefined
  | .crash server written => do
    let c ← c.serve store server (.crash written)
    return { c with operations := c.operations.map fun op => op.crash server }
  | .adjustWallClock server offset =>
    .ok { c with
      wallClocks := Function.update c.wallClocks server ((c.wallClocks server).adjustOffset offset) }
  | .pass time => .ok { c with globalNow := c.globalNow + time }

end Cluster

end Whirl.Kv
