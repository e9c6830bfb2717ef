/-
# What a replica has told it does not take back

A replica tells the stamp of a key when it acknowledges a write and when it answers a read.
In a run with any calls, crashes and restarts, every later read of the key, also one in a later
incarnation, gets a value with at least this stamp.
-/
import WhirlMatrix.Library.Runs
import WhirlMatrix.Kv.Register

namespace Whirl.Kv

open Db

/-! ## Transcripts -/

namespace Reply

variable {Rpc Key Value : Type}

/-- The key that a reply is about. -/
def key : Reply Rpc Key Value → Key
  | wrote call => call.key
  | read call _ => call.key

/-- The stamp that a reply tells. -/
def stamp : Reply Rpc Key Value → ℕ
  | wrote call => call.targetValue.stamp
  | read _ value => value.stamp

/-- A read found no value. -/
def Initial [Inhabited Value] : Reply Rpc Key Value → Prop
  | wrote _ => False
  | read _ value => value = StampedValue.initial

/-- A reply acknowledges a write, or it is a read that found its value. -/
def Of (reply : Reply Rpc Key Value) (write : LocalWrite Rpc Key Value) : Prop :=
  match reply with
  | wrote call => write = call
  | read call value => write.key = call.key ∧ write.targetValue = value

end Reply

/-- What a replica received and answered. -/
inductive Event (Rpc Key Value : Type) where
  | received (call : LocalWrite Rpc Key Value)
  | replied (reply : Reply Rpc Key Value)
  deriving DecidableEq, Repr

/-- A replica and its transcript. -/
structure Watched {DbKey DbValue : Type} [Ord DbKey] [Std.TransOrd DbKey]
    (L : Libraries DbKey DbValue) (Rpc Key Value : Type) where
  replica : Replica L Rpc Key Value := {}
  transcript : List (Event Rpc Key Value) := []

/-- The write that an action brings. -/
def ReplicaAction.received {Rpc Key Value : Type} :
    ReplicaAction Rpc Key Value → List (Event Rpc Key Value)
  | localWrite call => [.received call]
  | _ => []

/-- A later read of the same key gets at least the stamp that was told. -/
def Event.NotTakenBack {Rpc Key Value : Type} (event event' : Event Rpc Key Value) : Prop :=
  ∀ reply call v, event = .replied reply → event' = .replied (.read call v) →
    reply.key = call.key → reply.stamp ≤ v.stamp

variable {DbKey DbValue Rpc Key Value : Type} [Ord DbKey] [Std.TransOrd DbKey] [Inhabited Value]
  {L : Libraries DbKey DbValue} {store : KVStore Key Value DbKey DbValue}

/-- One action, with what it adds to the transcript. -/
def Watched.execute (store : KVStore Key Value DbKey DbValue) (w : Watched L Rpc Key Value)
    (action : ReplicaAction Rpc Key Value) : Outcome (Watched L Rpc Key Value) := do
  let (replica, replies) ← w.replica.execute store action
  return ⟨replica, w.transcript ++ (action.received ++ replies.map .replied)⟩

namespace Watched

variable {w w' : Watched L Rpc Key Value} {table : Table Key Value}

/-- A transcript agrees with the table of the replica. -/
structure Told [DecidableEq Key] (store : KVStore Key Value DbKey DbValue)
    (w : Watched L Rpc Key Value) (table : Table Key Value) : Prop where
  stores : w.replica.Stores store table
  pending : ∀ call ∈ w.replica.writes, .received call ∈ w.transcript
  holds : ∀ key v, table key = some v →
    ∃ call, .received call ∈ w.transcript ∧ call.key = key ∧ call.targetValue = v
  told : ∀ reply, .replied reply ∈ w.transcript → reply.stamp ≤ (table.value reply.key).stamp
  notTakenBack : w.transcript.Pairwise Event.NotTakenBack
  sourced : ∀ (i : ℕ) (reply : Reply Rpc Key Value), w.transcript[i]? = some (.replied reply) →
    reply.Initial ∨ ∃ j < i, ∃ write : LocalWrite Rpc Key Value,
      w.transcript[j]? = some (.received write) ∧ reply.Of write

variable [DecidableEq Key]

omit [Inhabited Value] [DecidableEq Key] in
/-- A new read of the transcript. -/
theorem mem_events_iff {action : ReplicaAction Rpc Key Value} {replies : List (Reply Rpc Key Value)}
    {reply : Reply Rpc Key Value} :
    .replied reply ∈ action.received ++ replies.map Event.replied ↔ reply ∈ replies := by
  have hreceived : .replied reply ∉ action.received := by
    cases action with
    | localWrite call => simp [ReplicaAction.received]
    | _ => exact List.not_mem_nil
  rw [List.mem_append, or_iff_right hreceived, List.mem_map]
  constructor
  · rintro ⟨reply', hreply, heq⟩
    obtain rfl := Event.replied.inj heq
    exact hreply
  · intro hreply
    exact ⟨reply, hreply, rfl⟩

variable [Std.LawfulEqOrd DbKey]

/-- One action keeps the transcript and the table in agreement. -/
theorem Told.execute (hL : L.Spec) (hstore : store.Spec) (h : w.Told store table)
    {action : ReplicaAction Rpc Key Value} (hexecute : w.execute store action = .ok w') :
    ∃ table', w'.Told store table' := by
  obtain ⟨⟨replica, replies⟩, hreplica, hexecute⟩ := Outcome.bind_eq_ok.mp hexecute
  obtain rfl := Outcome.pure_eq_ok.mp hexecute
  obtain ⟨table', hserves⟩ := h.stores.execute hL hstore hreplica
  -- What was said before stays true: the stamps of a table only rise.
  have htold : ∀ reply, .replied reply ∈ w.transcript →
      reply.stamp ≤ (table'.value reply.key).stamp := fun reply hreply =>
    (h.told reply hreply).trans (Table.stamp_value_le (hserves.raises.rank_le reply.key))
  have hreply : ∀ reply ∈ replies, reply.stamp ≤ (table'.value reply.key).stamp := by
    intro reply hreply
    cases reply with
    | wrote call => exact Table.stamp_le_value (hserves.wrote call hreply).2
    | read call v =>
      obtain ⟨rfl, -⟩ := hserves.read call v hreply
      exact le_refl _
  have hholds : ∀ key v, table' key = some v →
      ∃ call, .received call ∈ w.transcript ∧ call.key = key ∧ call.targetValue = v := by
    intro key v hv
    rcases hserves.raises.eq_or_mem hv with hv | ⟨call, hcall, hkey, hvalue⟩
    · exact h.holds key v hv
    · exact ⟨call, h.pending call hcall, hkey, hvalue⟩
  have hsourced : ∀ reply ∈ replies, reply.Initial ∨
      ∃ write, .received write ∈ w.transcript ∧ reply.Of write := by
    intro reply hreply
    cases reply with
    | wrote call => exact Or.inr ⟨call, h.pending call (hserves.wrote call hreply).1, rfl⟩
    | read call v =>
      obtain ⟨rfl, -⟩ := hserves.read call v hreply
      rw [Table.value]
      cases hvalue : table' call.key with
      | none => exact Or.inl rfl
      | some v =>
        obtain ⟨write, hwrite, hkey, hv⟩ := hholds call.key v hvalue
        exact Or.inr ⟨write, hwrite, hkey, hv⟩
  refine ⟨table', hserves.stores, fun call hcall => ?_, fun key v hv => ?_, fun reply hmem => ?_,
    ?_, fun i reply hi => ?_⟩
  · rcases hserves.writes call hcall with hcall | rfl
    · exact List.mem_append_left _ (h.pending call hcall)
    · exact List.mem_append_right _ (List.mem_append_left _ (List.mem_singleton_self _))
  · obtain ⟨call, hcall, hkey⟩ := hholds key v hv
    exact ⟨call, List.mem_append_left _ hcall, hkey⟩
  · rcases List.mem_append.mp hmem with hmem | hmem
    · exact htold reply hmem
    · exact hreply reply (mem_events_iff.mp hmem)
  · have hread (reply : Reply Rpc Key Value) (hstamp : reply.stamp ≤ (table'.value reply.key).stamp)
        (event' : Event Rpc Key Value) (hevent' : event' ∈ action.received ++ replies.map .replied)
        (call : LocalRead Rpc Key) (v : StampedValue Value)
        (heq : event' = .replied (.read call v)) (hkey : reply.key = call.key) :
        reply.stamp ≤ v.stamp := by
      subst heq
      obtain ⟨rfl, -⟩ := hserves.read call v (mem_events_iff.mp hevent')
      rw [← hkey]
      exact hstamp
    -- Two replies of this step, or one of an earlier step and one of this.
    refine List.pairwise_append.mpr ⟨h.notTakenBack, ?_, ?_⟩
    · refine List.pairwise_of_forall_mem_list fun event hevent event' hevent' reply call v heq => ?_
      subst heq
      exact hread reply (hreply reply (mem_events_iff.mp hevent)) event' hevent' call v
    · intro event hevent event' hevent' reply call v heq
      subst heq
      exact hread reply (htold reply hevent) event' hevent' call v
  · dsimp only at hi ⊢
    -- A reply of an earlier step keeps its source; one of this step finds it in the table.
    by_cases hlt : i < w.transcript.length
    · rw [List.getElem?_append_left hlt] at hi
      refine (h.sourced i reply hi).imp_right ?_
      rintro ⟨j, hj, write, hwrite, hof⟩
      exact ⟨j, hj, write, (List.getElem?_append_left (hj.trans hlt)).trans hwrite, hof⟩
    · rw [List.getElem?_append_right (not_lt.mp hlt)] at hi
      refine (hsourced reply (mem_events_iff.mp (List.mem_of_getElem? hi))).imp_right ?_
      rintro ⟨write, hwrite, hof⟩
      obtain ⟨j, hj⟩ := List.getElem?_of_mem hwrite
      have hj' : j < w.transcript.length := (List.getElem?_eq_some_iff.mp hj).1
      exact ⟨j, hj'.trans_le (not_lt.mp hlt), write, (List.getElem?_append_left hj').trans hj, hof⟩

omit [Std.LawfulEqOrd DbKey] in
/-- A replica without a log. -/
theorem told_init : Told store ({} : Watched L Rpc Key Value) fun _ => none where
  stores := ⟨⟨[], Logged.nil, ⟨rfl, rfl, rfl, rfl⟩, rfl⟩, ⟨rfl, rfl⟩, fun _ => ⟨rfl, rfl, rfl⟩⟩
  pending := nofun
  holds := nofun
  told := nofun
  notTakenBack := List.Pairwise.nil
  sourced := nofun

/-- **A replica is a durable register.**  In any run of a replica whose log is empty at first,
with any calls, crashes and restarts, a stamp that was told is not taken back, and what a write
that is acknowledged or a value that is read comes from was received before.  The initial value
comes from nowhere; its stamp is 0, so it is read only as long as no larger stamp was told. -/
theorem durable_of_reaches (hL : L.Spec) (hstore : store.Spec)
    (hrun : Runs.Reaches (execute store) (fun _ _ => True) ({} : Watched L Rpc Key Value) w) :
    w.transcript.Pairwise Event.NotTakenBack ∧
      ∀ (i : ℕ) (reply : Reply Rpc Key Value), w.transcript[i]? = some (.replied reply) →
        reply.Initial ∨ ∃ j < i, ∃ write : LocalWrite Rpc Key Value,
          w.transcript[j]? = some (.received write) ∧ reply.Of write := by
  have htold : ∃ table, w.Told store table := by
    refine hrun.invariant (I := fun w => ∃ table, w.Told store table) ⟨_, told_init⟩ ?_
    rintro w action w' ⟨table, htold⟩ - hexecute
    exact htold.execute hL hstore hexecute
  obtain ⟨table, htold⟩ := htold
  exact ⟨htold.notTakenBack, htold.sourced⟩

end Watched

/-! ## A short run -/

/-- Keys and values that the records of `recordLog` can hold. -/
def recordStore : KVStore ℕ Bool ℕ ℕ where
  dbKey key := key + 1
  serialize v := 2 * v.timestamp.value + v.value.toNat
  deserialize n := .ok ⟨n % 2 == 1, ⟨n / 2⟩⟩

theorem spec_recordStore : recordStore.Spec where
  dbKey_inj key key' h := Nat.succ.inj h
  deserialize v := by
    obtain ⟨value, ⟨timestamp⟩⟩ := v
    cases value with
    | false =>
      simp [recordStore]
    | true =>
      simp [recordStore]
      omega

/-- A write is acknowledged, the node crashes, and then the key is read. -/
def durableRun : List (ReplicaAction ℕ ℕ Bool) :=
  [.start, .replay "db", .opened, .localWrite ⟨0, 7, ⟨true, ⟨5⟩⟩⟩, .lock 0 true, .lookedUp,
    .lockDatabase, .append, .finish, .crash 0, .start, .replay "db", .opened,
    .localRead ⟨1, 7⟩ false]

/-- The replica after this. -/
def durableReplica : Watched recordLog ℕ ℕ Bool :=
  (Runs.exec (Watched.execute recordStore) (fun _ _ => True) {} durableRun).getD {}

/-- **An example of a durable register.** -/
theorem durable_of_reaches_durableReplica :
    durableReplica.transcript = [.received ⟨0, 7, ⟨true, ⟨5⟩⟩⟩, .replied (.wrote ⟨0, 7, ⟨true, ⟨5⟩⟩⟩),
        .replied (.read ⟨1, 7⟩ ⟨true, ⟨5⟩⟩)] ∧
      durableReplica.transcript.Pairwise Event.NotTakenBack := by
  have hrun : Runs.exec (Watched.execute recordStore) (fun _ _ => True) {} durableRun
      = some durableReplica := rfl
  exact ⟨rfl, (Watched.durable_of_reaches spec_recordLog spec_recordStore
    (Runs.reaches_of_exec hrun)).1⟩

end Whirl.Kv
