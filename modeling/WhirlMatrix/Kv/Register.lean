/-
# A replica is a register that the last writer wins

What a replica stores is a table: for each key the value with the largest timestamp of the
calls of `LocalWrite` that it has served.  Between two incarnations the table is the one that
the log of the database holds.  The mutex of the writers keeps it as it is between `TryGet`
and `Put`, so every record of the log raises the stamp of its key, and neither a crash nor a
reboot takes an acknowledged value back.
-/
import WhirlMatrix.Kv.Replica
import WhirlMatrix.Db.Logs

namespace Whirl.Kv

open Db LastWriter

variable {DbKey DbValue Rpc Key Value : Type} [Ord DbKey] [Std.TransOrd DbKey]
  {L : Libraries DbKey DbValue} {store : KVStore Key Value DbKey DbValue}
  {batches : List (WriteBatch DbKey DbValue)}

/-! ## Values and stamps -/

section

variable [Inhabited Value] {table table' : Table Key Value} {key : Key}

/-- What `LocalRead` finds in a table. -/
def Table.value (table : Table Key Value) (key : Key) : StampedValue Value :=
  (table key).getD StampedValue.initial

theorem Table.stamp_value_le
    (h : rank StampedValue.stamp (table key) ≤ rank StampedValue.stamp (table' key)) :
    (Table.value table key).stamp ≤ (Table.value table' key).stamp := by
  unfold Table.value
  cases hvalue : table key with
  | none => exact Nat.zero_le _
  | some v =>
    cases hvalue' : table' key with
    | none =>
      rw [hvalue, hvalue'] at h
      exact absurd h (not_rank_some_le_none v)
    | some v' =>
      rw [hvalue, hvalue'] at h
      exact rank_some_le.mp h

theorem Table.stamp_le_value {v : StampedValue Value}
    (h : rank StampedValue.stamp (some v) ≤ rank StampedValue.stamp (table key)) :
    v.stamp ≤ (Table.value table key).stamp := by
  unfold Table.value
  cases hvalue : table key with
  | none =>
    rw [hvalue] at h
    exact absurd h (not_rank_some_le_none v)
  | some v =>
    rw [hvalue] at h
    exact rank_some_le.mp h

end

/-! ## Logs and tables -/

section

variable [DecidableEq Key] {table table' : Table Key Value}

/-- A log whose records raise the stamps of their keys, and the table that it makes. -/
inductive Logged (store : KVStore Key Value DbKey DbValue) :
    List (WriteBatch DbKey DbValue) → Table Key Value → Prop
  | nil : Logged store [] fun _ => none
  | snoc {batches : List (WriteBatch DbKey DbValue)} {table : Table Key Value} {key : Key}
      {v : StampedValue Value} (h : Logged store batches table)
      (hlt : rank StampedValue.stamp (table key) < rank StampedValue.stamp (some v)) :
      Logged store (batches ++ [store.batch key v]) (Function.update table key (some v))

omit [DecidableEq Key] in
theorem tryGet_put [Std.LawfulEqOrd DbKey] (memTable : MemTable DbKey DbValue)
    (dbKey dbKey' : DbKey) (value : DbValue) :
    (dbKey = dbKey' → (memTable.put dbKey value).tryGet dbKey' = some value) ∧
      (dbKey ≠ dbKey' → (memTable.put dbKey value).tryGet dbKey' = memTable.tryGet dbKey') := by
  have hinsert : (memTable.put dbKey value).tryGet dbKey'
      = if compare dbKey dbKey' = .eq then some value else memTable.tryGet dbKey' :=
    Std.ExtTreeMap.getElem?_insert
  constructor
  · intro heq
    rw [hinsert, if_pos (Std.LawfulEqOrd.compare_eq_iff_eq.mpr heq)]
  · intro hne
    rw [hinsert, if_neg (mt Std.LawfulEqOrd.compare_eq_iff_eq.mp hne)]

variable [Std.LawfulEqOrd DbKey]

/-- The database finds what the table holds. -/
theorem Logged.tryGet_applyAll (hstore : store.Spec) (h : Logged store batches table) (key : Key) :
    (applyAll batches).tryGet (store.dbKey key) = (table key).map store.serialize := by
  induction h with
  | nil => exact Std.ExtTreeMap.getElem?_empty
  | @snoc batches table key' v h hlt ih =>
    rw [applyAll_concat]
    obtain ⟨heq, hne⟩ := tryGet_put (applyAll batches) (store.dbKey key') (store.dbKey key)
      (store.serialize v)
    by_cases hkey : key = key'
    · subst hkey
      rw [Function.update_self]
      exact heq rfl
    · rw [Function.update_of_ne hkey, ← ih]
      exact hne fun hdb => hkey (hstore.dbKey_inj key' key hdb).symm

/-- So does `KVStore::TryGet`. -/
theorem Logged.tryGet (hstore : store.Spec) (h : Logged store batches table) (key : Key) :
    store.tryGet (applyAll batches) key = .ok (table key) := by
  rw [KVStore.tryGet, h.tryGet_applyAll hstore]
  cases table key with
  | none => rfl
  | some v =>
    simp only [Option.map_some]
    rw [hstore.deserialize]
    rfl

end

/-! ## The invariant -/

namespace Replica

/-- The writers of the database: nobody, or the fiber in `Put`. -/
def Writing (store : KVStore Key Value DbKey DbValue) (r : Replica L Rpc Key Value)
    (table : Table Key Value) : Prop :=
  match r.writeMutex with
  | some (call, .updating) =>
    rank StampedValue.stamp (table call.key) < rank StampedValue.stamp (some call.targetValue) ∧
      r.node.waiting ++ (r.node.writeMutex.map Writer.batch).toList
        = [store.batch call.key call.targetValue]
  | _ => r.node.waiting = [] ∧ r.node.writeMutex = none

variable [DecidableEq Key]

/-- The replica stores a table. -/
structure Stores (store : KVStore Key Value DbKey DbValue) (r : Replica L Rpc Key Value)
    (table : Table Key Value) : Prop where
  logged : ∃ batches, Logged store batches table ∧ r.node.Logs batches
  writing : r.Writing store table
  idle : r.node.phase ≠ .up → r.writeMutex = none ∧ r.waiting = [] ∧ r.reading = []

/-- What an action does to the table: nothing, or a call raises the stamp of its key. -/
def Raises (r : Replica L Rpc Key Value) (table table' : Table Key Value) : Prop :=
  table' = table ∨ ∃ call ∈ r.writes,
    rank StampedValue.stamp (table call.key) < rank StampedValue.stamp (some call.targetValue) ∧
      table' = Function.update table call.key (some call.targetValue)

/-- What an action does to a replica that stores a table. -/
structure Serves [Inhabited Value] (store : KVStore Key Value DbKey DbValue)
    (r : Replica L Rpc Key Value) (table : Table Key Value) (action : ReplicaAction Rpc Key Value)
    (r' : Replica L Rpc Key Value) (replies : List (Reply Rpc Key Value))
    (table' : Table Key Value) : Prop where
  stores : r'.Stores store table'
  raises : r.Raises table table'
  writes : ∀ call ∈ r'.writes, call ∈ r.writes ∨ action = .localWrite call
  reading : ∀ call ∈ r'.reading, call ∈ r.reading ∨ ∃ cacheMiss, action = .localRead call cacheMiss
  wrote : ∀ call, .wrote call ∈ replies → call ∈ r.writes ∧
    rank StampedValue.stamp (some call.targetValue) ≤ rank StampedValue.stamp (table' call.key)
  read : ∀ call v, .read call v ∈ replies → v = table'.value call.key ∧
    (call ∈ r.reading ∨ ∃ cacheMiss, action = .localRead call cacheMiss)

variable {r r' r'' : Replica L Rpc Key Value} {table table' : Table Key Value}

/-- The stamps of a table never fall. -/
theorem Raises.rank_le (h : r.Raises table table') (key : Key) :
    rank StampedValue.stamp (table key) ≤ rank StampedValue.stamp (table' key) := by
  rcases h with rfl | ⟨call, -, hlt, rfl⟩
  · exact le_refl _
  · by_cases hkey : key = call.key
    · subst hkey
      rw [Function.update_self]
      exact hlt.le
    · rw [Function.update_of_ne hkey]

/-- What a table holds after an action it held before, or a call wrote it. -/
theorem Raises.eq_or_mem (h : r.Raises table table') {key : Key} {v : StampedValue Value}
    (hv : table' key = some v) :
    table key = some v ∨ ∃ call ∈ r.writes, call.key = key ∧ call.targetValue = v := by
  rcases h with rfl | ⟨call, hcall, -, rfl⟩
  · exact Or.inl hv
  · by_cases hkey : key = call.key
    · subst hkey
      rw [Function.update_self] at hv
      exact Or.inr ⟨call, hcall, rfl, Option.some.inj hv⟩
    · rw [Function.update_of_ne hkey] at hv
      exact Or.inl hv

/-- A fiber of a handler has not returned, so the node is up. -/
theorem Stores.phase_of_fiber (h : r.Stores store table)
    (hfiber : r.writeMutex ≠ none ∨ r.waiting ≠ [] ∨ r.reading ≠ []) : r.node.phase = .up := by
  by_contra hphase
  obtain ⟨hmutex, hwaiting, hreading⟩ := h.idle hphase
  rcases hfiber with hne | hne | hne
  · exact hne hmutex
  · exact hne hwaiting
  · exact hne hreading

/-! ## Writes -/

/-- `Update` blocks at the mutex of the database. -/
theorem Stores.update (hL : L.Spec) (h : r.Stores store table) {call : LocalWrite Rpc Key Value}
    {replies : List (Reply Rpc Key Value)} (hmutex : r.writeMutex = some (call, .lookingUp))
    (hlt : rank StampedValue.stamp (table call.key) < rank StampedValue.stamp (some call.targetValue))
    (hupdate : r.update store call = .ok (r', replies)) :
    replies = [] ∧ r'.Stores store table ∧ r'.writeMutex = some (call, .updating) ∧
      r'.waiting = r.waiting ∧ r'.reading = r.reading := by
  obtain ⟨node, hput, hupdate⟩ := Outcome.bind_eq_ok.mp hupdate
  obtain ⟨rfl, rfl⟩ := Prod.mk.inj (Outcome.pure_eq_ok.mp hupdate)
  obtain ⟨hphase, rfl⟩ := Node.execute_put hput
  obtain ⟨batches, hlogged, hlogs⟩ := h.logged
  have hwriting := h.writing
  rw [Writing, hmutex] at hwriting
  obtain ⟨hwaiting, hwriter⟩ := hwriting
  refine ⟨rfl, ⟨⟨batches, hlogged, ?_⟩, ⟨hlt, ?_⟩, fun hne => absurd hphase hne⟩, rfl, rfl, rfl⟩
  · exact hlogs.called hL hphase (Node.Called.waits _) rfl
  · show r.node.waiting ++ [_] ++ (r.node.writeMutex.map Writer.batch).toList = _
    rw [hwaiting, hwriter]
    rfl

omit [DecidableEq Key] in
theorem stepDatabase_eq_ok {action : Db.Action DbKey DbValue} {call : LocalWrite Rpc Key Value}
    (h : r.stepDatabase action = .ok (call, r')) : r.writeMutex = some (call, .updating) ∧
      ∃ node, r.node.execute action = .ok node ∧ r' = { r with node := node } := by
  rw [stepDatabase] at h
  split at h
  · rename_i call' hmutex
    obtain ⟨node, hexecute, h⟩ := Outcome.bind_eq_ok.mp h
    obtain ⟨rfl, rfl⟩ := Prod.mk.inj (Outcome.pure_eq_ok.mp h)
    exact ⟨hmutex, node, hexecute, rfl⟩
  · cases h

/-- `Put` gets the mutex of the database. -/
theorem Stores.lockDatabase (hL : L.Spec) (h : r.Stores store table)
    {call : LocalWrite Rpc Key Value} (hstep : r.stepDatabase (.lock 0) = .ok (call, r')) :
    r'.Stores store table ∧ r'.writes = r.writes ∧ r'.reading = r.reading := by
  obtain ⟨hmutex, node, hlock, rfl⟩ := stepDatabase_eq_ok hstep
  obtain ⟨hphase, hwriter, batch, hbatch, rfl⟩ := Node.execute_lock hlock
  obtain ⟨batches, hlogged, hlogs⟩ := h.logged
  have hwriting := h.writing
  rw [Writing, hmutex] at hwriting
  obtain ⟨hlt, hwaiting⟩ := hwriting
  refine ⟨⟨⟨batches, hlogged, ?_⟩, ?_, fun hne => absurd hphase hne⟩, rfl, rfl⟩
  · exact hlogs.called hL hphase (Node.Called.locked 0 batch hwriter hbatch) rfl
  · rw [Writing, hmutex]
    refine ⟨hlt, ?_⟩
    rw [hwriter, Option.map_none, Option.toList_none, List.append_nil] at hwaiting
    rw [hwaiting] at hbatch
    show r.node.waiting.eraseIdx 0 ++ [batch] = _
    rw [hwaiting]
    exact congrArg (fun b => [b]) (Option.some.inj hbatch).symm

/-- `Put` appends its record. -/
theorem Stores.append (hL : L.Spec) (h : r.Stores store table) {call : LocalWrite Rpc Key Value}
    (hstep : r.stepDatabase .append = .ok (call, r')) :
    r'.Stores store table ∧ r'.writes = r.writes ∧ r'.reading = r.reading := by
  obtain ⟨hmutex, node, hexecute, rfl⟩ := stepDatabase_eq_ok hstep
  obtain ⟨hphase, file, batch, db, file', hfile, hwriter, happend, rfl⟩ :=
    Node.execute_append hexecute
  obtain ⟨batches, hlogged, hlogs⟩ := h.logged
  have hwriting := h.writing
  rw [Writing, hmutex] at hwriting
  obtain ⟨hlt, hwaiting⟩ := hwriting
  refine ⟨⟨⟨batches, hlogged, ?_⟩, ?_, fun hne => absurd hphase hne⟩, rfl, rfl⟩
  · exact hlogs.called hL hphase (Node.Called.appended batch file file' db hfile hwriter happend) rfl
  · rw [Writing, hmutex]
    refine ⟨hlt, ?_⟩
    rw [hwriter] at hwaiting
    exact hwaiting

/-- `Put` returns, and the value is in the table. -/
theorem Stores.finish (h : r.Stores store table) {call : LocalWrite Rpc Key Value}
    (hstep : r.stepDatabase .finish = .ok (call, r')) :
    r.writeMutex = some (call, .updating) ∧
      rank StampedValue.stamp (table call.key) < rank StampedValue.stamp (some call.targetValue) ∧
      { r' with writeMutex := none }.Stores store
        (Function.update table call.key (some call.targetValue)) ∧
      r'.waiting = r.waiting ∧ r'.reading = r.reading := by
  obtain ⟨hmutex, node, hfinish, rfl⟩ := stepDatabase_eq_ok hstep
  obtain ⟨hphase, batch, hwriter, rfl⟩ := Node.execute_finish hfinish
  obtain ⟨batches, hlogged, hlogs⟩ := h.logged
  have hwriting := h.writing
  rw [Writing, hmutex] at hwriting
  obtain ⟨hlt, hwaiting⟩ := hwriting
  rw [hwriter] at hwaiting
  obtain ⟨hnone, rfl⟩ : r.node.waiting = [] ∧ batch = store.batch call.key call.targetValue := by
    simpa [List.append_eq_singleton_iff, Writer.batch] using hwaiting
  exact ⟨hmutex, hlt, ⟨⟨_, hlogged.snoc hlt, hlogs.finish hphase hwriter⟩, ⟨hnone, rfl⟩,
    fun hne => absurd hphase hne⟩, rfl, rfl⟩

/-! ## Starts and crashes -/

/-- The node starts, or opens its database. -/
theorem Stores.boot (hL : L.Spec) (h : r.Stores store table) {action : Db.Action DbKey DbValue}
    (haction : action.isCall = false) (hcrash : ∀ written, action ≠ .crash written)
    {replies : List (Reply Rpc Key Value)} (hboot : r.boot action = .ok (r', replies)) :
    replies = [] ∧ r'.Stores store table ∧ r'.writes = r.writes ∧ r'.reading = r.reading := by
  obtain ⟨node, hexecute, hboot⟩ := Outcome.bind_eq_ok.mp hboot
  obtain ⟨rfl, rfl⟩ := Prod.mk.inj (Outcome.pure_eq_ok.mp hboot)
  obtain ⟨batches, hlogged, hlogs⟩ := h.logged
  refine ⟨rfl, ?_, rfl, rfl⟩
  cases action with
  | start =>
    obtain ⟨hphase, rfl⟩ := Node.execute_start hexecute
    exact ⟨⟨batches, hlogged, hlogs.start hphase⟩, h.writing,
      fun _ => h.idle (by simp [hphase])⟩
  | replay directory =>
    obtain ⟨hphase, db, file, hopen, rfl⟩ := Node.execute_replay hexecute
    exact ⟨⟨batches, hlogged, hlogs.replay hL hphase hopen⟩, h.writing,
      fun _ => h.idle (by simp [hphase])⟩
  | opened =>
    obtain ⟨hphase, rfl⟩ := Node.execute_opened hexecute
    exact ⟨⟨batches, hlogged, hlogs.opened hphase⟩, h.writing, fun hne => absurd rfl hne⟩
  | crash written => exact absurd rfl (hcrash written)
  | _ => cases haction

/-- A crash leaves the table, or the one that the fiber in `Put` was about to make. -/
theorem Stores.crash (hL : L.Spec) (h : r.Stores store table) {written : ℕ} {node : Node L}
    (hcrash : r.node.execute (.crash written) = .ok node) : ∃ table', r.Raises table table' ∧
      Stores store ({ node := node } : Replica L Rpc Key Value) table' := by
  obtain rfl := Node.execute_crash hcrash
  obtain ⟨batches, hlogged, hlogs⟩ := h.logged
  obtain ⟨extra, hextra, hlogs⟩ := hlogs.crash hL written
  have hwriting := h.writing
  rw [Writing] at hwriting
  cases extra with
  | none =>
    rw [Option.toList_none, List.append_nil] at hlogs
    exact ⟨table, Or.inl rfl, ⟨_, hlogged, hlogs⟩, ⟨rfl, rfl⟩, fun _ => ⟨rfl, rfl, rfl⟩⟩
  | some batch =>
    have hbatch := hextra batch rfl
    split at hwriting
    · rename_i call hmutex
      obtain ⟨hlt, hwaiting⟩ := hwriting
      rw [hwaiting] at hbatch
      obtain rfl := List.mem_singleton.mp hbatch
      have hmem : call ∈ r.writes := by
        simp [writes, hmutex]
      exact ⟨_, Or.inr ⟨call, hmem, hlt, rfl⟩, ⟨_, hlogged.snoc hlt, hlogs⟩, ⟨rfl, rfl⟩,
        fun _ => ⟨rfl, rfl, rfl⟩⟩
    · obtain ⟨hwaiting, hwriter⟩ := hwriting
      simp [hwaiting, hwriter] at hbatch

/-! ## Actions -/

variable [Std.LawfulEqOrd DbKey]

theorem Stores.tryGet (hstore : store.Spec) (h : r.Stores store table) (hphase : r.node.phase = .up)
    (key : Key) : store.tryGet r.node.db.memTable key = .ok (table key) := by
  obtain ⟨batches, hlogged, hlogs⟩ := h.logged
  rw [hlogs.memTable hphase]
  exact hlogged.tryGet hstore key

/-- The rest of `LocalWrite` either answers or goes on to `Put`. -/
theorem Stores.compare [Inhabited Value] (hL : L.Spec) (hstore : store.Spec)
    (h : r.Stores store table) {call : LocalWrite Rpc Key Value}
    {replies : List (Reply Rpc Key Value)} (hmutex : r.writeMutex = some (call, .lookingUp))
    (hcompare : r.compare store call = .ok (r', replies)) (action : ReplicaAction Rpc Key Value) :
    r.Serves store table action r' replies table := by
  have hphase : r.node.phase = .up := h.phase_of_fiber (Or.inl (by simp [hmutex]))
  have hmem : call ∈ r.writes := by
    simp [writes, hmutex]
  have hupdated
      (hlt : rank StampedValue.stamp (table call.key)
        < rank StampedValue.stamp (some call.targetValue))
      (hupdate : r.update store call = .ok (r', replies)) :
      r.Serves store table action r' replies table := by
    obtain ⟨rfl, hstores, hmutex', hwaiting, hreading⟩ := h.update hL hmutex hlt hupdate
    refine ⟨hstores, Or.inl rfl, fun call' hcall' => Or.inl ?_, fun call' hcall' => Or.inl ?_,
      nofun, nofun⟩
    · rw [writes, hmutex', hwaiting] at hcall'
      rw [writes, hmutex]
      exact hcall'
    · rwa [hreading] at hcall'
  rw [Replica.compare, h.tryGet hstore hphase, Outcome.ok_bind] at hcompare
  cases hvalue : table call.key with
  | none =>
    rw [hvalue] at hcompare
    refine hupdated ?_ hcompare
    rw [hvalue]
    exact rank_none_lt _
  | some localValue =>
    rw [hvalue] at hcompare
    dsimp only at hcompare
    split at hcompare
    · rename_i hlt
      refine hupdated ?_ hcompare
      rw [hvalue]
      exact rank_some_lt.mpr hlt
    · rename_i hle
      obtain ⟨rfl, rfl⟩ := Prod.mk.inj (Outcome.pure_eq_ok.mp hcompare)
      have hwriting := h.writing
      rw [Writing, hmutex] at hwriting
      refine ⟨⟨h.logged, hwriting, fun hne => absurd hphase hne⟩, Or.inl rfl,
        fun call' hcall' => Or.inl ?_, fun call' hcall' => Or.inl hcall', fun call' hcall' => ?_,
        fun call' v hread => ?_⟩
      · exact List.mem_append_right _ hcall'
      · -- The local value is at least as new, so there is nothing to write.
        obtain rfl : call' = call := by simpa using hcall'
        refine ⟨hmem, ?_⟩
        rw [hvalue]
        exact rank_some_le.mpr (not_lt.mp hle)
      · simp at hread

variable [Inhabited Value] {action : ReplicaAction Rpc Key Value}
  {replies : List (Reply Rpc Key Value)}

omit [Std.LawfulEqOrd DbKey] in
/-- An action that neither answers nor touches the table. -/
theorem Stores.serves_of_quiet (hstores : r'.Stores store table) (hwrites : r'.writes = r.writes)
    (hreading : r'.reading = r.reading) : r.Serves store table action r' [] table :=
  ⟨hstores, Or.inl rfl, fun _ hcall => Or.inl (hwrites ▸ hcall),
    fun _ hcall => Or.inl (hreading ▸ hcall), nofun, nofun⟩

/-- A waiting fiber gets the mutex. -/
theorem Stores.lock (hL : L.Spec) (hstore : store.Spec) (h : r.Stores store table) {index : ℕ}
    {cacheMiss : Bool} {call : LocalWrite Rpc Key Value} (hmutex : r.writeMutex = none)
    (hcall : r.waiting[index]? = some call)
    (hlock : (if cacheMiss then
        .ok ({ r with writeMutex := some (call, .lookingUp), waiting := r.waiting.eraseIdx index },
          [])
      else
        { r with
          writeMutex := some (call, .lookingUp)
          waiting := r.waiting.eraseIdx index }.compare store call) = Except.ok (r', replies)) :
    r.Serves store table (.lock index cacheMiss) r' replies table := by
  have hphase : r.node.phase = .up := by
    refine h.phase_of_fiber (Or.inr (Or.inl fun hnil => ?_))
    rw [hnil] at hcall
    cases hcall
  have hwriting := h.writing
  rw [Writing, hmutex] at hwriting
  have hlocked : Stores store { r with
      writeMutex := some (call, .lookingUp)
      waiting := r.waiting.eraseIdx index } table :=
    ⟨h.logged, hwriting, fun hne => absurd hphase hne⟩
  have hwrites : ∀ call' ∈ writes { r with
      writeMutex := some (call, .lookingUp)
      waiting := r.waiting.eraseIdx index }, call' ∈ r.writes := by
    intro call' hcall'
    refine List.mem_append_right _ ?_
    rcases List.mem_cons.mp hcall' with rfl | hcall'
    · exact List.mem_of_getElem? hcall
    · exact List.mem_of_mem_eraseIdx hcall'
  cases cacheMiss with
  | true =>
    obtain ⟨rfl, rfl⟩ := Prod.mk.inj (Except.ok.inj hlock)
    exact ⟨hlocked, Or.inl rfl, fun call' hcall' => Or.inl (hwrites call' hcall'),
      fun _ hcall' => Or.inl hcall', nofun, nofun⟩
  | false =>
    have hserves := hlocked.compare hL hstore rfl hlock (.lock index false)
    exact ⟨hserves.stores, Or.inl rfl,
      fun call' hcall' => (hserves.writes call' hcall').imp_left (hwrites call'), hserves.reading,
      fun call' hcall' => (hserves.wrote call' hcall').imp_left (hwrites call'), hserves.read⟩

omit [Std.LawfulEqOrd DbKey] in
/-- `Put` returns, and `LocalWrite` with it. -/
theorem Stores.serves_finish (h : r.Stores store table) {call : LocalWrite Rpc Key Value}
    (hstep : r.stepDatabase .finish = .ok (call, r')) :
    r.Serves store table action { r' with writeMutex := none } [.wrote call]
      (Function.update table call.key (some call.targetValue)) := by
  obtain ⟨hmutex, hlt, hstores, hwaiting, hreading⟩ := h.finish hstep
  have hmem : call ∈ r.writes := by
    simp [writes, hmutex]
  refine ⟨hstores, Or.inr ⟨call, hmem, hlt, rfl⟩, fun call' hcall' => Or.inl ?_,
    fun call' hcall' => Or.inl (hreading ▸ hcall'), fun call' hcall' => ?_, fun call' v hread => ?_⟩
  · refine List.mem_append_right _ ?_
    rw [← hwaiting]
    exact hcall'
  · obtain rfl : call' = call := by simpa using hcall'
    rw [Function.update_self]
    exact ⟨hmem, le_refl _⟩
  · simp at hread

theorem Stores.readValue (hstore : store.Spec) (h : r.Stores store table)
    (hphase : r.node.phase = .up) (call : LocalRead Rpc Key) :
    r.readValue store call = .ok [.read call (table.value call.key)] := by
  rw [Replica.readValue, KVStore.getOr, h.tryGet hstore hphase]
  rfl

/-- `LocalRead` returns what the table holds. -/
theorem Stores.serves_readValue (hstore : store.Spec) (h : r.Stores store table)
    (hphase : r.node.phase = .up) {call : LocalRead Rpc Key}
    (hcall : call ∈ r.reading ∨ ∃ cacheMiss, action = .localRead call cacheMiss)
    (hread : r.readValue store call = .ok replies) {reading : List (LocalRead Rpc Key)}
    (hreading : ∀ call' ∈ reading, call' ∈ r.reading) :
    r.Serves store table action { r with reading := reading } replies table := by
  rw [h.readValue hstore hphase] at hread
  obtain rfl := Except.ok.inj hread
  refine ⟨⟨h.logged, h.writing, fun hne => absurd hphase hne⟩, Or.inl rfl,
    fun call' hcall' => Or.inl hcall', fun call' hcall' => Or.inl (hreading call' hcall'),
    fun call' hcall' => ?_, fun call' v hcall' => ?_⟩
  · simp at hcall'
  · obtain ⟨rfl, rfl⟩ := Reply.read.inj (List.mem_singleton.mp hcall')
    exact ⟨rfl, hcall⟩

/-- **One action** keeps the table or raises one stamp.  A write is answered when the stamp of
its key is at least its own, and a read gets what the table holds. -/
theorem Stores.execute (hL : L.Spec) (hstore : store.Spec) (h : r.Stores store table)
    (hexecute : r.execute store action = .ok (r', replies)) :
    ∃ table', r.Serves store table action r' replies table' := by
  have hboot (action' : Db.Action DbKey DbValue) (haction : action'.isCall = false)
      (hcrash : ∀ written, action' ≠ .crash written)
      (hboot : r.boot action' = .ok (r', replies)) :
      ∃ table', r.Serves store table action r' replies table' := by
    obtain ⟨rfl, hstores, hwrites, hreading⟩ := h.boot hL haction hcrash hboot
    exact ⟨table, serves_of_quiet hstores hwrites hreading⟩
  cases action with
  | start => exact hboot .start rfl (fun _ => nofun) hexecute
  | replay directory => exact hboot (.replay directory) rfl (fun _ => nofun) hexecute
  | opened => exact hboot .opened rfl (fun _ => nofun) hexecute
  | localWrite call =>
    simp only [Replica.execute] at hexecute
    split at hexecute
    · rename_i hphase
      obtain ⟨rfl, rfl⟩ := Prod.mk.inj (Except.ok.inj hexecute)
      refine ⟨table, ⟨h.logged, h.writing, fun hne => absurd hphase hne⟩, Or.inl rfl,
        fun call' hcall' => ?_, fun call' hcall' => Or.inl hcall', nofun, nofun⟩
      rw [writes, ← List.append_assoc] at hcall'
      rcases List.mem_append.mp hcall' with hcall' | hcall'
      · exact Or.inl hcall'
      · exact Or.inr (congrArg _ (List.mem_singleton.mp hcall').symm)
    · cases hexecute
  | lock index cacheMiss =>
    simp only [Replica.execute] at hexecute
    split at hexecute
    · rename_i call hmutex hcall
      exact ⟨table, h.lock hL hstore hmutex hcall hexecute⟩
    · cases hexecute
  | lookedUp =>
    simp only [Replica.execute] at hexecute
    split at hexecute
    · rename_i call hmutex
      exact ⟨table, h.compare hL hstore hmutex hexecute .lookedUp⟩
    · cases hexecute
  | lockDatabase =>
    obtain ⟨⟨call, r''⟩, hstep, hexecute⟩ := Outcome.bind_eq_ok.mp hexecute
    obtain ⟨rfl, rfl⟩ := Prod.mk.inj (Outcome.pure_eq_ok.mp hexecute)
    obtain ⟨hstores, hwrites, hreading⟩ := h.lockDatabase hL hstep
    exact ⟨table, serves_of_quiet hstores hwrites hreading⟩
  | append =>
    obtain ⟨⟨call, r''⟩, hstep, hexecute⟩ := Outcome.bind_eq_ok.mp hexecute
    obtain ⟨rfl, rfl⟩ := Prod.mk.inj (Outcome.pure_eq_ok.mp hexecute)
    obtain ⟨hstores, hwrites, hreading⟩ := h.append hL hstep
    exact ⟨table, serves_of_quiet hstores hwrites hreading⟩
  | finish =>
    obtain ⟨⟨call, r''⟩, hstep, hexecute⟩ := Outcome.bind_eq_ok.mp hexecute
    obtain ⟨rfl, rfl⟩ := Prod.mk.inj (Outcome.pure_eq_ok.mp hexecute)
    exact ⟨_, h.serves_finish hstep⟩
  | localRead call cacheMiss =>
    simp only [Replica.execute] at hexecute
    split at hexecute
    · rename_i hphase
      cases cacheMiss with
      | true =>
        obtain ⟨rfl, rfl⟩ := Prod.mk.inj (Except.ok.inj hexecute)
        refine ⟨table, ⟨h.logged, h.writing, fun hne => absurd hphase hne⟩, Or.inl rfl,
          fun call' hcall' => Or.inl hcall', fun call' hcall' => ?_, nofun, nofun⟩
        rcases List.mem_append.mp hcall' with hcall' | hcall'
        · exact Or.inl hcall'
        · obtain rfl := List.mem_singleton.mp hcall'
          exact Or.inr ⟨true, rfl⟩
      | false =>
        obtain ⟨replies', hread, hexecute⟩ := Outcome.bind_eq_ok.mp hexecute
        obtain ⟨rfl, rfl⟩ := Prod.mk.inj (Outcome.pure_eq_ok.mp hexecute)
        exact ⟨table, h.serves_readValue hstore hphase (Or.inr ⟨false, rfl⟩) hread
          fun _ hcall' => hcall'⟩
    · cases hexecute
  | accessed index =>
    simp only [Replica.execute] at hexecute
    split at hexecute
    · rename_i call hcall
      have hphase : r.node.phase = .up := by
        refine h.phase_of_fiber (Or.inr (Or.inr fun hnil => ?_))
        rw [hnil] at hcall
        cases hcall
      obtain ⟨replies', hread, hexecute⟩ := Outcome.bind_eq_ok.mp hexecute
      obtain ⟨rfl, rfl⟩ := Prod.mk.inj (Outcome.pure_eq_ok.mp hexecute)
      exact ⟨table, h.serves_readValue hstore hphase (Or.inl (List.mem_of_getElem? hcall)) hread
        fun _ hcall' => List.mem_of_mem_eraseIdx hcall'⟩
    · cases hexecute
  | crash written =>
    obtain ⟨node, hcrash, hexecute⟩ := Outcome.bind_eq_ok.mp hexecute
    obtain ⟨rfl, rfl⟩ := Prod.mk.inj (Outcome.pure_eq_ok.mp hexecute)
    obtain ⟨table', hraises, hstores⟩ := h.crash hL hcrash
    exact ⟨table', hstores, hraises, nofun, nofun, nofun, nofun⟩

end Replica

end Whirl.Kv
