/-
# Replicas answer

No fiber of a replica blocks another one for ever.  The fiber that holds the mutex of the writers
can always go on to the end of its `LocalWrite`, and then any other one can get the mutex.
-/
import WhirlMatrix.Kv.Regular

namespace Whirl.Kv

open Db LastWriter

/-- Whether an action is one of a fiber that runs already: no call, no crash, and no node that
starts or opens its database. -/
def ReplicaAction.isFiber {Rpc Key Value : Type} : ReplicaAction Rpc Key Value → Bool
  | start => false
  | replay _ => false
  | opened => false
  | action => action.isInternal

theorem ReplicaAction.isInternal_of_isFiber {Rpc Key Value : Type}
    {action : ReplicaAction Rpc Key Value} (h : action.isFiber = true) :
    action.isInternal = true := by
  cases action with
  | start | replay | opened => cases h
  | _ => exact h

namespace Replica

variable {DbKey DbValue Rpc Key Value : Type} [Ord DbKey] [Std.TransOrd DbKey] [Inhabited Value]
  {L : Libraries DbKey DbValue} {store : KVStore Key Value DbKey DbValue}
  {r r' r'' : Replica L Rpc Key Value} {table : Table Key Value}

/-! ## What the fibers of a replica can do by themselves -/

/-- The fibers of a replica go on, without new calls, crashes and starts, and answer. -/
inductive Leads (store : KVStore Key Value DbKey DbValue) :
    Replica L Rpc Key Value → Replica L Rpc Key Value → List (Reply Rpc Key Value) → Prop
  | refl (r : Replica L Rpc Key Value) : Leads store r r []
  | step {r r' r'' : Replica L Rpc Key Value} {replies replies' : List (Reply Rpc Key Value)}
      (action : ReplicaAction Rpc Key Value) (hfiber : action.isFiber = true)
      (hexecute : r.execute store action = .ok (r', replies)) (h : Leads store r' r'' replies') :
      Leads store r r'' (replies ++ replies')

theorem Leads.single {action : ReplicaAction Rpc Key Value} {replies : List (Reply Rpc Key Value)}
    (hfiber : action.isFiber = true) (hexecute : r.execute store action = .ok (r', replies)) :
    Leads store r r' replies := by
  have h := Leads.step action hfiber hexecute (Leads.refl r')
  rwa [List.append_nil] at h

theorem Leads.trans {replies replies' : List (Reply Rpc Key Value)} (h : Leads store r r' replies)
    (h' : Leads store r' r'' replies') : Leads store r r'' (replies ++ replies') := by
  induction h with
  | refl r => exact h'
  | step action hfiber hexecute h ih =>
    rw [List.append_assoc]
    exact Leads.step action hfiber hexecute (ih h')

variable {call : LocalWrite Rpc Key Value}

omit [Inhabited Value] in
theorem stepDatabase_eq (hmutex : r.writeMutex = some (call, .updating))
    {action : Db.Action DbKey DbValue} {node : Node L} (hexecute : r.node.execute action = .ok node) :
    r.stepDatabase action = .ok (call, { r with node := node }) := by
  rw [stepDatabase, hmutex]
  dsimp only
  rw [hexecute]
  rfl

/-- A replica whose fiber in `Put` has released both mutexes. -/
structure Released (r r' : Replica L Rpc Key Value) : Prop where
  writeMutex : r'.writeMutex = none
  waiting : r'.waiting = r.waiting
  phase : r'.node.phase = .up

/-- `Put` returns when its record is on disk. -/
theorem leads_of_appended (hphase : r.node.phase = .up)
    (hmutex : r.writeMutex = some (call, .updating)) {batch : WriteBatch DbKey DbValue}
    (hwriter : r.node.writeMutex = some (.appended batch)) :
    ∃ r', Leads store r r' [.wrote call] ∧ r.Released r' := by
  obtain ⟨node, hfinish⟩ := Node.finish_eq_ok hphase hwriter
  have hstep := stepDatabase_eq hmutex hfinish
  have hexecute : r.execute store .finish
      = .ok ({ r with node := node, writeMutex := none }, [.wrote call]) := by
    simp only [Replica.execute, hstep]
    rfl
  refine ⟨_, Leads.single rfl hexecute, rfl, rfl, ?_⟩
  obtain ⟨hphase', batch', -, rfl⟩ := Node.execute_finish hfinish
  exact hphase'

variable [DecidableEq Key]

/-- The record of `Put` reaches the disk. -/
theorem Stores.leads_of_appending (h : r.Stores store table) (hphase : r.node.phase = .up)
    (hmutex : r.writeMutex = some (call, .updating)) {batch : WriteBatch DbKey DbValue}
    (hwriter : r.node.writeMutex = some (.appending batch)) :
    ∃ r', Leads store r r' [.wrote call] ∧ r.Released r' := by
  obtain ⟨batches, -, hlogs⟩ := h.logged
  obtain ⟨node, happend⟩ := hlogs.append_eq_ok hphase hwriter
  have hstep := stepDatabase_eq hmutex happend
  have hexecute : r.execute store .append = .ok ({ r with node := node }, []) := by
    simp only [Replica.execute, hstep]
    rfl
  obtain ⟨-, file, batch', db, file', -, -, -, hnode⟩ := Node.execute_append happend
  have hphase' : node.phase = .up := by
    rw [hnode]
    exact hphase
  have hwriter' : node.writeMutex = some (.appended batch') := by
    rw [hnode]
  obtain ⟨r', hleads, hreleased⟩ : ∃ r', Leads store { r with node := node } r' [.wrote call] ∧
      Released { r with node := node } r' := leads_of_appended hphase' hmutex hwriter'
  exact ⟨r', (Leads.single rfl hexecute).trans hleads, hreleased.writeMutex, hreleased.waiting,
    hreleased.phase⟩

/-- **`Put` returns.** -/
theorem Stores.leads_of_updating (hL : L.Spec) (h : r.Stores store table) (hphase : r.node.phase = .up)
    (hmutex : r.writeMutex = some (call, .updating)) :
    ∃ r', Leads store r r' [.wrote call] ∧ r.Released r' := by
  have hwriting := h.writing
  rw [Writing, hmutex] at hwriting
  obtain ⟨hlt, hwaiting⟩ := hwriting
  cases hwriter : r.node.writeMutex with
  | some writer =>
    cases writer with
    | appended batch => exact leads_of_appended hphase hmutex hwriter
    | appending batch => exact h.leads_of_appending hphase hmutex hwriter
  | none =>
    rw [hwriter, Option.map_none, Option.toList_none, List.append_nil] at hwaiting
    have hlock := Node.lock_eq_ok hphase hwriter hwaiting
    have hstep := stepDatabase_eq hmutex hlock
    have hexecute : r.execute store .lockDatabase = .ok ({ r with node := { r.node with
        writeMutex := some (.appending (store.batch call.key call.targetValue))
        waiting := [] } }, []) := by
      simp only [Replica.execute, hstep]
      rfl
    obtain ⟨hstores, -, -⟩ := h.lockDatabase hL hstep
    obtain ⟨r', hleads, hreleased⟩ := hstores.leads_of_appending hphase hmutex rfl
    exact ⟨r', (Leads.single rfl hexecute).trans hleads, hreleased.writeMutex, hreleased.waiting,
      hreleased.phase⟩

variable [Std.LawfulEqOrd DbKey]

/-- **`LocalWrite` returns** when its fiber has the mutex. -/
theorem Stores.leads_of_lookingUp (hL : L.Spec) (hstore : store.Spec) (h : r.Stores store table)
    (hphase : r.node.phase = .up) (hmutex : r.writeMutex = some (call, .lookingUp)) :
    ∃ r', Leads store r r' [.wrote call] ∧ r.Released r' := by
  have hexecute : r.execute store .lookedUp = r.compare store call := by
    simp only [Replica.execute, hmutex]
  have hupdated (hcompare : r.compare store call = r.update store call) :
      ∃ r', Leads store r r' [.wrote call] ∧ r.Released r' := by
    obtain ⟨batches, -, hlogs⟩ := h.logged
    have hput := hlogs.put_eq_ok hphase (store.dbKey call.key) (store.serialize call.targetValue)
    have hupdate : r.update store call = .ok ({ r with
        node := { r.node with
          waiting := r.node.waiting ++ [store.batch call.key call.targetValue] }
        writeMutex := some (call, .updating) }, []) := by
      rw [Replica.update, KVStore.put, hput]
      rfl
    have hserved := (hexecute.trans hcompare).trans hupdate
    obtain ⟨table', hserves⟩ := h.execute hL hstore hserved
    obtain ⟨r', hleads, hreleased⟩ := hserves.stores.leads_of_updating hL hphase rfl
    exact ⟨r', (Leads.single rfl hserved).trans hleads, hreleased.writeMutex, hreleased.waiting,
      hreleased.phase⟩
  cases hvalue : table call.key with
  | none =>
    refine hupdated ?_
    rw [Replica.compare, h.tryGet hstore hphase, hvalue]
    rfl
  | some localValue =>
    by_cases hlt : localValue.timestamp < call.targetValue.timestamp
    · refine hupdated ?_
      rw [Replica.compare, h.tryGet hstore hphase, hvalue]
      exact if_pos hlt
    · have hcompare : r.compare store call = .ok ({ r with writeMutex := none }, [.wrote call]) := by
        rw [Replica.compare, h.tryGet hstore hphase, hvalue]
        exact if_neg hlt
      exact ⟨_, Leads.single rfl (hexecute.trans hcompare), rfl, rfl, hphase⟩

/-- The fiber that holds the mutex of the writers releases it. -/
theorem Stores.exists_released (hL : L.Spec) (hstore : store.Spec) (h : r.Stores store table)
    (hphase : r.node.phase = .up) : ∃ r' replies, Leads store r r' replies ∧ r.Released r' := by
  cases hmutex : r.writeMutex with
  | none => exact ⟨r, [], Leads.refl r, hmutex, rfl, hphase⟩
  | some fiber =>
    obtain ⟨call, phase⟩ := fiber
    cases phase with
    | lookingUp =>
      obtain ⟨r', hleads, hreleased⟩ := h.leads_of_lookingUp hL hstore hphase hmutex
      exact ⟨r', _, hleads, hreleased⟩
    | updating =>
      obtain ⟨r', hleads, hreleased⟩ := h.leads_of_updating hL hphase hmutex
      exact ⟨r', _, hleads, hreleased⟩

theorem Leads.stores (hL : L.Spec) (hstore : store.Spec) {replies : List (Reply Rpc Key Value)}
    (hleads : Leads store r r' replies) (h : r.Stores store table) :
    ∃ table', r'.Stores store table' := by
  induction hleads generalizing table with
  | refl r => exact ⟨table, h⟩
  | step action hfiber hexecute hleads ih =>
    obtain ⟨table', hserves⟩ := h.execute hL hstore hexecute
    exact ih hserves.stores

/-- **Every waiting `LocalWrite` can be answered.** -/
theorem Stores.exists_wrote (hL : L.Spec) (hstore : store.Spec) (h : r.Stores store table)
    (hphase : r.node.phase = .up) (hcall : call ∈ r.waiting) :
    ∃ r' replies, Leads store r r' replies ∧ .wrote call ∈ replies ∧ r'.node.phase = .up := by
  obtain ⟨r', replies, hleads, hreleased⟩ := h.exists_released hL hstore hphase
  obtain ⟨table', hstores⟩ := hleads.stores hL hstore h
  obtain ⟨index, hindex⟩ := List.getElem?_of_mem (hreleased.waiting ▸ hcall)
  have hlock : r'.execute store (.lock index true) = .ok ({ r' with
      writeMutex := some (call, .lookingUp)
      waiting := r'.waiting.eraseIdx index }, []) := by
    simp only [Replica.execute, hreleased.writeMutex, hindex]
    rfl
  obtain ⟨table'', hserves⟩ := hstores.execute hL hstore hlock
  obtain ⟨r'', hleads', hreleased'⟩ :=
    hserves.stores.leads_of_lookingUp hL hstore hreleased.phase rfl
  exact ⟨r'', _, hleads.trans ((Leads.single rfl hlock).trans hleads'), by simp, hreleased'.phase⟩

end Replica

end Whirl.Kv
