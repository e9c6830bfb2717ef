/-
# Replicas converge

Replicas that have acknowledged the newest `Set` of a key store it, whichever others they got, in
whatever order the calls came, how often they were repeated, and how often the nodes crashed in
between.
-/
import WhirlMatrix.Kv.Regular

namespace Whirl.Kv

open Db LastWriter Clocks

/-- The value that a call sets for a key. -/
def Broadcast.target? {Key Value : Type} [DecidableEq Key] (key : Key) :
    Broadcast Key Value → Option (StampedValue Value)
  | set key' targetValue => if key' = key then some targetValue else none
  | get _ => none

theorem Broadcast.target?_eq_some_iff {Key Value : Type} [DecidableEq Key] {key : Key}
    {call : Broadcast Key Value} {v : StampedValue Value} :
    call.target? key = some v ↔ call = .set key v := by
  cases call with
  | set key' target =>
    rw [Broadcast.target?]
    by_cases hkey : key' = key
    · rw [if_pos hkey, hkey]
      simp
    · rw [if_neg hkey]
      simp [hkey]
  | get key' => simp [Broadcast.target?]

/-- The write that a reply acknowledges. -/
def Reply.acknowledged? {Rpc Key Value : Type} : Reply Rpc Key Value → Option Rpc
  | wrote call => some call.rpc
  | read _ _ => none

namespace Cluster

variable {DbKey DbValue Key Value : Type} [Ord DbKey] [Std.TransOrd DbKey]
  {L : Libraries DbKey DbValue} {n : ℕ} {store : KVStore Key Value DbKey DbValue}
  {c : Cluster L n Key Value} [DecidableEq Key]

/-- The values that were set for a key. -/
def written (c : Cluster L n Key Value) (key : Key) : List (StampedValue Value) :=
  c.operations.filterMap fun op => op.call.target? key

theorem mem_written_iff {key : Key} {v : StampedValue Value} :
    v ∈ c.written key ↔ ∃ id, c.Requested id (.set key v) := by
  rw [written, List.mem_filterMap]
  constructor
  · rintro ⟨op, hop, hv⟩
    obtain ⟨id, hop⟩ := List.getElem?_of_mem hop
    exact ⟨id, op, hop, Broadcast.target?_eq_some_iff.mp hv⟩
  · rintro ⟨id, op, hop, hcall⟩
    exact ⟨op, List.mem_of_getElem? hop, Broadcast.target?_eq_some_iff.mpr hcall⟩

/-- A peer has acknowledged a `Set` of a key whose timestamp is the largest. -/
def HandledNewest (c : Cluster L n Key Value) (peer : Fin n) (key : Key) : Prop :=
  ∃ id < c.operations.length, ∃ op ∈ c.operations[id]?, ∃ v ∈ op.call.target? key,
    (∀ v' ∈ c.written key, v'.stamp ≤ v.stamp) ∧
      ∃ reply ∈ c.replies, reply.1 = peer ∧ reply.2.acknowledged? = some id

/-- A peer has handled the newest write of a key, if there is any. -/
def UpToDate (c : Cluster L n Key Value) (peer : Fin n) (key : Key) : Prop :=
  c.written key = [] ∨ c.HandledNewest peer key

instance (c : Cluster L n Key Value) (peer : Fin n) (key : Key) [DecidableEq Value] :
    Decidable (c.UpToDate peer key) :=
  inferInstanceAs (Decidable (_ ∨ ∃ id < _, ∃ op ∈ _, ∃ v ∈ _, (∀ v' ∈ _, _) ∧ ∃ reply ∈ _, _))

/-- Such a peer has acknowledged a newest write. -/
theorem HandledNewest.acknowledged {peer : Fin n} {key : Key} (h : c.HandledNewest peer key) :
    ∃ call v, (peer, .wrote call) ∈ c.replies ∧ c.Requested call.rpc (.set key v) ∧
      ∀ v' ∈ c.written key, v'.stamp ≤ v.stamp := by
  obtain ⟨id, -, op, hop, v, hv, hnewest, ⟨peer', reply⟩, hreply, rfl, hid⟩ := h
  have hrequested : c.Requested id (.set key v) :=
    ⟨op, hop, Broadcast.target?_eq_some_iff.mp hv⟩
  cases reply with
  | wrote call =>
    obtain rfl : call.rpc = id := Option.some.inj hid
    exact ⟨call, v, hreply, hrequested, hnewest⟩
  | read call value => cases hid

variable [Inhabited Value] {tables : Fin n → Table Key Value}

/-- A replica that is up to date stores one of the newest values. -/
theorem Agrees.newest (h : c.Agrees store tables) {peer : Fin n} {key : Key}
    (hpeer : c.UpToDate peer key) : (∀ v ∈ tables peer key, v ∈ c.written key) ∧
      ∀ v ∈ c.written key,
        rank StampedValue.stamp (some v) ≤ rank StampedValue.stamp (tables peer key) := by
  constructor
  · intro v hv
    exact mem_written_iff.mpr (h.holds peer key v hv)
  · intro v hv
    rcases hpeer with hnone | hnewest
    · rw [hnone] at hv
      cases hv
    · obtain ⟨call, v', hreply, ⟨op', hop', hcall⟩, hle⟩ := hnewest.acknowledged
      obtain ⟨⟨op, hop, hcall'⟩, hstamp⟩ := h.wrote peer call hreply
      obtain rfl := Option.some.inj (hop.symm.trans hop')
      obtain ⟨rfl, rfl⟩ := Broadcast.set.inj (hcall.symm.trans hcall')
      exact (rank_some_le.mpr (hle v hv)).trans hstamp

/-- **Convergence.**  In any run of a cluster, two replicas that are up and have handled a `Set`
of the largest timestamp read values of the same timestamp; and the same value, when no two
values that were set for the key have the same timestamp. -/
theorem converged_of_reaches [Std.LawfulEqOrd DbKey] (hL : L.Spec) (hstore : store.Spec)
    {globalNow : ℕ} {wallClocks : Fin n → WallClock}
    (hrun : Runs.Reaches (execute store) (fun _ _ => True) (start globalNow wallClocks) c)
    {peer peer' : Fin n} (hup : (c.replicas peer).node.phase = .up)
    (hup' : (c.replicas peer').node.phase = .up) {key : Key} (hpeer : c.UpToDate peer key)
    (hpeer' : c.UpToDate peer' key) (id : ℕ) :
    ∃ v v' : StampedValue Value, (c.replicas peer).readValue store ⟨id, key⟩ = .ok [.read ⟨id, key⟩ v] ∧
      (c.replicas peer').readValue store ⟨id, key⟩ = .ok [.read ⟨id, key⟩ v'] ∧
        v.stamp = v'.stamp ∧
          ((∀ a ∈ c.written key, ∀ b ∈ c.written key, a.stamp = b.stamp → a = b) → v = v') := by
  obtain ⟨tables, hagrees⟩ := agrees_of_reaches hL hstore hrun
  obtain ⟨hmem, hnewest⟩ := hagrees.newest hpeer
  obtain ⟨hmem', hnewest'⟩ := hagrees.newest hpeer'
  have hrank := rank_eq_of_offered hmem hnewest hmem' hnewest'
  refine ⟨(tables peer).value key, (tables peer').value key, ?_, ?_, ?_, fun hdistinct => ?_⟩
  · exact (hagrees.stores peer).readValue hstore hup ⟨id, key⟩
  · exact (hagrees.stores peer').readValue hstore hup' ⟨id, key⟩
  · exact le_antisymm (Table.stamp_value_le hrank.le) (Table.stamp_value_le hrank.ge)
  · rw [Table.value, Table.value, eq_of_rank_eq hdistinct hmem hmem' hrank]

end Cluster

/-- A replica gets both writes of a key, and another one only the second. -/
def laggingRun (first second : Fin 3) : List (ClusterAction 3 ℕ Bool) :=
  List.flatten [bootActions first, bootActions second, [.set first 7 true], writeActions first 0,
    [.pass 10, .set first 7 false], writeActions first 1, writeActions second 1]

/-- The cluster after this. -/
def laggingCluster (first second : Fin 3) : Option (Cluster recordLog 3 ℕ Bool) :=
  Runs.exec (Cluster.execute recordStore) (fun _ _ => True) regularStart (laggingRun first second)

/-- **An example of convergence.**  Neither the first write nor its call ever gets to replica 1. -/
theorem converged_of_reaches_laggingCluster : ∃ c ∈ laggingCluster 0 1,
    (∀ reply ∈ c.replies, reply.1 = 1 → reply.2.acknowledged? ≠ some 0) ∧
      ∃ v : StampedValue Bool,
        (c.replicas 0).readValue recordStore ⟨2, 7⟩ = .ok [.read ⟨2, 7⟩ v] ∧
          (c.replicas 1).readValue recordStore ⟨2, 7⟩ = .ok [.read ⟨2, 7⟩ v] := by
  have hchecked : ∃ c ∈ laggingCluster 0 1, (c.replicas 0).node.phase = .up ∧
      (c.replicas 1).node.phase = .up ∧ c.UpToDate 0 7 ∧ c.UpToDate 1 7 ∧
        (∀ a ∈ c.written 7, ∀ b ∈ c.written 7, a.stamp = b.stamp → a = b) ∧
          ∀ reply ∈ c.replies, reply.1 = 1 → reply.2.acknowledged? ≠ some 0 := by
    decide +kernel
  obtain ⟨c, hc, hup, hup', hpeer, hpeer', hdistinct, hmissed⟩ := hchecked
  obtain ⟨v, v', hv, hv', -, hsame⟩ := Cluster.converged_of_reaches spec_recordLog spec_recordStore
    (Runs.reaches_of_exec hc) hup hup' hpeer hpeer' 2
  obtain rfl := hsame hdistinct
  exact ⟨c, hc, hmissed, v, hv, hv'⟩

end Whirl.Kv
