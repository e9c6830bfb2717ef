/-
# A majority is enough

Whatever has happened before, a `Set` or `Get` whose node is still up can return as long as the
nodes of a majority are up: no other node is waited for, and no mutex is held for ever.
-/
import WhirlMatrix.Kv.Progress

namespace Whirl.Kv

open Db LastWriter Clocks

/-- Messages arrive and fibers go on: nothing fails, no clock is adjusted, no node starts and no
operation begins. -/
def ClusterAction.isProgress {n : ℕ} {Key Value : Type} : ClusterAction n Key Value → Bool
  | request _ _ _ => true
  | replica _ action => action.isFiber
  | reply _ => true
  | complete _ => true
  | _ => false

namespace Cluster

variable {DbKey DbValue Key Value : Type} [Ord DbKey] [Std.TransOrd DbKey] [Inhabited Value]
  {L : Libraries DbKey DbValue} {n : ℕ} {store : KVStore Key Value DbKey DbValue}
  {c c' : Cluster L n Key Value} {tables : Fin n → Table Key Value}

/-- A cluster goes on by itself. -/
def Proceeds (store : KVStore Key Value DbKey DbValue) (c c' : Cluster L n Key Value) : Prop :=
  Runs.Reaches (execute store) (fun _ action => action.isProgress = true) c c'

/-- The cluster after a replica has gone on. -/
def withReplica (c : Cluster L n Key Value) (peer : Fin n) (r : Replica L ℕ Key Value)
    (replies : List (Reply ℕ Key Value)) : Cluster L n Key Value :=
  { c with
    replicas := Function.update c.replicas peer r
    replies := c.replies ++ replies.map fun reply => (peer, reply) }

theorem serve_eq {peer : Fin n} {action : ReplicaAction ℕ Key Value} {r : Replica L ℕ Key Value}
    {replies : List (Reply ℕ Key Value)}
    (hexecute : (c.replicas peer).execute store action = .ok (r, replies)) :
    c.serve store peer action = .ok (c.withReplica peer r replies) := by
  rw [serve, hexecute]
  rfl

omit [Inhabited Value] in
theorem withReplica_self (c : Cluster L n Key Value) (peer : Fin n) (r : Replica L ℕ Key Value)
    (replies : List (Reply ℕ Key Value)) : (c.withReplica peer r replies).replicas peer = r := by
  simp [withReplica]

omit [Inhabited Value] in
/-- Nodes that are up stay up while one of them goes on. -/
theorem up_withReplica {peer : Fin n} {r : Replica L ℕ Key Value}
    {replies : List (Reply ℕ Key Value)} (hr : r.node.phase = .up) {peer' : Fin n}
    (hup : (c.replicas peer').node.phase = .up) :
    ((c.withReplica peer r replies).replicas peer').node.phase = .up := by
  by_cases hpeer : peer' = peer
  · subst hpeer
    rw [withReplica_self]
    exact hr
  · rw [withReplica]
    dsimp only
    rw [Function.update_of_ne hpeer]
    exact hup

/-- What a replica can do by itself the cluster can do. -/
theorem proceeds_of_leads {peer : Fin n} {r r' : Replica L ℕ Key Value}
    {replies : List (Reply ℕ Key Value)} (hleads : Replica.Leads store r r' replies)
    (hr : c.replicas peer = r) : c.Proceeds store (c.withReplica peer r' replies) := by
  induction hleads generalizing c with
  | refl r =>
    have heq : c.withReplica peer r [] = c := by
      rw [withReplica, ← hr, Function.update_eq_self, List.map_nil, List.append_nil]
    rw [heq]
    exact Runs.Reaches.refl
  | @step r r' r'' replies replies' action hfiber hexecute hleads ih =>
    have hstep : c.execute store (.replica peer action) = .ok (c.withReplica peer r' replies) := by
      simp only [Cluster.execute, ReplicaAction.isInternal_of_isFiber hfiber, if_true]
      exact serve_eq (hr ▸ hexecute)
    have heq : (c.withReplica peer r' replies).withReplica peer r'' replies'
        = c.withReplica peer r'' (replies ++ replies') := by
      simp only [withReplica, Function.update_idem, List.map_append, List.append_assoc]
    have hfirst : c.Proceeds store (c.withReplica peer r' replies) :=
      Runs.Reaches.refl.tail (.replica peer action) hfiber hstep
    rw [← heq]
    exact hfirst.trans (ih (c.withReplica_self peer r' replies))

variable [DecidableEq Key] [Std.LawfulEqOrd DbKey]

theorem Agrees.proceeds (hL : L.Spec) (hstore : store.Spec) (h : c.Agrees store tables)
    (hproceeds : c.Proceeds store c') : ∃ tables', c'.Agrees store tables' := by
  refine hproceeds.invariant (I := fun c => ∃ tables, c.Agrees store tables) ⟨tables, h⟩ ?_
  rintro c action c' ⟨tables, hagrees⟩ - hexecute
  exact (hagrees.execute hL hstore hexecute).2

/-- **A node that is up can answer any call.** -/
theorem Agrees.exists_reply (hL : L.Spec) (hstore : store.Spec) (h : c.Agrees store tables)
    {id : ℕ} {op : Operation n Key Value} (hop : c.operations[id]? = some op) {peer : Fin n}
    (hphase : (c.replicas peer).node.phase = .up) : ∃ c' reply, c.Proceeds store c' ∧
      c'.operations = c.operations ∧ (peer, reply) ∈ c'.replies ∧ reply.rpc = id ∧
        ∀ peer', (c.replicas peer').node.phase = .up → (c'.replicas peer').node.phase = .up := by
  have hrequest {r : Replica L ℕ Key Value} {replies : List (Reply ℕ Key Value)}
      (hexecute : (c.replicas peer).execute store (op.call.action id false) = .ok (r, replies)) :
      c.Proceeds store (c.withReplica peer r replies) := by
    have hstep : c.execute store (.request peer id false)
        = .ok (c.withReplica peer r replies) := by
      simp only [Cluster.execute, hop]
      exact serve_eq hexecute
    exact Runs.Reaches.refl.tail (.request peer id false) rfl hstep
  cases hcall : op.call with
  | get key =>
    have hexecute : (c.replicas peer).execute store (op.call.action id false)
        = .ok (c.replicas peer, [.read ⟨id, key⟩ ((tables peer).value key)]) := by
      rw [hcall, Broadcast.action]
      simp only [Replica.execute, hphase, (h.stores peer).readValue hstore hphase]
      rfl
    exact ⟨_, _, hrequest hexecute, rfl,
      List.mem_append_right _ (List.mem_map.mpr ⟨_, List.mem_singleton_self _, rfl⟩), rfl,
      fun peer' hup => up_withReplica hphase hup⟩
  | set key target =>
    have hexecute : (c.replicas peer).execute store (op.call.action id false)
        = .ok ({ c.replicas peer with
            waiting := (c.replicas peer).waiting ++ [⟨id, key, target⟩] }, []) := by
      rw [hcall, Broadcast.action]
      simp only [Replica.execute, hphase]
    obtain ⟨table', hserves⟩ := (h.stores peer).execute hL hstore hexecute
    have hwaiting : ⟨id, key, target⟩ ∈ (c.replicas peer).waiting ++ [⟨id, key, target⟩] :=
      List.mem_append_right _ (List.mem_singleton_self _)
    obtain ⟨r, replies, hleads, hreply, hr⟩ :=
      hserves.stores.exists_wrote hL hstore hphase hwaiting
    refine ⟨_, .wrote ⟨id, key, target⟩, (hrequest hexecute).trans (proceeds_of_leads hleads ?_), rfl,
      List.mem_append_right _ (List.mem_map.mpr ⟨_, hreply, rfl⟩), rfl, fun peer' hup => ?_⟩
    · exact c.withReplica_self peer _ _
    · refine up_withReplica hr (up_withReplica ?_ hup)
      exact hphase

/-- One more peer replies. -/
theorem Agrees.exists_collect (hL : L.Spec) (hstore : store.Spec) (h : c.Agrees store tables)
    {id : ℕ} {op : Operation n Key Value} (hop : c.operations[id]? = some op)
    (hawaiting : op.progress = .awaiting) (hlength : op.replies.length < majority n) {peer : Fin n}
    (hpeer : peer ∉ op.peers) (hphase : (c.replicas peer).node.phase = .up) :
    ∃ c' op', c.Proceeds store c' ∧ c'.operations[id]? = some op' ∧ op'.progress = .awaiting ∧
      op'.replies.length = op.replies.length + 1 ∧
        ∀ peer', (c.replicas peer').node.phase = .up → (c'.replicas peer').node.phase = .up := by
  obtain ⟨c₁, reply, hproceeds, hoperations, hreply, hrpc, hup⟩ :=
    h.exists_reply hL hstore hop hphase
  obtain ⟨index, hindex⟩ := List.getElem?_of_mem hreply
  have hreceive : op.receive peer reply = { op with replies := op.replies ++ [(peer, reply)] } := by
    rw [Operation.receive, hawaiting]
    exact if_neg fun hor => hor.elim hpeer (not_le.mpr hlength)
  have hstep : c₁.execute store (.reply index) = .ok { c₁ with
      operations := c₁.operations.modify reply.rpc fun op => op.receive peer reply } := by
    simp only [Cluster.execute, hindex]
  refine ⟨_, { op with replies := op.replies ++ [(peer, reply)] },
    hproceeds.tail (.reply index) rfl hstep, ?_, hawaiting, List.length_append, hup⟩
  · show (c₁.operations.modify reply.rpc fun op => op.receive peer reply)[id]? = _
    rw [hoperations, List.getElem?_modify, hop, hrpc]
    simp [hreceive]

/-- A peer that has not replied yet. -/
theorem exists_missing {peers up : List (Fin n)} (hup : up.Nodup) (hlength : peers.length < up.length) :
    ∃ peer ∈ up, peer ∉ peers := by
  by_contra hall
  push Not at hall
  exact absurd (hup.subperm hall).length_le (not_le.mpr hlength)

/-- The quorum can be collected. -/
theorem Agrees.exists_quorum (hL : L.Spec) (hstore : store.Spec) (h : c.Agrees store tables)
    {id : ℕ} {op : Operation n Key Value} (hop : c.operations[id]? = some op)
    (hawaiting : op.progress = .awaiting) {up : List (Fin n)} (hnodup : up.Nodup)
    (hmajority : majority n ≤ up.length) (hup : ∀ peer ∈ up, (c.replicas peer).node.phase = .up) :
    ∃ c' op', c.Proceeds store c' ∧ c'.operations[id]? = some op' ∧ op'.progress = .awaiting ∧
      op'.replies.length = majority n := by
  have hle := (h.collected id op hop).length
  obtain ⟨missing, hmissing⟩ : ∃ missing, op.replies.length + missing = majority n :=
    ⟨_, Nat.add_sub_of_le hle⟩
  induction missing generalizing c op tables with
  | zero => exact ⟨c, op, Runs.Reaches.refl, hop, hawaiting, hmissing⟩
  | succ missing ih =>
    have hlength : op.replies.length < majority n := by omega
    obtain ⟨peer, hpeer, hnew⟩ : ∃ peer ∈ up, peer ∉ op.peers := by
      refine exists_missing hnodup ?_
      rw [Operation.peers, List.length_map]
      exact hlength.trans_le hmajority
    obtain ⟨c₁, op₁, hproceeds, hop₁, hawaiting₁, hlength₁, hup₁⟩ :=
      h.exists_collect hL hstore hop hawaiting hlength hnew (hup peer hpeer)
    obtain ⟨tables₁, hagrees₁⟩ := h.proceeds hL hstore hproceeds
    obtain ⟨c', op', hproceeds', hrest⟩ := ih hagrees₁ hop₁ hawaiting₁
      (fun peer hpeer => hup₁ peer (hup peer hpeer)) (by omega) (by omega)
    exact ⟨c', op', hproceeds.trans hproceeds', hrest⟩

omit [Std.LawfulEqOrd DbKey] in
/-- A fiber that has its quorum returns. -/
theorem Agrees.exists_complete (h : c.Agrees store tables) {id : ℕ} {op : Operation n Key Value}
    (hop : c.operations[id]? = some op) (hawaiting : op.progress = .awaiting)
    (hlength : op.replies.length = majority n) :
    ∃ value, op.complete = .ok { op with progress := .returned value } := by
  have hresult : ∃ value, op.result = .ok value := by
    rw [Operation.result]
    cases hcall : op.call with
    | set key target => exact ⟨none, rfl⟩
    | get key =>
      have hne : op.values ≠ [] := by
        have hpos : 0 < op.replies.length := by
          rw [hlength, majority]
          exact Nat.succ_pos _
        obtain ⟨⟨peer, reply⟩, hreply⟩ := List.exists_mem_of_length_pos hpos
        obtain ⟨v, hv, -⟩ := h.exists_read hop hcall hreply
        exact List.ne_nil_of_mem (List.mem_filterMap.mpr ⟨_, hreply, hv⟩)
      obtain ⟨v, -, hfreshest, -⟩ : ∃ v ∈ op.values, freshest StampedValue.stamp op.values = some v ∧
          ∀ v' ∈ op.values, v'.stamp ≤ v.stamp := exists_freshest hne
      refine ⟨some v.value, ?_⟩
      dsimp only
      rw [findMostRecent, hfreshest]
      rfl
  obtain ⟨value, hvalue⟩ := hresult
  refine ⟨value, ?_⟩
  rw [Operation.complete, hawaiting]
  dsimp only
  rw [if_pos hlength, hvalue]
  rfl

/-- **Availability.**  In any run of a cluster, with any crashes, lost messages and clocks: while
the nodes of a majority are up, every operation that is still awaiting its quorum can return,
and for this no node has to start and no other operation has to begin. -/
theorem available_of_reaches (hL : L.Spec) (hstore : store.Spec) {globalNow : ℕ}
    {wallClocks : Fin n → WallClock}
    (hrun : Runs.Reaches (execute store) (fun _ _ => True) (start globalNow wallClocks) c) {id : ℕ}
    {op : Operation n Key Value} (hop : c.operations[id]? = some op)
    (hawaiting : op.progress = .awaiting) {up : List (Fin n)} (hnodup : up.Nodup)
    (hmajority : majority n ≤ up.length) (hup : ∀ peer ∈ up, (c.replicas peer).node.phase = .up) :
    ∃ c' op' value, c.Proceeds store c' ∧ c'.operations[id]? = some op' ∧
      op'.progress = .returned value := by
  obtain ⟨tables, hagrees⟩ := agrees_of_reaches hL hstore hrun
  obtain ⟨c₁, op₁, hproceeds, hop₁, hawaiting₁, hlength⟩ :=
    hagrees.exists_quorum hL hstore hop hawaiting hnodup hmajority hup
  obtain ⟨tables₁, hagrees₁⟩ := hagrees.proceeds hL hstore hproceeds
  obtain ⟨value, hcomplete⟩ := hagrees₁.exists_complete hop₁ hawaiting₁ hlength
  have hstep : c₁.execute store (.complete id) = .ok { c₁ with
      operations := c₁.operations.set id { op₁ with progress := .returned value } } := by
    simp only [Cluster.execute, hop₁, hcomplete]
    rfl
  exact ⟨_, { op₁ with progress := .returned value }, value,
    hproceeds.tail (.complete id) rfl hstep,
    List.getElem?_set_self (List.getElem?_eq_some_iff.mp hop₁).1, rfl⟩

end Cluster

/-! ## A short run -/

/-- A `Get` has begun, and nobody has replied to it yet. -/
def awaitingCluster : Option (Cluster recordLog 3 ℕ Bool) :=
  Runs.exec (Cluster.execute recordStore) (fun _ _ => True) regularStart (regularRun.take 29)

/-- **An example of availability.** -/
theorem available_of_reaches_awaitingCluster : ∃ c ∈ awaitingCluster, ∃ c' op' value,
    c.Proceeds recordStore c' ∧ c'.operations[1]? = some op' ∧ op'.progress = .returned value := by
  have hchecked : ∃ c ∈ awaitingCluster, (∃ op ∈ c.operations[1]?, op.progress = .awaiting) ∧
      ∀ peer ∈ [0, 1], (c.replicas peer).node.phase = .up := by
    decide +kernel
  obtain ⟨c, hc, ⟨op, hop, hawaiting⟩, hup⟩ := hchecked
  exact ⟨c, hc, Cluster.available_of_reaches spec_recordLog spec_recordStore
    (Runs.reaches_of_exec hc) hop hawaiting (by decide) (by decide) hup⟩

end Whirl.Kv
