/-
# Reads see the writes that had returned

A write quorum and a read quorum have a replica in common, and a replica does not take back
what it acknowledged.  So a `Get` returns a value at least as new as that of every `Set` that
had returned when it began.

* `Operation.Later` : what can become of a fiber;
* `Cluster.Agrees` : the invariant, with the table that each replica stores;
* `Agrees.execute` : every action keeps it;
* `regular_of_reaches` : what a `Get` returns.
-/
import WhirlMatrix.Kv.Cluster
import WhirlMatrix.Kv.Durable

namespace Whirl.Kv

open Db LastWriter Clocks

/-! ## Fibers -/

namespace Operation

variable {n : ℕ} {Key Value : Type} {op op' : Operation n Key Value}

/-- A fiber goes on; when it has returned nothing changes any more. -/
structure Later (op op' : Operation n Key Value) : Prop where
  call : op'.call = op.call
  begunAt : op'.begunAt = op.begunAt
  after : op'.after = op.after
  returned : op.Returned → op' = op

theorem Later.refl (op : Operation n Key Value) : op.Later op := ⟨rfl, rfl, rfl, fun _ => rfl⟩

theorem later_receive (op : Operation n Key Value) (peer : Fin n) (reply : Reply ℕ Key Value) :
    op.Later (op.receive peer reply) := by
  unfold receive
  cases hprogress : op.progress with
  | awaiting =>
    dsimp only
    split
    · exact Later.refl op
    · refine ⟨rfl, rfl, rfl, fun hreturned => ?_⟩
      rw [Returned, hprogress] at hreturned
      exact hreturned.elim
  | _ => exact Later.refl op

theorem later_crash (op : Operation n Key Value) (server : Fin n) : op.Later (op.crash server) := by
  unfold crash
  cases hprogress : op.progress with
  | awaiting =>
    dsimp only
    split
    · refine ⟨rfl, rfl, rfl, fun hreturned => ?_⟩
      rw [Returned, hprogress] at hreturned
      exact hreturned.elim
    · exact Later.refl op
  | _ => exact Later.refl op

theorem complete_eq_ok (h : op.complete = .ok op') : op.progress = .awaiting ∧
    op.replies.length = majority n ∧
      ∃ value, op.result = .ok value ∧ op' = { op with progress := .returned value } := by
  unfold complete at h
  cases hprogress : op.progress with
  | awaiting =>
    rw [hprogress] at h
    dsimp only at h
    split at h
    · rename_i hlength
      obtain ⟨value, hvalue, h⟩ := Outcome.bind_eq_ok.mp h
      exact ⟨rfl, hlength, value, hvalue, (Outcome.pure_eq_ok.mp h).symm⟩
    · cases h
  | _ =>
    rw [hprogress] at h
    cases h

theorem later_complete (h : op.complete = .ok op') : op.Later op' := by
  obtain ⟨hprogress, -, value, -, rfl⟩ := complete_eq_ok h
  refine ⟨rfl, rfl, rfl, fun hreturned => ?_⟩
  rw [Returned, hprogress] at hreturned
  exact hreturned.elim

/-- The replies of a fiber, and from whom. -/
theorem receive_cases (op : Operation n Key Value) (peer : Fin n) (reply : Reply ℕ Key Value) :
    op.receive peer reply = op ∨ op.progress = .awaiting ∧ peer ∉ op.peers ∧
      op.replies.length < majority n ∧
        op.receive peer reply = { op with replies := op.replies ++ [(peer, reply)] } := by
  unfold receive
  cases hprogress : op.progress with
  | awaiting =>
    dsimp only
    split
    · exact Or.inl rfl
    · rename_i hnew
      exact Or.inr ⟨rfl, fun hmem => hnew (Or.inl hmem), not_le.mp fun hle => hnew (Or.inr hle), rfl⟩
  | _ => exact Or.inl rfl

theorem crash_cases (op : Operation n Key Value) (server : Fin n) :
    op.crash server = op ∨ op.crash server = { op with progress := .interrupted } := by
  unfold crash
  cases hprogress : op.progress with
  | awaiting =>
    dsimp only
    split
    · exact Or.inr rfl
    · exact Or.inl rfl
  | _ => exact Or.inl rfl

end Operation

/-! ## The invariant -/

variable {DbKey DbValue Key Value : Type} [Ord DbKey] [Std.TransOrd DbKey]
  {L : Libraries DbKey DbValue} {n : ℕ} {store : KVStore Key Value DbKey DbValue}

namespace Cluster

/-- An operation has made a call. -/
def Requested (c : Cluster L n Key Value) (id : ℕ) (call : Broadcast Key Value) : Prop :=
  ∃ op, c.operations[id]? = some op ∧ op.call = call

/-- A value of a key is the initial one or comes from a `Set`. -/
def Written [Inhabited Value] (c : Cluster L n Key Value) (key : Key) (v : StampedValue Value) :
    Prop :=
  v = StampedValue.initial ∨ ∃ id, c.Requested id (.set key v)

/-- An operation had returned when another one began. -/
def Precedes (c : Cluster L n Key Value) (op op' : Operation n Key Value) : Prop :=
  ∃ id ∈ op'.after, c.operations[id]? = some op

/-- A value that a peer returned for an operation is at least as new as those of the writes
that the peer acknowledged, of the ones that precede the operation. -/
def Fresh (c : Cluster L n Key Value) (peer : Fin n) (id : ℕ) (key : Key) (v : StampedValue Value) :
    Prop :=
  ∀ op, c.operations[id]? = some op → ∀ write target, c.Precedes write op →
    write.call = .set key target → peer ∈ write.peers → target.stamp ≤ v.stamp

/-- What an operation has collected. -/
structure Collected (c : Cluster L n Key Value) (id : ℕ) (op : Operation n Key Value) : Prop where
  replies : ∀ reply ∈ op.replies, reply ∈ c.replies ∧ reply.2.rpc = id
  nodup : op.peers.Nodup
  length : op.replies.length ≤ majority n
  after : ∀ id' ∈ op.after, ∃ op', c.operations[id']? = some op' ∧ op'.Returned
  returned : ∀ value, op.progress = .returned value → op.replies.length = majority n

variable [DecidableEq Key] [Inhabited Value]

/-- The replicas store these tables, and all messages agree with them. -/
structure Agrees (store : KVStore Key Value DbKey DbValue) (c : Cluster L n Key Value)
    (tables : Fin n → Table Key Value) : Prop where
  stores : ∀ peer, (c.replicas peer).Stores store (tables peer)
  writes : ∀ peer, ∀ call ∈ (c.replicas peer).writes,
    c.Requested call.rpc (.set call.key call.targetValue)
  reading : ∀ peer, ∀ call ∈ (c.replicas peer).reading, c.Requested call.rpc (.get call.key)
  holds : ∀ peer key v, tables peer key = some v → ∃ id, c.Requested id (.set key v)
  wrote : ∀ peer call, (peer, .wrote call) ∈ c.replies →
    c.Requested call.rpc (.set call.key call.targetValue) ∧
      rank StampedValue.stamp (some call.targetValue) ≤ rank StampedValue.stamp (tables peer call.key)
  read : ∀ peer call v, (peer, .read call v) ∈ c.replies → c.Requested call.rpc (.get call.key) ∧
    c.Written call.key v ∧ c.Fresh peer call.rpc call.key v
  collected : ∀ id op, c.operations[id]? = some op → c.Collected id op

/-- All operations go on. -/
def Evolves (c c' : Cluster L n Key Value) : Prop :=
  ∀ (id : ℕ) (op : Operation n Key Value), c.operations[id]? = some op →
    ∃ op', c'.operations[id]? = some op' ∧ op.Later op'

variable {c c' : Cluster L n Key Value} {tables : Fin n → Table Key Value}

omit [DecidableEq Key] [Inhabited Value] in
theorem Evolves.requested (h : c.Evolves c') {id : ℕ} {call : Broadcast Key Value}
    (hcall : c.Requested id call) : c'.Requested id call := by
  obtain ⟨op, hop, rfl⟩ := hcall
  obtain ⟨op', hop', hlater⟩ := h id op hop
  exact ⟨op', hop', hlater.call⟩

omit [DecidableEq Key] in
theorem Evolves.written (h : c.Evolves c') {key : Key} {v : StampedValue Value}
    (hv : c.Written key v) : c'.Written key v :=
  hv.imp_right fun ⟨id, hcall⟩ => ⟨id, h.requested hcall⟩

omit [DecidableEq Key] [Inhabited Value] in
/-- What had returned does not change, so freshness is kept. -/
theorem Evolves.fresh (h : c.Evolves c') (hcollected : ∀ id op, c.operations[id]? = some op →
    c.Collected id op) {peer : Fin n} {id : ℕ} {key : Key} {v : StampedValue Value}
    {call : Broadcast Key Value} (hcall : c.Requested id call) (hv : c.Fresh peer id key v) :
    c'.Fresh peer id key v := by
  rintro op' hop' write target ⟨id', hid', hwrite⟩ htarget hpeer
  obtain ⟨op, hop, -⟩ := hcall
  obtain ⟨op'', hop'', hlater⟩ := h id op hop
  obtain rfl := Option.some.inj (hop'.symm.trans hop'')
  rw [hlater.after] at hid'
  obtain ⟨write', hwrite', hreturned⟩ := (hcollected id op hop).after id' hid'
  obtain ⟨write'', hwrite'', hlater'⟩ := h id' write' hwrite'
  obtain rfl := Option.some.inj (hwrite.symm.trans hwrite'')
  obtain rfl := hlater'.returned hreturned
  exact hv op hop write target ⟨id', hid', hwrite'⟩ htarget hpeer

/-- Fibers of coordinators go on. -/
theorem Agrees.evolve (h : c.Agrees store tables) (hreplicas : c'.replicas = c.replicas)
    (hreplies : c'.replies = c.replies) (hevolves : c.Evolves c')
    (hcollected : ∀ id op, c'.operations[id]? = some op → c'.Collected id op) :
    c'.Agrees store tables where
  stores peer := hreplicas ▸ h.stores peer
  writes peer call hcall := hevolves.requested (h.writes peer call (hreplicas ▸ hcall))
  reading peer call hcall := hevolves.requested (h.reading peer call (hreplicas ▸ hcall))
  holds peer key v hv := (h.holds peer key v hv).imp fun _ => hevolves.requested
  wrote peer call hcall := (h.wrote peer call (hreplies ▸ hcall)).imp_left hevolves.requested
  read peer call v hcall := by
    obtain ⟨hrequested, hwritten, hfresh⟩ := h.read peer call v (hreplies ▸ hcall)
    exact ⟨hevolves.requested hrequested, hevolves.written hwritten,
      hevolves.fresh h.collected hrequested hfresh⟩
  collected := hcollected

/-! ## Actions of the replicas -/

variable [Std.LawfulEqOrd DbKey]

omit [Std.LawfulEqOrd DbKey] in
/-- Who acknowledged a write stores its stamp. -/
theorem Agrees.stamp_le (h : c.Agrees store tables) {id : ℕ} {write : Operation n Key Value}
    {key : Key} {target : StampedValue Value} (hwrite : c.operations[id]? = some write)
    (hcall : write.call = .set key target) {peer : Fin n} (hpeer : peer ∈ write.peers) :
    rank StampedValue.stamp (some target) ≤ rank StampedValue.stamp (tables peer key) := by
  obtain ⟨⟨peer, reply⟩, hreply, rfl⟩ := List.mem_map.mp hpeer
  obtain ⟨hreply, hrpc⟩ := (h.collected id write hwrite).replies _ hreply
  cases reply with
  | wrote call =>
    obtain ⟨⟨write', hwrite', hcall'⟩, hstamp⟩ := h.wrote peer call hreply
    obtain rfl : call.rpc = id := hrpc
    obtain rfl := Option.some.inj (hwrite.symm.trans hwrite')
    obtain ⟨rfl, rfl⟩ := Broadcast.set.inj (hcall.symm.trans hcall')
    exact hstamp
  | read call v =>
    obtain ⟨⟨write', hwrite', hcall'⟩, -⟩ := h.read peer call v hreply
    obtain rfl : call.rpc = id := hrpc
    obtain rfl := Option.some.inj (hwrite.symm.trans hwrite')
    cases hcall.symm.trans hcall'

/-- An action of a replica, when the calls that it brings were made. -/
theorem Agrees.serve (hL : L.Spec) (hstore : store.Spec) (h : c.Agrees store tables) {peer : Fin n}
    {action : ReplicaAction ℕ Key Value}
    (hwrite : ∀ call, action = .localWrite call →
      c.Requested call.rpc (.set call.key call.targetValue))
    (hread : ∀ call cacheMiss, action = .localRead call cacheMiss →
      c.Requested call.rpc (.get call.key))
    (hserve : c.serve store peer action = .ok c') :
    c'.operations = c.operations ∧ ∃ tables', c'.Agrees store tables' := by
  obtain ⟨⟨r, replies⟩, hexecute, hserve⟩ := Outcome.bind_eq_ok.mp hserve
  obtain rfl := Outcome.pure_eq_ok.mp hserve
  obtain ⟨table', hserves⟩ := (h.stores peer).execute hL hstore hexecute
  -- Only the table of the replica that serves changes, and its stamps only rise.
  have hrank : ∀ peer' key, rank StampedValue.stamp (tables peer' key)
      ≤ rank StampedValue.stamp (Function.update tables peer table' peer' key) := by
    apply (Function.forall_update_iff tables fun peer' table => ∀ key,
      rank StampedValue.stamp (tables peer' key) ≤ rank StampedValue.stamp (table key)).mpr
    exact ⟨hserves.raises.rank_le, fun peer' _ key => le_refl _⟩
  have hholds : ∀ peer' key v, Function.update tables peer table' peer' key = some v →
      ∃ id, c.Requested id (.set key v) := by
    apply (Function.forall_update_iff tables fun _ table => ∀ key v, table key = some v →
      ∃ id, c.Requested id (.set key v)).mpr
    refine ⟨fun key v hv => ?_, fun peer' _ => h.holds peer'⟩
    rcases hserves.raises.eq_or_mem hv with hv | ⟨call, hcall, rfl, rfl⟩
    · exact h.holds peer key v hv
    · exact ⟨call.rpc, h.writes peer call hcall⟩
  -- The calls in progress grow by the one that arrives, and by nothing else.
  have hwrites : ∀ peer', ∀ call ∈ (Function.update c.replicas peer r peer').writes,
      c.Requested call.rpc (.set call.key call.targetValue) := by
    apply (Function.forall_update_iff c.replicas fun _ r => ∀ call ∈ r.writes,
      c.Requested call.rpc (.set call.key call.targetValue)).mpr
    refine ⟨fun call hcall => ?_, fun peer' _ => h.writes peer'⟩
    rcases hserves.writes call hcall with hcall | haction
    · exact h.writes peer call hcall
    · exact hwrite call haction
  have hreading : ∀ peer', ∀ call ∈ (Function.update c.replicas peer r peer').reading,
      c.Requested call.rpc (.get call.key) := by
    apply (Function.forall_update_iff c.replicas fun _ r => ∀ call ∈ r.reading,
      c.Requested call.rpc (.get call.key)).mpr
    refine ⟨fun call hcall => ?_, fun peer' _ => h.reading peer'⟩
    rcases hserves.reading call hcall with hcall | ⟨cacheMiss, haction⟩
    · exact h.reading peer call hcall
    · exact hread call cacheMiss haction
  refine ⟨rfl, Function.update tables peer table', fun peer' => ?_, hwrites, hreading, hholds,
    fun peer' call hcall => ?_, fun peer' call v hcall => ?_, fun id op hop => ?_⟩
  · by_cases hpeer : peer' = peer
    · subst hpeer
      simp only [Function.update_self]
      exact hserves.stores
    · simp only [Function.update_of_ne hpeer]
      exact h.stores peer'
  · rcases List.mem_append.mp hcall with hcall | hcall
    · exact (h.wrote peer' call hcall).imp_right fun hstamp => hstamp.trans (hrank peer' call.key)
    · obtain ⟨reply, hreply, heq⟩ := List.mem_map.mp hcall
      obtain ⟨rfl, rfl⟩ := Prod.mk.inj heq
      obtain ⟨hmem, hstamp⟩ := hserves.wrote call hreply
      rw [Function.update_self]
      exact ⟨h.writes peer call hmem, hstamp⟩
  · rcases List.mem_append.mp hcall with hcall | hcall
    · exact h.read peer' call v hcall
    · obtain ⟨reply, hreply, heq⟩ := List.mem_map.mp hcall
      obtain ⟨rfl, rfl⟩ := Prod.mk.inj heq
      obtain ⟨rfl, hmem⟩ := hserves.read call v hreply
      refine ⟨?_, ?_, fun op _ write target hprecedes htarget hpeer => ?_⟩
      · rcases hmem with hmem | ⟨cacheMiss, haction⟩
        · exact h.reading peer call hmem
        · exact hread call cacheMiss haction
      · rw [Table.value]
        cases hvalue : table' call.key with
        | none => exact Or.inl rfl
        | some v => exact Or.inr (hholds peer call.key v (by rw [Function.update_self, hvalue]))
      -- A write that precedes this read was stamped into the old table already.
      · obtain ⟨id, -, hwrite⟩ := hprecedes
        exact Table.stamp_le_value
          ((h.stamp_le hwrite htarget hpeer).trans (hserves.raises.rank_le call.key))
  · have hcollected := h.collected id op hop
    exact { hcollected with
      replies := fun reply hreply =>
        (hcollected.replies reply hreply).imp_left (List.mem_append_left _) }

/-! ## Actions of the coordinators -/

omit [Std.LawfulEqOrd DbKey] [DecidableEq Key] [Inhabited Value] in
theorem mem_returned {id : ℕ} (h : id ∈ c.returned) :
    ∃ op, c.operations[id]? = some op ∧ op.Returned := by
  obtain ⟨-, hreturned⟩ := List.mem_filter.mp h
  cases hop : c.operations[id]? with
  | none =>
    rw [hop] at hreturned
    cases hreturned
  | some op =>
    rw [hop] at hreturned
    exact ⟨op, rfl, of_decide_eq_true hreturned⟩

omit [Std.LawfulEqOrd DbKey] [DecidableEq Key] [Inhabited Value] in
/-- What an operation has collected stays with it. -/
theorem Collected.evolve {id : ℕ} {op : Operation n Key Value} (h : c.Collected id op)
    (hevolves : c.Evolves c') (hreplies : c'.replies = c.replies) : c'.Collected id op where
  replies reply hreply := hreplies ▸ h.replies reply hreply
  nodup := h.nodup
  length := h.length
  after id' hid' := by
    obtain ⟨write, hwrite, hreturned⟩ := h.after id' hid'
    obtain ⟨write', hwrite', hlater⟩ := hevolves id' write hwrite
    obtain rfl := hlater.returned hreturned
    exact ⟨write', hwrite', hreturned⟩
  returned := h.returned

omit [Std.LawfulEqOrd DbKey] in
/-- A fiber begins. -/
theorem Agrees.begin (h : c.Agrees store tables) {coordinator : Fin n} {call : Broadcast Key Value}
    (hbegin : c.begin coordinator call = .ok c') : c.Evolves c' ∧ c'.Agrees store tables := by
  rw [Cluster.begin] at hbegin
  split at hbegin
  · obtain rfl := Except.ok.inj hbegin
    have hevolves : c.Evolves { c with operations := c.operations ++ [{
        coordinator := coordinator
        call := call
        begunAt := c.globalNow
        after := c.returned }] } := by
      intro id op hop
      have hid : id < c.operations.length := (List.getElem?_eq_some_iff.mp hop).1
      exact ⟨op, (List.getElem?_append_left hid).trans hop, Operation.Later.refl op⟩
    refine ⟨hevolves, h.evolve rfl rfl hevolves fun id op hop => ?_⟩
    by_cases hid : id < c.operations.length
    · rw [List.getElem?_append_left hid] at hop
      exact (h.collected id op hop).evolve hevolves rfl
    · rw [List.getElem?_append_right (not_lt.mp hid)] at hop
      obtain rfl := List.mem_singleton.mp (List.mem_of_getElem? hop)
      refine ⟨nofun, List.nodup_nil, Nat.zero_le _, fun id' hid' => ?_, nofun⟩
      obtain ⟨op', hop', hreturned⟩ := mem_returned hid'
      obtain ⟨op'', hop'', hlater⟩ := hevolves id' op' hop'
      obtain rfl := hlater.returned hreturned
      exact ⟨op'', hop'', hreturned⟩
  · cases hbegin

omit [Std.LawfulEqOrd DbKey] in
/-- Some of the fibers go on, each to a state that agrees with the messages. -/
theorem Agrees.change (h : c.Agrees store tables) {f : ℕ → Operation n Key Value → Operation n Key Value}
    (hoperations : ∀ id, c'.operations[id]? = (c.operations[id]?).map (f id))
    (hreplicas : c'.replicas = c.replicas) (hreplies : c'.replies = c.replies)
    (hlater : ∀ (id : ℕ) (op : Operation n Key Value), c.operations[id]? = some op →
      op.Later (f id op))
    (hcollected : ∀ (id : ℕ) (op : Operation n Key Value), c.operations[id]? = some op →
      c.Collected id op → c.Collected id (f id op)) :
    c.Evolves c' ∧ c'.Agrees store tables := by
  have hevolves : c.Evolves c' := by
    intro id op hop
    refine ⟨f id op, ?_, hlater id op hop⟩
    rw [hoperations, hop]
    rfl
  refine ⟨hevolves, h.evolve hreplicas hreplies hevolves fun id op' hop' => ?_⟩
  rw [hoperations] at hop'
  obtain ⟨op, hop, rfl⟩ := Option.map_eq_some_iff.mp hop'
  exact (hcollected id op hop (h.collected id op hop)).evolve hevolves hreplies

omit [Std.LawfulEqOrd DbKey] in
/-- A reply reaches its caller. -/
theorem Agrees.receive (h : c.Agrees store tables) {peer : Fin n} {reply : Reply ℕ Key Value}
    (hreply : (peer, reply) ∈ c.replies) :
    c.Evolves { c with
        operations := c.operations.modify reply.rpc fun op => op.receive peer reply } ∧
      Agrees store { c with
        operations := c.operations.modify reply.rpc fun op => op.receive peer reply } tables := by
  refine h.change (f := fun id op => if reply.rpc = id then op.receive peer reply else op)
    (fun id => ?_) rfl rfl (fun id op hop => ?_) fun id op hop hcollected => ?_
  · rw [List.getElem?_modify]
    split <;> simp
  · split
    · exact op.later_receive peer reply
    · exact Operation.Later.refl op
  · split
    · rename_i hrpc
      rcases op.receive_cases peer reply with heq | ⟨hprogress, hpeer, hlength, heq⟩
      · rw [heq]
        exact hcollected
      · rw [heq]
        refine ⟨fun reply' hreply' => ?_, ?_, ?_, hcollected.after, fun value hvalue => ?_⟩
        · rcases List.mem_append.mp hreply' with hreply' | hreply'
          · exact hcollected.replies reply' hreply'
          · obtain rfl := List.mem_singleton.mp hreply'
            exact ⟨hreply, hrpc⟩
        · rw [Operation.peers, List.map_append]
          exact List.nodup_append_comm.mp (List.nodup_cons.mpr ⟨hpeer, hcollected.nodup⟩)
        · rw [List.length_append]
          exact hlength
        · cases hprogress.symm.trans hvalue
    · exact hcollected

omit [Std.LawfulEqOrd DbKey] in
/-- A fiber returns. -/
theorem Agrees.complete (h : c.Agrees store tables) {id : ℕ} {op op' : Operation n Key Value}
    (hop : c.operations[id]? = some op) (hcomplete : op.complete = .ok op') :
    c.Evolves { c with operations := c.operations.set id op' } ∧
      Agrees store { c with operations := c.operations.set id op' } tables := by
  refine h.change (f := fun id' op => if id = id' then op' else op)
    (fun id' => ?_) rfl rfl (fun id' op'' hop'' => ?_) fun id' op'' hop'' hcollected => ?_
  · rw [List.getElem?_set]
    by_cases hid : id = id'
    · subst hid
      rw [hop]
      simp [(List.getElem?_eq_some_iff.mp hop).1]
    · simp [hid]
  · split
    · rename_i hid
      subst hid
      obtain rfl := Option.some.inj (hop.symm.trans hop'')
      exact Operation.later_complete hcomplete
    · exact Operation.Later.refl op''
  · split
    · rename_i hid
      subst hid
      obtain rfl := Option.some.inj (hop.symm.trans hop'')
      obtain ⟨-, hlength, value, -, rfl⟩ := Operation.complete_eq_ok hcomplete
      exact { hcollected with returned := fun _ _ => hlength }
    · exact hcollected

omit [Std.LawfulEqOrd DbKey] in
/-- The fibers of a server are gone. -/
theorem Agrees.interrupt (h : c.Agrees store tables) (server : Fin n) :
    c.Evolves { c with operations := c.operations.map fun op => op.crash server } ∧
      Agrees store { c with operations := c.operations.map fun op => op.crash server } tables := by
  refine h.change (f := fun _ op => op.crash server) (fun id => List.getElem?_map) rfl rfl
    (fun id op hop => op.later_crash server) fun id op hop hcollected => ?_
  rcases op.crash_cases server with heq | heq
  · rw [heq]
    exact hcollected
  · rw [heq]
    exact { hcollected with returned := nofun }

/-- **Every action** keeps the tables and the messages in agreement. -/
theorem Agrees.execute (hL : L.Spec) (hstore : store.Spec) (h : c.Agrees store tables)
    {action : ClusterAction n Key Value} (hexecute : c.execute store action = .ok c') :
    c.Evolves c' ∧ ∃ tables', c'.Agrees store tables' := by
  -- A replica that serves changes no operation; what it is asked for was requested before.
  have hserve {peer : Fin n} {action : ReplicaAction ℕ Key Value} {c' : Cluster L n Key Value}
      (hwrite : ∀ call, action = .localWrite call →
        c.Requested call.rpc (.set call.key call.targetValue))
      (hread : ∀ call cacheMiss, action = .localRead call cacheMiss →
        c.Requested call.rpc (.get call.key))
      (hserve : c.serve store peer action = .ok c') :
      c.Evolves c' ∧ ∃ tables', c'.Agrees store tables' := by
    obtain ⟨hoperations, hagrees⟩ := h.serve hL hstore hwrite hread hserve
    refine ⟨fun id op hop => ⟨op, ?_, Operation.Later.refl op⟩, hagrees⟩
    rw [hoperations]
    exact hop
  -- Clocks and time touch nothing that the invariant speaks of.
  have hsame {c' : Cluster L n Key Value} (hoperations : c'.operations = c.operations)
      (hreplicas : c'.replicas = c.replicas) (hreplies : c'.replies = c.replies) :
      c.Evolves c' ∧ ∃ tables', c'.Agrees store tables' := by
    refine (h.change (f := fun _ op => op) (fun id => ?_) hreplicas hreplies
      (fun id op _ => Operation.Later.refl op) fun id op _ hcollected => hcollected).imp_right
        fun hagrees => ⟨tables, hagrees⟩
    rw [hoperations, Option.map_id']
  cases action with
  | set coordinator key value => exact (h.begin hexecute).imp_right fun hagrees => ⟨tables, hagrees⟩
  | get coordinator key => exact (h.begin hexecute).imp_right fun hagrees => ⟨tables, hagrees⟩
  | request peer id cacheMiss =>
    simp only [Cluster.execute] at hexecute
    split at hexecute
    · rename_i op hop
      refine hserve (fun call haction => ?_) (fun call cacheMiss' haction => ?_) hexecute
      · cases hcall : op.call with
        | set key target =>
          rw [hcall] at haction
          obtain rfl := ReplicaAction.localWrite.inj haction
          exact ⟨op, hop, hcall⟩
        | get key =>
          rw [hcall] at haction
          cases haction
      · cases hcall : op.call with
        | set key target =>
          rw [hcall] at haction
          cases haction
        | get key =>
          rw [hcall] at haction
          obtain ⟨rfl, -⟩ := ReplicaAction.localRead.inj haction
          exact ⟨op, hop, hcall⟩
    · cases hexecute
  | replica peer action =>
    simp only [Cluster.execute] at hexecute
    split at hexecute
    · rename_i hinternal
      refine hserve (fun call haction => ?_) (fun call cacheMiss haction => ?_) hexecute
      · rw [haction] at hinternal
        cases hinternal
      · rw [haction] at hinternal
        cases hinternal
    · cases hexecute
  | reply index =>
    simp only [Cluster.execute] at hexecute
    split at hexecute
    · rename_i peer reply hreply
      obtain rfl := Except.ok.inj hexecute
      exact (h.receive (List.mem_of_getElem? hreply)).imp_right fun hagrees => ⟨tables, hagrees⟩
    · cases hexecute
  | complete id =>
    simp only [Cluster.execute] at hexecute
    split at hexecute
    · rename_i op hop
      obtain ⟨op', hcomplete, hexecute⟩ := Outcome.bind_eq_ok.mp hexecute
      obtain rfl := Outcome.pure_eq_ok.mp hexecute
      exact (h.complete hop hcomplete).imp_right fun hagrees => ⟨tables, hagrees⟩
    · cases hexecute
  | crash server written =>
    obtain ⟨c'', hcrash, hexecute⟩ := Outcome.bind_eq_ok.mp hexecute
    obtain rfl := Outcome.pure_eq_ok.mp hexecute
    -- A crash is an action of the replica, and it interrupts what the server coordinates.
    obtain ⟨hoperations, tables', hagrees⟩ := h.serve hL hstore (fun _ hne => by cases hne)
      (fun _ _ hne => by cases hne) hcrash
    obtain ⟨hevolves, hagrees⟩ := hagrees.interrupt server
    refine ⟨fun id op hop => hevolves id op ?_, tables', hagrees⟩
    rw [hoperations]
    exact hop
  | adjustWallClock server offset =>
    obtain rfl := Except.ok.inj hexecute
    exact hsame rfl rfl rfl
  | pass time =>
    obtain rfl := Except.ok.inj hexecute
    exact hsame rfl rfl rfl

/-! ## Runs -/

/-- A cluster that has just been made. -/
def start (globalNow : ℕ) (wallClocks : Fin n → WallClock) : Cluster L n Key Value where
  globalNow := globalNow
  wallClocks := wallClocks

omit [Std.LawfulEqOrd DbKey] in
theorem agrees_start (globalNow : ℕ) (wallClocks : Fin n → WallClock) :
    Agrees (L := L) store (start globalNow wallClocks) fun _ _ => none where
  stores _ := ⟨⟨[], Logged.nil, ⟨rfl, rfl, rfl, rfl⟩, rfl⟩, ⟨rfl, rfl⟩, fun _ => ⟨rfl, rfl, rfl⟩⟩
  writes := nofun
  reading := nofun
  holds := nofun
  wrote := nofun
  read := nofun
  collected := nofun

theorem agrees_of_reaches (hL : L.Spec) (hstore : store.Spec) {globalNow : ℕ}
    {wallClocks : Fin n → WallClock}
    (hrun : Runs.Reaches (execute store) (fun _ _ => True) (start globalNow wallClocks) c) :
    ∃ tables, c.Agrees store tables := by
  refine hrun.invariant (I := fun c => ∃ tables, c.Agrees store tables)
    ⟨_, agrees_start globalNow wallClocks⟩ ?_
  rintro c action c' ⟨tables, hagrees⟩ - hexecute
  exact (hagrees.execute hL hstore hexecute).2

omit [Std.LawfulEqOrd DbKey] [DecidableEq Key] [Inhabited Value] in
theorem lt_majority_add (n : ℕ) : n < majority n + majority n := by
  rw [majority]
  omega

omit [Std.LawfulEqOrd DbKey] in
/-- What a reader has collected. -/
theorem Agrees.exists_read (h : c.Agrees store tables) {id : ℕ} {op : Operation n Key Value}
    {key : Key} (hop : c.operations[id]? = some op) (hcall : op.call = .get key) {peer : Fin n}
    {reply : Reply ℕ Key Value} (hreply : (peer, reply) ∈ op.replies) :
    ∃ v, reply.value? = some v ∧ c.Written key v ∧ c.Fresh peer id key v := by
  obtain ⟨hreply, hrpc⟩ := (h.collected id op hop).replies _ hreply
  cases reply with
  | wrote call =>
    obtain ⟨⟨op', hop', hcall'⟩, -⟩ := h.wrote peer call hreply
    obtain rfl : call.rpc = id := hrpc
    obtain rfl := Option.some.inj (hop.symm.trans hop')
    cases hcall.symm.trans hcall'
  | read call v =>
    obtain ⟨⟨op', hop', hcall'⟩, hwritten, hfresh⟩ := h.read peer call v hreply
    obtain rfl : call.rpc = id := hrpc
    obtain rfl := Option.some.inj (hop.symm.trans hop')
    obtain rfl := Broadcast.get.inj (hcall.symm.trans hcall')
    exact ⟨v, rfl, hwritten, hfresh⟩

omit [Std.LawfulEqOrd DbKey] in
/-- What a `Get` returns, in a cluster whose messages agree with the tables of the replicas. -/
theorem Agrees.get_returns (h : c.Agrees store tables) {id : ℕ} {op : Operation n Key Value}
    {key : Key} (hop : c.operations[id]? = some op) (hcall : op.call = .get key)
    (hcomplete : c.execute store (.complete id) = .ok c') :
    ∃ v : StampedValue Value,
      c'.operations[id]? = some { op with progress := .returned (some v.value) } ∧
        c.Written key v ∧ ∀ write target, c.Precedes write op → write.call = .set key target →
          target.stamp ≤ v.stamp := by
  simp only [Cluster.execute, hop] at hcomplete
  obtain ⟨op', hop', hcomplete⟩ := Outcome.bind_eq_ok.mp hcomplete
  obtain rfl := Outcome.pure_eq_ok.mp hcomplete
  obtain ⟨-, hlength, value, hvalue, rfl⟩ := Operation.complete_eq_ok hop'
  rw [Operation.result, hcall] at hvalue
  obtain ⟨v, hrecent, hvalue⟩ := Outcome.bind_eq_ok.mp hvalue
  obtain rfl := Outcome.pure_eq_ok.mp hvalue
  have hfreshest : freshest StampedValue.stamp op.values = some v := by
    rw [findMostRecent] at hrecent
    split at hrecent
    · rename_i v' hv'
      rw [hv', Except.ok.inj hrecent]
    · cases hrecent
  refine ⟨v, ?_, ?_, fun write target hprecedes htarget => ?_⟩
  · exact List.getElem?_set_self (List.getElem?_eq_some_iff.mp hop).1
  · obtain ⟨⟨peer, reply⟩, hreply, hv⟩ := List.mem_filterMap.mp (mem_of_freshest hfreshest)
    obtain ⟨v', hv', hwritten, -⟩ := h.exists_read hop hcall hreply
    obtain rfl := Option.some.inj (hv.symm.trans hv')
    exact hwritten
  · -- The two majorities have a peer in common, and it read what it had acknowledged.
    have hcollected := h.collected id op hop
    obtain ⟨id', hid', hwrite⟩ := hprecedes
    obtain ⟨write', hwrite', hreturned⟩ := hcollected.after id' hid'
    obtain rfl := Option.some.inj (hwrite.symm.trans hwrite')
    have hcollected' := h.collected id' write hwrite
    have hlength' : write.replies.length = majority n := by
      cases hprogress : write.progress with
      | returned value => exact hcollected'.returned value hprogress
      | _ =>
        rw [Operation.Returned, hprogress] at hreturned
        exact hreturned.elim
    obtain ⟨peer, hpeer, hpeer'⟩ := exists_common hcollected.nodup hcollected'.nodup (by
      rw [Fintype.card_fin, Operation.peers, Operation.peers, List.length_map, List.length_map,
        hlength, hlength']
      exact lt_majority_add n)
    obtain ⟨⟨peer, reply⟩, hreply, rfl⟩ := List.mem_map.mp hpeer
    obtain ⟨v', hv', -, hfresh⟩ := h.exists_read hop hcall hreply
    have hmem : v' ∈ op.values := List.mem_filterMap.mpr ⟨_, hreply, hv'⟩
    have hle : rank StampedValue.stamp (some v') ≤ rank StampedValue.stamp (some v) := by
      rw [← hfreshest]
      exact rank_some_le_freshest hmem
    exact (hfresh op hop write target ⟨id', hid', hwrite⟩ htarget hpeer').trans
      (rank_some_le.mp hle)

/-- **A regular register.**  In any run of a cluster, with any number of operations at the same
time, any crashes and restarts, messages that are lost, late and repeated, and any clocks: when
a `Get` returns, it returns the initial value or that of a `Set` that has begun, and its
timestamp is not smaller than that of any `Set` of the key that precedes the `Get`. -/
theorem regular_of_reaches (hL : L.Spec) (hstore : store.Spec) {globalNow : ℕ}
    {wallClocks : Fin n → WallClock}
    (hrun : Runs.Reaches (execute store) (fun _ _ => True) (start globalNow wallClocks) c) {id : ℕ}
    {op : Operation n Key Value} {key : Key} (hop : c.operations[id]? = some op)
    (hcall : op.call = .get key) (hcomplete : c.execute store (.complete id) = .ok c') :
    ∃ v : StampedValue Value,
      c'.operations[id]? = some { op with progress := .returned (some v.value) } ∧
        c.Written key v ∧ ∀ write target, c.Precedes write op → write.call = .set key target →
          target.stamp ≤ v.stamp := by
  obtain ⟨tables, hagrees⟩ := agrees_of_reaches hL hstore hrun
  exact hagrees.get_returns hop hcall hcomplete

end Cluster

/-! ## A short run -/

/-- A node starts. -/
def bootActions {n : ℕ} (peer : Fin n) : List (ClusterAction n ℕ Bool) :=
  [.replica peer .start, .replica peer (.replay "db"), .replica peer .opened]

/-- A replica executes `LocalWrite`. -/
def writeActions {n : ℕ} (peer : Fin n) (id : ℕ) : List (ClusterAction n ℕ Bool) :=
  [.request peer id false, .replica peer (.lock 0 false), .replica peer .lockDatabase,
    .replica peer .append, .replica peer .finish]

/-- Two of three replicas execute a `Set`, one of them crashes and starts again, and then a
third node reads from this one and from itself. -/
def regularRun : List (ClusterAction 3 ℕ Bool) :=
  List.flatten [bootActions 0, bootActions 1, bootActions 2, [.set 0 7 true], writeActions 0 0,
    writeActions 1 0, [.reply 0, .reply 1, .complete 0, .crash 1 0], bootActions 1,
    [.pass 10, .get 2 7, .request 2 1 false, .request 1 1 false, .reply 2, .reply 3]]

/-- The clock of each server is ahead of that of the server before. -/
def regularStart : Cluster recordLog 3 ℕ Bool := Cluster.start 1 fun server => ⟨5 * server⟩

/-- The cluster after this. -/
def regularCluster : Option (Cluster recordLog 3 ℕ Bool) :=
  Runs.exec (Cluster.execute recordStore) (fun _ _ => True) regularStart regularRun

/-- A cluster in which operation 1 can return. -/
def Gets (cluster : Option (Cluster recordLog 3 ℕ Bool)) : Prop :=
  (cluster.bind fun c => (c.operations[1]?).map Operation.call) = some (.get 7) ∧
    (cluster.bind fun c => (c.execute recordStore (.complete 1)).toOption).isSome = true

instance (cluster : Option (Cluster recordLog 3 ℕ Bool)) : Decidable (Gets cluster) :=
  inferInstanceAs (Decidable (_ ∧ _))

theorem Gets.exists_complete {cluster : Option (Cluster recordLog 3 ℕ Bool)} (h : Gets cluster) :
    ∃ c ∈ cluster, ∃ op c', c.operations[1]? = some op ∧ op.call = .get 7 ∧
      c.execute recordStore (.complete 1) = .ok c' := by
  obtain ⟨hget, hcomplete⟩ := h
  obtain ⟨c, hc, hget⟩ := Option.bind_eq_some_iff.mp hget
  obtain ⟨op, hop, hcall⟩ := Option.map_eq_some_iff.mp hget
  rw [hc, Option.bind_some] at hcomplete
  cases hexecute : c.execute recordStore (.complete 1) with
  | error e =>
    rw [hexecute] at hcomplete
    cases hcomplete
  | ok c' => exact ⟨c, hc, op, c', hop, hcall, hexecute⟩

/-- **An example of a read.**  It is not older than the write that precedes it. -/
theorem regular_of_reaches_regularCluster : ∃ c ∈ regularCluster, ∃ op c' write,
    c.operations[1]? = some op ∧ c.execute recordStore (.complete 1) = .ok c' ∧
      c.Precedes write op ∧ write.call = .set 7 ⟨true, ⟨1⟩⟩ ∧ ∃ v : StampedValue Bool,
        c'.operations[1]? = some { op with progress := .returned (some v.value) } ∧
          c.Written 7 v ∧ 1 ≤ v.stamp := by
  have hgets : Gets regularCluster := by decide +kernel
  obtain ⟨c, hc, op, c', hop, hcall, hcomplete⟩ := hgets.exists_complete
  have hchecked : ∃ c ∈ regularCluster, ∃ write ∈ c.operations[0]?,
      write.call = .set 7 ⟨true, ⟨1⟩⟩ ∧ ∀ op ∈ c.operations[1]?, 0 ∈ op.after := by
    decide +kernel
  obtain ⟨c₁, hc₁, write, hwrite, hset, hafter⟩ := hchecked
  obtain rfl := Option.some.inj (hc.symm.trans hc₁)
  have hprecedes : c.Precedes write op := ⟨0, hafter op hop, hwrite⟩
  obtain ⟨v, hv, hwritten, hfresh⟩ := Cluster.regular_of_reaches spec_recordLog spec_recordStore
    (Runs.reaches_of_exec hc) hop hcall hcomplete
  exact ⟨c, hc, op, c', write, hop, hcomplete, hprecedes, hset, v, hv, hwritten,
    hfresh write _ hprecedes hset⟩

end Whirl.Kv
