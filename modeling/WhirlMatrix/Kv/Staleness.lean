/-
# How old a value can be

Write timestamps come from wall clocks, which are ahead of world time by their offsets.  With
offsets of at most `skew` a `Get` can miss the effect of an earlier `Set`, but only to the
benefit of one that began at most `skew` before it.
-/
import WhirlMatrix.Kv.Regular

namespace Whirl.Kv

open Db LastWriter Clocks

namespace Cluster

variable {DbKey DbValue Key Value : Type} [Ord DbKey] [Std.TransOrd DbKey]
  {L : Libraries DbKey DbValue} {n : ℕ} {store : KVStore Key Value DbKey DbValue}
  {c c' : Cluster L n Key Value} {skew since : ℕ}

/-! ## What an action does to clocks and fibers -/

/-- Every fiber was there before, or it begins now with a timestamp of its clock. -/
def Origin (c c' : Cluster L n Key Value) : Prop :=
  ∀ op' ∈ c'.operations, (∃ op ∈ c.operations, op.Later op') ∨
    op'.begunAt = c.globalNow ∧ ∃ server, ∀ key target, op'.call = .set key target →
      target.timestamp = c.chooseWriteTimestamp server

theorem origin_of_map {f : ℕ → Operation n Key Value → Operation n Key Value}
    (hoperations : ∀ id, c'.operations[id]? = (c.operations[id]?).map (f id))
    (hlater : ∀ (id : ℕ) (op : Operation n Key Value), c.operations[id]? = some op →
      op.Later (f id op)) : c.Origin c' := by
  intro op' hop'
  obtain ⟨id, hop'⟩ := List.getElem?_of_mem hop'
  rw [hoperations] at hop'
  obtain ⟨op, hop, rfl⟩ := Option.map_eq_some_iff.mp hop'
  exact Or.inl ⟨op, List.mem_of_getElem? hop, hlater id op hop⟩

theorem origin_of_eq (hoperations : c'.operations = c.operations) : c.Origin c' :=
  origin_of_map (f := fun _ op => op) (fun id => by rw [hoperations, Option.map_id'])
    fun _ op _ => Operation.Later.refl op

/-- The fiber that begins. -/
theorem origin_of_begin {coordinator : Fin n} {call : Broadcast Key Value}
    (hcall : ∀ key target, call = .set key target →
      target.timestamp = c.chooseWriteTimestamp coordinator)
    (hbegin : c.begin coordinator call = .ok c') :
    c.Origin c' ∧ c'.wallClocks = c.wallClocks ∧ c'.globalNow = c.globalNow := by
  rw [Cluster.begin] at hbegin
  split at hbegin
  · obtain rfl := Except.ok.inj hbegin
    refine ⟨fun op hop => ?_, rfl, rfl⟩
    rcases List.mem_append.mp hop with hop | hop
    · exact Or.inl ⟨op, hop, Operation.Later.refl op⟩
    · obtain rfl := List.mem_singleton.mp hop
      exact Or.inr ⟨rfl, coordinator, hcall⟩
  · cases hbegin

variable [Inhabited Value]

theorem serve_frame {peer : Fin n} {action : ReplicaAction ℕ Key Value}
    (hserve : c.serve store peer action = .ok c') : c'.operations = c.operations ∧
      c'.wallClocks = c.wallClocks ∧ c'.globalNow = c.globalNow := by
  obtain ⟨⟨r, replies⟩, -, hserve⟩ := Outcome.bind_eq_ok.mp hserve
  obtain rfl := Outcome.pure_eq_ok.mp hserve
  exact ⟨rfl, rfl, rfl⟩

/-- What an action does to the clocks. -/
def Ticks (c c' : Cluster L n Key Value) : ClusterAction n Key Value → Prop
  | .adjustWallClock server offset =>
    c'.wallClocks = Function.update c.wallClocks server ⟨offset⟩ ∧ c'.globalNow = c.globalNow
  | .pass time => c'.wallClocks = c.wallClocks ∧ c'.globalNow = c.globalNow + time
  | _ => c'.wallClocks = c.wallClocks ∧ c'.globalNow = c.globalNow

theorem origin_of_execute {action : ClusterAction n Key Value}
    (hexecute : c.execute store action = .ok c') : c.Origin c' ∧ c.Ticks c' action := by
  cases action with
  | set coordinator key value =>
    refine origin_of_begin (fun key' target heq => ?_) hexecute
    obtain ⟨-, rfl⟩ := Broadcast.set.inj heq
    rfl
  | get coordinator key => exact origin_of_begin (fun _ _ heq => by cases heq) hexecute
  | request peer id cacheMiss =>
    simp only [execute] at hexecute
    split at hexecute
    · exact (serve_frame hexecute).imp_left origin_of_eq
    · cases hexecute
  | replica peer action =>
    simp only [execute] at hexecute
    split at hexecute
    · exact (serve_frame hexecute).imp_left origin_of_eq
    · cases hexecute
  | reply index =>
    simp only [execute] at hexecute
    split at hexecute
    · rename_i peer reply hreply
      obtain rfl := Except.ok.inj hexecute
      refine ⟨origin_of_map
        (f := fun id op => if reply.rpc = id then op.receive peer reply else op)
        (fun id => ?_) fun id op hop => ?_, rfl, rfl⟩
      · rw [List.getElem?_modify]
        rfl
      · split
        · exact op.later_receive peer reply
        · exact Operation.Later.refl op
    · cases hexecute
  | complete id =>
    simp only [execute] at hexecute
    split at hexecute
    · rename_i op hop
      obtain ⟨op', hcomplete, hexecute⟩ := Outcome.bind_eq_ok.mp hexecute
      obtain rfl := Outcome.pure_eq_ok.mp hexecute
      refine ⟨fun op'' hop'' => Or.inl ?_, rfl, rfl⟩
      rcases List.mem_or_eq_of_mem_set hop'' with hop'' | rfl
      · exact ⟨op'', hop'', Operation.Later.refl op''⟩
      · exact ⟨op, List.mem_of_getElem? hop, Operation.later_complete hcomplete⟩
    · cases hexecute
  | crash server written =>
    obtain ⟨c'', hcrash, hexecute⟩ := Outcome.bind_eq_ok.mp hexecute
    obtain rfl := Outcome.pure_eq_ok.mp hexecute
    obtain ⟨hoperations, hclocks, hnow⟩ := serve_frame hcrash
    refine ⟨origin_of_map (f := fun _ op => op.crash server) (fun id => ?_)
      fun id op _ => op.later_crash server, hclocks, hnow⟩
    rw [List.getElem?_map, hoperations]
  | adjustWallClock server offset =>
    obtain rfl := Except.ok.inj hexecute
    exact ⟨origin_of_eq rfl, rfl, rfl⟩
  | pass time =>
    obtain rfl := Except.ok.inj hexecute
    exact ⟨origin_of_eq rfl, rfl, rfl⟩

/-! ## Clocks that are nearly right -/

/-- Offsets are at most `skew`, and no clock is cut off. -/
def ClocksWithin (skew : ℕ) (c : Cluster L n Key Value) : ClusterAction n Key Value → Prop
  | .adjustWallClock _ offset => offset ≤ skew
  | .pass time => c.globalNow + time + skew < 2 ^ 64
  | _ => True

instance (skew : ℕ) (c : Cluster L n Key Value) (action : ClusterAction n Key Value) :
    Decidable (c.ClocksWithin skew action) := by
  unfold ClocksWithin
  cases action <;> infer_instance

/-- Timestamps are not before the time at which their `Set` began, and not later by more
than `skew`. -/
structure Timed (skew since : ℕ) (c : Cluster L n Key Value) : Prop where
  clocks : ∀ server, (c.wallClocks server).offset ≤ skew
  now : since ≤ c.globalNow ∧ c.globalNow + skew < 2 ^ 64
  begun : ∀ op ∈ c.operations, since ≤ op.begunAt
  stamped : ∀ op ∈ c.operations, ∀ key target, op.call = .set key target →
    op.begunAt ≤ target.stamp ∧ target.stamp ≤ op.begunAt + skew

theorem Timed.execute (h : c.Timed skew since) {action : ClusterAction n Key Value}
    (hallowed : c.ClocksWithin skew action) (hexecute : c.execute store action = .ok c') :
    c'.Timed skew since := by
  obtain ⟨horigin, hticks⟩ := origin_of_execute hexecute
  have hclocks : (∀ server, (c'.wallClocks server).offset ≤ skew) ∧
      since ≤ c'.globalNow ∧ c'.globalNow + skew < 2 ^ 64 := by
    cases action with
    | adjustWallClock server offset =>
      obtain ⟨hclocks, hnow⟩ := hticks
      rw [hclocks, hnow]
      refine ⟨fun server' => ?_, h.now⟩
      by_cases hserver : server' = server
      · subst hserver
        rw [Function.update_self]
        exact hallowed
      · rw [Function.update_of_ne hserver]
        exact h.clocks server'
    | pass time =>
      obtain ⟨hclocks, hnow⟩ := hticks
      rw [hclocks, hnow]
      exact ⟨h.clocks, h.now.1.trans (Nat.le_add_right _ _), hallowed⟩
    | _ =>
      obtain ⟨hclocks, hnow⟩ := hticks
      rw [hclocks, hnow]
      exact ⟨h.clocks, h.now⟩
  refine ⟨hclocks.1, hclocks.2, fun op' hop' => ?_, fun op' hop' key target hcall => ?_⟩
  · rcases horigin op' hop' with ⟨op, hop, hlater⟩ | ⟨hbegun, -⟩
    · rw [hlater.begunAt]
      exact h.begun op hop
    · rw [hbegun]
      exact h.now.1
  · rcases horigin op' hop' with ⟨op, hop, hlater⟩ | ⟨hbegun, server, hstamp⟩
    · rw [hlater.begunAt]
      exact h.stamped op hop key target (hlater.call ▸ hcall)
    · have hwithin : (c.wallClocks server).Within skew c.globalNow :=
        ⟨h.clocks server, (Nat.add_le_add_left (h.clocks server) _).trans_lt h.now.2⟩
      rw [hbegun, StampedValue.stamp, hstamp key target hcall]
      exact hwithin.now_mem

/-- **Bounded staleness.**  When no wall clock is ahead of world time by more than `skew`, a
`Get` that a `Set` of the key precedes does not return the initial value.  It returns the value
of a `Set` that began no more than `skew` before any `Set` of the key that precedes the `Get`. -/
theorem staleness_of_reaches [DecidableEq Key] [Std.LawfulEqOrd DbKey] (hL : L.Spec)
    (hstore : store.Spec) {wallClocks : Fin n → WallClock} (hsince : 0 < since)
    (hclocks : ∀ server, (wallClocks server).offset ≤ skew) (hnow : since + skew < 2 ^ 64)
    (hrun : Runs.Reaches (execute store) (ClocksWithin skew) (start since wallClocks) c) {id : ℕ}
    {op : Operation n Key Value} {key : Key} (hop : c.operations[id]? = some op)
    (hcall : op.call = .get key) (hcomplete : c.execute store (.complete id) = .ok c') :
    ∃ v : StampedValue Value,
      c'.operations[id]? = some { op with progress := .returned (some v.value) } ∧
        ∀ write target, c.Precedes write op → write.call = .set key target →
          ∃ write' ∈ c.operations, write'.call = .set key v ∧
            write.begunAt ≤ write'.begunAt + skew := by
  have htimed : c.Timed skew since := by
    refine hrun.invariant (I := fun c => c.Timed skew since)
      ⟨hclocks, ⟨le_refl _, hnow⟩, nofun, nofun⟩ ?_
    intro c action c' htimed hallowed hexecute
    exact htimed.execute hallowed hexecute
  obtain ⟨tables, hagrees⟩ := agrees_of_reaches hL hstore (hrun.mono fun _ _ _ => trivial)
  obtain ⟨v, hv, hwritten, hstamp⟩ := hagrees.get_returns hop hcall hcomplete
  refine ⟨v, hv, fun write target hprecedes htarget => ?_⟩
  have hle := hstamp write target hprecedes htarget
  obtain ⟨id', -, hwrite⟩ := hprecedes
  have hwrite := List.mem_of_getElem? hwrite
  have hbegun := htimed.begun write hwrite
  obtain ⟨hbegun_le, -⟩ := htimed.stamped write hwrite key target htarget
  rcases hwritten with rfl | ⟨id'', write', hwrite', hcall'⟩
  · have hzero : target.stamp ≤ 0 := hle
    omega
  · have hwrite' := List.mem_of_getElem? hwrite'
    obtain ⟨-, hle_begun⟩ := htimed.stamped write' hwrite' key v hcall'
    exact ⟨write', hwrite', hcall', by omega⟩

end Cluster

/-! ## A short run -/

/-- The same run, with clocks that are ahead by at most 10. -/
def nearlyRight : Option (Cluster recordLog 3 ℕ Bool) :=
  Runs.exec (Cluster.execute recordStore) (Cluster.ClocksWithin 10) regularStart regularRun

/-- **An example of bounded staleness.** -/
theorem staleness_of_reaches_nearlyRight : ∃ c ∈ nearlyRight, ∃ op c',
    c.operations[1]? = some op ∧ c.execute recordStore (.complete 1) = .ok c' ∧
      ∃ v : StampedValue Bool,
        c'.operations[1]? = some { op with progress := .returned (some v.value) } ∧
          ∀ write target, c.Precedes write op → write.call = .set 7 target →
            ∃ write' ∈ c.operations, write'.call = .set 7 v ∧
              write.begunAt ≤ write'.begunAt + 10 := by
  have hgets : Gets nearlyRight := by decide +kernel
  obtain ⟨c, hc, op, c', hop, hcall, hcomplete⟩ := hgets.exists_complete
  have hclocks : ∀ server : Fin 3, (⟨5 * server⟩ : WallClock).offset ≤ 10 := by decide
  exact ⟨c, hc, op, c', hop, hcomplete, Cluster.staleness_of_reaches spec_recordLog
    spec_recordStore Nat.one_pos hclocks (by decide) (Runs.reaches_of_exec hc) hop hcall hcomplete⟩

end Whirl.Kv
