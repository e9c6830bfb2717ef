/-
# Clients whose calls are recorded

`HistoryChannel` of `history/channel.cpp`: a call through it is recorded when it is made, and
its result when the future of the channel below returns, which may be never.  A call that
failed may nevertheless have been executed, if its code says so.

`calls` is proof-only: the calls of all clients in the order in which they were made, with what
their futures returned.
-/
import WhirlMatrix.History.Recorder
import WhirlMatrix.Library.Runs
import Mathlib.Data.List.Nodup
import Mathlib.Data.List.Perm.Basic

namespace Whirl

open Semantics

/-! ## The channel -/

/-- `RPCErrorCode`; what the other codes are does not matter. -/
inductive RPCErrorCode where
  | transportError
  | executionError
  | other (code : ℕ)
  deriving DecidableEq, Repr

/-- `Result<Message>`. -/
inductive CallResult where
  | ok (message : Bytes)
  | error (code : RPCErrorCode)
  deriving DecidableEq, Repr

namespace HistoryChannel

/-- `MaybeCompleted`. -/
def maybeCompleted : RPCErrorCode → Bool
  | .transportError => true
  | .executionError => true
  | .other _ => false

/-- `Call` up to the call of the channel below. -/
def call (recorder : HistoryRecorder) (now : ℕ) (method : String) (input : Bytes)
    (traceId : String) : Outcome (Cookie × HistoryRecorder) :=
  let started := recorder.callStarted now method input
  if traceId ≠ "" then do
    let recorder ← started.2.addLabel started.1 traceId
    return (started.1, recorder)
  else
    .ok started

/-- `RecordCallResult`. -/
def recordCallResult (recorder : HistoryRecorder) (now : ℕ) (cookie : Cookie) :
    CallResult → Outcome HistoryRecorder
  | .ok message => recorder.callCompleted now cookie message
  | .error code =>
    if maybeCompleted code then
      recorder.callLost cookie
    else
      .ok (recorder.removeCall cookie)

end HistoryChannel

/-! ## Clients -/

/-- A call of a client, and when its future returned what. -/
structure ClientCall where
  method : String
  input : Bytes
  traceId : String
  startTime : ℕ
  result : Option (ℕ × CallResult) := none
  deriving DecidableEq, Repr

namespace ClientCall

/-- The record of a call that is running. -/
def running (call : ClientCall) : RunningCall where
  method := call.method
  arguments := ⟨call.input⟩
  startTime := call.startTime
  labels := if call.traceId ≠ "" then [call.traceId] else []

/-- Whether a call may have been executed: it has not failed for certain. -/
def mayHaveRun (call : ClientCall) : Bool :=
  match call.result with
  | some (_, .error code) => HistoryChannel.maybeCompleted code
  | _ => true

/-- The entry of a call in the history. -/
def toCall (call : ClientCall) : Call :=
  match call.result with
  | some (t, .ok message) => HistoryRecorder.complete t call.running ⟨message⟩
  | _ => HistoryRecorder.lost call.running

end ClientCall

/-- The clients of a world, who share its recorder. -/
structure Clients where
  time : Time := {}
  recorder : HistoryRecorder := {}
  /-- The cookies of the calls whose futures have not returned. -/
  futures : List Cookie := []
  calls : List ClientCall := []

/-- What clients do. -/
inductive ClientOp where
  /-- Another actor makes a step at a later time. -/
  | tick (future : ℕ)
  | call (method : String) (input : Bytes) (traceId : String)
  /-- The future of a call returns. -/
  | respond (cookie : Cookie) (result : CallResult)
  deriving DecidableEq, Repr

namespace Clients

/-- One operation. -/
def execute (c : Clients) : ClientOp → Outcome Clients
  | .tick future => do
    let time ← c.time.fastForwardTo future
    return { c with time := time }
  | .call method input traceId => do
    let (cookie, recorder) ← HistoryChannel.call c.recorder c.time.now method input traceId
    return { c with
      recorder := recorder
      futures := c.futures ++ [cookie]
      calls := c.calls ++ [⟨method, input, traceId, c.time.now, none⟩] }
  | .respond cookie result => do
    let recorder ← HistoryChannel.recordCallResult c.recorder c.time.now cookie result
    return { c with
      recorder := recorder
      futures := c.futures.erase cookie
      calls := c.calls.modify (cookie - 1) fun call =>
        { call with result := some (c.time.now, result) } }

/-- Time goes on, and a future returns at most once. -/
def Allowed (c : Clients) : ClientOp → Prop
  | .tick future => c.time.now ≤ future
  | .respond cookie _ => cookie ∈ c.futures
  | _ => True

instance (c : Clients) (op : ClientOp) : Decidable (Allowed c op) :=
  match op with
  | .tick future => inferInstanceAs (Decidable (c.time.now ≤ future))
  | .respond cookie _ => inferInstanceAs (Decidable (cookie ∈ c.futures))
  | .call .. => .isTrue trivial

/-- `GetHistory` after `Finalize`. -/
def history (c : Clients) : Semantics.History := c.recorder.finalize.getHistory

/-! ## What the recorder knows -/

/-- The record of the call with a cookie, as long as it is running. -/
def runningAt (c : Clients) : Cookie → Option RunningCall
  | 0 => none
  | i + 1 => (c.calls[i]?).bind fun call => if call.result = none then some call.running else none

/-- The recorder has a record for each call whose future has not returned, and an entry for
each other that may have been executed. -/
structure Recorded (c : Clients) : Prop where
  nextId : c.recorder.nextId = c.calls.length
  running : ∀ cookie : Cookie, c.recorder.runningCalls[cookie]? = c.runningAt cookie
  finalized : c.recorder.finalizedCalls.Perm
    ((c.calls.filter fun call => call.result.isSome && call.mayHaveRun).map ClientCall.toCall)
  futures : ∀ cookie ∈ c.futures, ∃ call, c.runningAt cookie = some call
  once : c.futures.Nodup
  times : ∀ call ∈ c.calls, call.startTime ≤ c.time.now ∧
    ∀ t result, call.result = some (t, result) → call.startTime ≤ t

variable {c c' : Clients}

theorem recorded_start : Recorded {} where
  nextId := rfl
  running cookie := by
    cases cookie <;> rfl
  finalized := List.Perm.refl _
  futures cookie h := absurd h List.not_mem_nil
  once := List.nodup_nil
  times call h := absurd h List.not_mem_nil

theorem runningAt_concat (c : Clients) {call : ClientCall} (hnone : call.result = none) {time : Time}
    {recorder : HistoryRecorder} {futures : List Cookie} (cookie : Cookie) :
    (⟨time, recorder, futures, c.calls ++ [call]⟩ : Clients).runningAt cookie
      = if cookie = c.calls.length + 1 then some call.running else c.runningAt cookie := by
  cases cookie with
  | zero => rfl
  | succ i =>
    rw [runningAt, runningAt]
    rcases Nat.lt_trichotomy i c.calls.length with hlt | rfl | hgt
    · have hne : ¬ (i + 1 : ℕ) = c.calls.length + 1 := by omega
      rw [List.getElem?_append_left hlt, if_neg hne]
    · rw [List.getElem?_concat_length, if_pos rfl, Option.bind_some, if_pos hnone]
    · have hne : ¬ (i + 1 : ℕ) = c.calls.length + 1 := by omega
      have hge : (c.calls ++ [call]).length ≤ i := by
        rw [List.length_append, List.length_singleton]
        exact hgt
      rw [List.getElem?_eq_none hge, List.getElem?_eq_none hgt.le, if_neg hne]

/-- No cookie is issued twice. -/
theorem runningAt_new (c : Clients) : c.runningAt (c.calls.length + 1) = none := by
  rw [runningAt, List.getElem?_eq_none (Nat.le_refl _)]
  rfl

/-- What the recorder does with a new call. -/
theorem Recorded.exists_call (h : c.Recorded) (method : String) (input : Bytes) (traceId : String) :
    ∃ recorder, HistoryChannel.call c.recorder c.time.now method input traceId
        = .ok (c.calls.length + 1, recorder) ∧
      recorder.nextId = c.calls.length + 1 ∧ recorder.finalizedCalls = c.recorder.finalizedCalls ∧
      ∀ cookie : Cookie, recorder.runningCalls[cookie]? = if cookie = c.calls.length + 1 then
          some (ClientCall.running ⟨method, input, traceId, c.time.now, none⟩)
        else c.recorder.runningCalls[cookie]? := by
  -- The cookie is new, so `insertIfNew` inserts.
  have hnew : ¬ (c.calls.length + 1) ∈ c.recorder.runningCalls := by
    rw [← Std.ExtTreeMap.isSome_getElem?_iff_mem, h.running, runningAt_new]
    decide
  have hstarted : ∀ cookie : Cookie,
      (c.recorder.callStarted c.time.now method input).2.runningCalls[cookie]?
        = if cookie = c.calls.length + 1 then some ⟨method, ⟨input⟩, c.time.now, []⟩
          else c.recorder.runningCalls[cookie]? := by
    intro cookie
    rw [HistoryRecorder.callStarted, h.nextId]
    dsimp only
    rw [Std.ExtTreeMap.getElem?_insertIfNew]
    simp only [Std.LawfulEqCmp.compare_eq_iff_eq]
    by_cases heq : c.calls.length + 1 = cookie
    · rw [if_pos ⟨heq, heq ▸ hnew⟩, if_pos heq.symm]
    · rw [if_neg fun h => heq h.1, if_neg (Ne.symm heq)]
  by_cases htrace : traceId = ""
  · refine ⟨(c.recorder.callStarted c.time.now method input).2, ?_, ?_, rfl, ?_⟩
    · rw [HistoryChannel.call, if_neg (not_not_intro htrace), ← h.nextId]
      rfl
    · rw [← h.nextId]
      rfl
    · intro cookie
      rw [hstarted, ClientCall.running, if_neg (not_not_intro htrace)]
  · obtain ⟨started, heq⟩ : ∃ started, c.recorder.callStarted c.time.now method input = started :=
      ⟨_, rfl⟩
    have hcookie : started.1 = c.calls.length + 1 := by
      rw [← heq, ← h.nextId]
      rfl
    rw [heq] at hstarted
    have hlabel : started.2.addLabel (c.calls.length + 1) traceId = .ok { started.2 with
        runningCalls := started.2.runningCalls.insert (c.calls.length + 1)
          ⟨method, ⟨input⟩, c.time.now, [traceId]⟩ } := by
      rw [HistoryRecorder.addLabel, hstarted, if_pos rfl]
      rfl
    have hcall : HistoryChannel.call c.recorder c.time.now method input traceId
        = .ok (c.calls.length + 1, { started.2 with
            runningCalls := started.2.runningCalls.insert (c.calls.length + 1)
              ⟨method, ⟨input⟩, c.time.now, [traceId]⟩ }) := by
      rw [HistoryChannel.call, heq, if_pos htrace, hcookie, hlabel]
      rfl
    refine ⟨_, hcall, ?_, ?_, ?_⟩
    · rw [← h.nextId, ← heq]
      rfl
    · rw [← heq]
      rfl
    · intro cookie
      dsimp only
      rw [Std.ExtTreeMap.getElem?_insert, hstarted, ClientCall.running, if_pos htrace]
      simp only [Std.LawfulEqCmp.compare_eq_iff_eq]
      by_cases heq : c.calls.length + 1 = cookie
      · rw [if_pos heq, if_pos heq.symm]
      · rw [if_neg heq, if_neg (Ne.symm heq), if_neg (Ne.symm heq)]

/-- A call is made. -/
theorem Recorded.call (h : c.Recorded) (method : String) (input : Bytes) (traceId : String) :
    ∃ c', c.execute (.call method input traceId) = .ok c' ∧ c'.Recorded := by
  obtain ⟨recorder, hcall, hnext, hfinalized, hrunning⟩ := h.exists_call method input traceId
  have hexecute : c.execute (.call method input traceId) = .ok { c with
      recorder := recorder
      futures := c.futures ++ [c.calls.length + 1]
      calls := c.calls ++ [⟨method, input, traceId, c.time.now, none⟩] } :=
    Outcome.bind_eq_ok.mpr ⟨_, hcall, rfl⟩
  have hat : ∀ cookie : Cookie, (⟨c.time, recorder, c.futures ++ [c.calls.length + 1],
      c.calls ++ [⟨method, input, traceId, c.time.now, none⟩]⟩ : Clients).runningAt cookie
        = if cookie = c.calls.length + 1 then
            some (ClientCall.running ⟨method, input, traceId, c.time.now, none⟩)
          else c.runningAt cookie := runningAt_concat c rfl
  refine ⟨_, hexecute, ?_⟩
  constructor
  · rw [hnext, List.length_append]
    rfl
  · intro cookie
    rw [hat, hrunning, h.running]
  · rw [hfinalized, List.filter_append]
    simpa using h.finalized
  · intro cookie hcookie
    rw [hat]
    split
    · exact ⟨_, rfl⟩
    · rename_i hne
      obtain hcookie | hcookie := List.mem_append.mp hcookie
      · exact h.futures cookie hcookie
      · exact absurd (List.mem_singleton.mp hcookie) hne
  · rw [List.nodup_append]
    refine ⟨h.once, List.nodup_singleton _, ?_⟩
    rintro cookie hcookie _ hnew rfl
    obtain rfl := List.mem_singleton.mp hnew
    obtain ⟨call, hcall⟩ := h.futures _ hcookie
    rw [runningAt_new] at hcall
    cases hcall
  · intro call hcall
    obtain hcall | hcall := List.mem_append.mp hcall
    · exact h.times call hcall
    · obtain rfl := List.mem_singleton.mp hcall
      exact ⟨Nat.le_refl _, fun t result hresult => by cases hresult⟩

/-- An entry of a list that did not count is replaced. -/
theorem filter_modify_perm {α : Type} {l : List α} {i : ℕ} {a : α} {f : α → α} {p : α → Bool}
    (hget : l[i]? = some a) (ha : p a = false) :
    ((l.modify i f).filter p).Perm (l.filter p ++ if p (f a) then [f a] else []) := by
  induction l generalizing i with
  | nil => simp at hget
  | cons b l ih =>
    cases i with
    | zero =>
      obtain rfl := Option.some.inj hget
      rw [List.modify_zero_cons, List.filter_cons, List.filter_cons_of_neg (by simp [ha])]
      split
      · exact (List.perm_append_singleton (f b) (l.filter p)).symm
      · rw [List.append_nil]
    | succ i =>
      rw [List.modify_succ_cons, List.filter_cons, List.filter_cons]
      split
      · exact (ih hget).cons b
      · exact ih hget

theorem exists_of_runningAt {cookie : Cookie} {running : RunningCall}
    (h : c.runningAt cookie = some running) :
    ∃ i call, cookie = i + 1 ∧ c.calls[i]? = some call ∧ call.result = none ∧
      call.running = running := by
  cases cookie with
  | zero => cases h
  | succ i =>
    obtain ⟨call, hcall, h⟩ := Option.bind_eq_some_iff.mp h
    split at h
    · rename_i hnone
      exact ⟨i, call, rfl, hcall, hnone, Option.some.inj h⟩
    · cases h

/-- What the recorder does with a result. -/
theorem exists_recordCallResult {recorder : HistoryRecorder} {cookie : Cookie} {call : ClientCall}
    (hrunning : recorder.runningCalls[cookie]? = some call.running) (now : ℕ)
    (result : CallResult) :
    ∃ recorder', HistoryChannel.recordCallResult recorder now cookie result = .ok recorder' ∧
      recorder'.nextId = recorder.nextId ∧
      recorder'.runningCalls = recorder.runningCalls.erase cookie ∧
      recorder'.finalizedCalls = recorder.finalizedCalls ++
        if ({ call with result := some (now, result) } : ClientCall).mayHaveRun then
          [({ call with result := some (now, result) } : ClientCall).toCall]
        else
          [] := by
  cases result with
  | ok message =>
    refine ⟨{ recorder with
      runningCalls := recorder.runningCalls.erase cookie
      finalizedCalls := recorder.finalizedCalls ++
        [HistoryRecorder.complete now call.running ⟨message⟩] }, ?_, rfl, rfl, rfl⟩
    rw [HistoryChannel.recordCallResult, HistoryRecorder.callCompleted, hrunning]
  | error code =>
    rw [HistoryChannel.recordCallResult]
    by_cases hcode : HistoryChannel.maybeCompleted code = true
    · have hrun : ({ call with result := some (now, .error code) } : ClientCall).mayHaveRun := hcode
      rw [if_pos hcode, if_pos hrun, HistoryRecorder.callLost, hrunning]
      exact ⟨_, rfl, rfl, rfl, rfl⟩
    · have hrun : ¬ ({ call with result := some (now, .error code) } : ClientCall).mayHaveRun := hcode
      rw [if_neg hcode, if_neg hrun, List.append_nil]
      exact ⟨_, rfl, rfl, rfl, rfl⟩

/-- A future returns. -/
theorem Recorded.respond (h : c.Recorded) {cookie : Cookie} (hcookie : cookie ∈ c.futures)
    (result : CallResult) :
    ∃ c', c.execute (.respond cookie result) = .ok c' ∧ c'.Recorded := by
  obtain ⟨running, hrunning⟩ := h.futures cookie hcookie
  obtain ⟨i, call, rfl, hcall, hnone, rfl⟩ := exists_of_runningAt hrunning
  rw [← h.running] at hrunning
  obtain ⟨recorder, hrecord, hnext, herased, hfinalized⟩ :=
    exists_recordCallResult hrunning c.time.now result
  have hexecute : c.execute (.respond (i + 1) result) = .ok { c with
      recorder := recorder
      futures := c.futures.erase (i + 1)
      calls := c.calls.modify i fun call =>
        { call with result := some (c.time.now, result) } } :=
    Outcome.bind_eq_ok.mpr ⟨_, hrecord, rfl⟩
  -- Responding changes the call of this cookie and no other.
  have hat : ∀ cookie : Cookie, (⟨c.time, recorder, c.futures.erase (i + 1),
      c.calls.modify i fun call => { call with result := some (c.time.now, result) }⟩ :
        Clients).runningAt cookie = if cookie = i + 1 then none else c.runningAt cookie := by
    intro cookie
    cases cookie with
    | zero => rfl
    | succ j =>
      rw [runningAt, runningAt, List.getElem?_modify]
      by_cases heq : i = j
      · subst heq
        rw [if_pos rfl, hcall]
        simp
      · rw [if_neg fun hsucc => heq (Nat.succ.inj hsucc).symm]
        simp [heq]
  refine ⟨_, hexecute, ?_⟩
  constructor
  · rw [hnext, h.nextId, List.length_modify]
  · intro cookie
    rw [hat, herased, Std.ExtTreeMap.getElem?_erase, ← h.running]
    simp only [Std.LawfulEqCmp.compare_eq_iff_eq, eq_comm (a := i + 1)]
  · rw [hfinalized]
    -- The call moves from the running ones to the finalized ones, in some order.
    refine (h.finalized.append_right _).trans ?_
    have hperm := (filter_modify_perm hcall (f := fun call : ClientCall =>
        { call with result := some (c.time.now, result) })
      (p := fun call => call.result.isSome && call.mayHaveRun) (by simp [hnone])).map
        ClientCall.toCall
    refine List.Perm.trans ?_ hperm.symm
    rw [List.map_append]
    apply List.Perm.of_eq
    congr 1
    simp only [Option.isSome_some, Bool.true_and]
    split <;> rfl
  · intro cookie hcookie'
    rw [hat, if_neg]
    · exact h.futures cookie (List.mem_of_mem_erase hcookie')
    · rintro rfl
      exact (h.once.not_mem_erase) hcookie'
  · exact h.once.erase _
  · intro call' hcall'
    obtain ⟨j, hj⟩ := List.mem_iff_getElem?.mp hcall'
    rw [List.getElem?_modify] at hj
    obtain ⟨call'', hget, rfl⟩ := Option.map_eq_some_iff.mp hj
    have hold := h.times call'' (List.mem_of_getElem? hget)
    by_cases heq : i = j
    · rw [if_pos heq]
      refine ⟨hold.1, ?_⟩
      intro t result' hresult
      obtain ⟨rfl, -⟩ := Prod.mk.inj (Option.some.inj hresult)
      exact hold.1
    · rw [if_neg heq]
      exact hold

/-- **The recorder never fails.**  Every operation of clients is recorded. -/
theorem Recorded.exists_execute (h : c.Recorded) {op : ClientOp} (hop : Allowed c op) :
    ∃ c', c.execute op = .ok c' ∧ c'.Recorded := by
  cases op with
  | tick future =>
    refine ⟨{ c with time := ⟨future⟩ }, ?_, ?_⟩
    · exact Outcome.bind_eq_ok.mpr ⟨⟨future⟩, Time.fastForwardTo_eq_ok.mpr ⟨hop, rfl⟩, rfl⟩
    · refine ⟨h.nextId, h.running, h.finalized, h.futures, h.once, ?_⟩
      intro call hcall
      obtain ⟨hstart, hresult⟩ := h.times call hcall
      exact ⟨Nat.le_trans hstart hop, hresult⟩
  | call method input traceId => exact h.call method input traceId
  | respond cookie result => exact h.respond hop result

theorem recorded_of_reaches (hrun : Runs.Reaches execute Allowed {} c) : c.Recorded := by
  apply hrun.invariant (I := Recorded) recorded_start
  intro c op c' h hop hc
  obtain ⟨c'', hc'', h''⟩ := h.exists_execute hop
  obtain rfl := Except.ok.inj (hc.symm.trans hc'')
  exact h''

/-! ## The history -/

/-- The running calls, listed by cookie. -/
theorem Recorded.toList_perm (h : c.Recorded) :
    c.recorder.runningCalls.toList.Perm ((c.calls.zipIdx 1).filterMap fun entry =>
      if entry.1.result = none then some (entry.2, entry.1.running) else none) := by
  have hdistinct : (c.calls.zipIdx 1).Pairwise fun entry entry' => entry.2 ≠ entry'.2 := by
    apply List.pairwise_map.mp
    rw [List.zipIdx_map_snd]
    exact List.nodup_range'
  apply (List.perm_ext_iff_of_nodup ?_ ?_).mpr
  · rintro ⟨cookie, running⟩
    rw [Std.ExtTreeMap.mem_toList_iff_getElem?_eq_some, h.running, List.mem_filterMap]
    constructor
    · intro hrunning
      obtain ⟨i, call, rfl, hcall, hnone, rfl⟩ := exists_of_runningAt hrunning
      refine ⟨(call, i + 1), ?_, if_pos hnone⟩
      exact List.mk_mem_zipIdx_iff_le_and_getElem?_sub.mpr ⟨Nat.le_add_left 1 i, hcall⟩
    · rintro ⟨⟨call, k⟩, hmem, heq⟩
      obtain ⟨hk, hcall⟩ := List.mk_mem_zipIdx_iff_le_and_getElem?_sub.mp hmem
      obtain ⟨i, rfl⟩ := Nat.exists_eq_add_of_le' hk
      rw [Nat.add_sub_cancel] at hcall
      split at heq
      · rename_i hnone
        obtain ⟨rfl, rfl⟩ := Prod.mk.inj (Option.some.inj heq)
        rw [runningAt, hcall, Option.bind_some, if_pos hnone]
      · cases heq
  · apply (Std.ExtTreeMap.distinct_keys_toList (t := c.recorder.runningCalls)).imp
    intro entry entry' hne heq
    exact hne (compare_eq_iff_eq.mpr (congrArg Prod.fst heq))
  · apply List.pairwise_filterMap.mpr
    apply hdistinct.imp
    intro entry entry' hne b hb b' hb' heq
    grind

/-- **The history is what the clients know.**  It has an entry for each call that may have been
executed, and no others. -/
theorem Recorded.history_perm (h : c.Recorded) :
    c.history.Perm ((c.calls.filter ClientCall.mayHaveRun).map ClientCall.toCall) := by
  have hwaiting : ((c.calls.zipIdx 1).filterMap fun entry =>
        if entry.1.result = none then some (entry.2, entry.1.running) else none).map
          (fun entry => HistoryRecorder.lost entry.2)
      = (c.calls.filter fun call => !call.result.isSome && call.mayHaveRun).map ClientCall.toCall := by
    generalize 1 = k
    induction c.calls generalizing k with
    | nil => rfl
    | cons call calls ih =>
      rw [List.zipIdx_cons, List.filterMap_cons, List.filter_cons]
      cases hresult : call.result with
      | none => simp [ih, ClientCall.mayHaveRun, ClientCall.toCall, hresult]
      | some result => simp [ih]
  have hsplit := List.filter_append_perm (fun call => call.result.isSome)
    (c.calls.filter ClientCall.mayHaveRun)
  rw [List.filter_filter, List.filter_filter] at hsplit
  refine List.Perm.trans ?_ (hsplit.map ClientCall.toCall)
  rw [List.map_append, ← hwaiting]
  exact h.finalized.append (h.toList_perm.map _)

end Clients

end Whirl
