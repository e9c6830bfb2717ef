/-
# The history recorder

`HistoryRecorder` of `history/recorder.hpp` and `history/recorder.cpp`: clients
announce the start and the outcome of their calls, and the recorder turns them
into the history that the checker reads.  Every operation reads the world clock
(`GlobalNow`), which is an argument here.
-/
import WhirlMatrix.Semantics.History
import Mathlib.Data.Finset.Basic

namespace Whirl

open Semantics

/-- `HistoryRecorder::RunningCall`. -/
structure RunningCall where
  method : String
  arguments : Arguments
  startTime : ℕ
  labels : CallLabels
  deriving DecidableEq, Repr

/-- `HistoryRecorder::Cookie`. -/
abbrev Cookie := ℕ

/-- `HistoryRecorder`; `running_calls_` is a `std::map`.  Cookies are exact here in fewer than 2^64
events. -/
structure HistoryRecorder where
  finalizedCalls : List Call := []
  nextId : Cookie := 0
  runningCalls : Std.ExtTreeMap Cookie RunningCall compare := ∅

namespace HistoryRecorder

/-- `Complete`. -/
def complete (now : ℕ) (call : RunningCall) (result : Value) : Call :=
  ⟨call.method, call.arguments, some result, call.startTime, some now, call.labels⟩

/-- `Lost`. -/
def lost (call : RunningCall) : Call :=
  ⟨call.method, call.arguments, none, call.startTime, none, call.labels⟩

/-- `CallStarted`: returns the cookie of the call. -/
def callStarted (r : HistoryRecorder) (now : ℕ) (method : String) (input : Bytes) :
    Cookie × HistoryRecorder :=
  let id := r.nextId + 1
  (id, { r with
    nextId := id
    runningCalls := r.runningCalls.insertIfNew id ⟨method, ⟨input⟩, now, []⟩ })

/-- `AddLabel`. -/
def addLabel (r : HistoryRecorder) (id : Cookie) (label : String) : Outcome HistoryRecorder :=
  match r.runningCalls[id]? with
  | none => .error (.panic "Call not found")
  | some call => .ok { r with
      runningCalls := r.runningCalls.insert id { call with labels := call.labels ++ [label] } }

/-- `CallCompleted`; an unknown cookie dereferences the end iterator. -/
def callCompleted (r : HistoryRecorder) (now : ℕ) (id : Cookie) (output : Bytes) :
    Outcome HistoryRecorder :=
  match r.runningCalls[id]? with
  | none => .error .undefined
  | some call => .ok { r with
      runningCalls := r.runningCalls.erase id
      finalizedCalls := r.finalizedCalls ++ [complete now call ⟨output⟩] }

/-- `CallLost`. -/
def callLost (r : HistoryRecorder) (id : Cookie) : Outcome HistoryRecorder :=
  match r.runningCalls[id]? with
  | none => .error .undefined
  | some call => .ok { r with
      runningCalls := r.runningCalls.erase id
      finalizedCalls := r.finalizedCalls ++ [lost call] }

/-- `RemoveCall`. -/
def removeCall (r : HistoryRecorder) (id : Cookie) : HistoryRecorder :=
  { r with runningCalls := r.runningCalls.erase id }

/-- `Finalize`. -/
def finalize (r : HistoryRecorder) : HistoryRecorder :=
  { r with finalizedCalls := r.finalizedCalls ++ r.runningCalls.toList.map fun e => lost e.2 }

/-- `GetHistory`. -/
def getHistory (r : HistoryRecorder) : Semantics.History := r.finalizedCalls

section

variable {r r' : HistoryRecorder} {id : Cookie}

theorem addLabel_eq_ok {label : String} (h : r.addLabel id label = .ok r') :
    ∃ call, r.runningCalls[id]? = some call ∧ r' = { r with
      runningCalls := r.runningCalls.insert id { call with labels := call.labels ++ [label] } } := by
  unfold addLabel at h
  split at h
  · exact absurd h (by simp)
  · rename_i call hcall
    exact ⟨call, hcall, (Except.ok.inj h).symm⟩

theorem callCompleted_eq_ok {now : ℕ} {output : Bytes} (h : r.callCompleted now id output = .ok r') :
    ∃ call, r.runningCalls[id]? = some call ∧ r' = { r with
      runningCalls := r.runningCalls.erase id
      finalizedCalls := r.finalizedCalls ++ [complete now call ⟨output⟩] } := by
  unfold callCompleted at h
  split at h
  · exact absurd h (by simp)
  · rename_i call hcall
    exact ⟨call, hcall, (Except.ok.inj h).symm⟩

theorem callLost_eq_ok (h : r.callLost id = .ok r') :
    ∃ call, r.runningCalls[id]? = some call ∧ r' = { r with
      runningCalls := r.runningCalls.erase id
      finalizedCalls := r.finalizedCalls ++ [lost call] } := by
  unfold callLost at h
  split at h
  · exact absurd h (by simp)
  · rename_i call hcall
    exact ⟨call, hcall, (Except.ok.inj h).symm⟩

end

/-! ## Runs -/

/-- One operation of the recorder. -/
inductive Op where
  | callStarted (method : String) (input : Bytes)
  | addLabel (id : Cookie) (label : String)
  | callCompleted (id : Cookie) (output : Bytes)
  | callLost (id : Cookie)
  | removeCall (id : Cookie)
  | finalize
  deriving DecidableEq, Repr

/-- Whether the operation is `CallStarted`. -/
def Op.isStart : Op → Bool
  | .callStarted _ _ => true
  | _ => false

/-- An operation together with the virtual time at which it is executed. -/
structure Event where
  now : ℕ
  op : Op
  deriving DecidableEq, Repr

/-- Executes one event. -/
def execute (r : HistoryRecorder) (e : Event) : Outcome HistoryRecorder :=
  match e.op with
  | .callStarted method input => .ok (r.callStarted e.now method input).2
  | .addLabel id label => r.addLabel id label
  | .callCompleted id output => r.callCompleted e.now id output
  | .callLost id => r.callLost id
  | .removeCall id => .ok (r.removeCall id)
  | .finalize => .ok r.finalize

/-- Executes the events of a trace, from a new recorder. -/
def run (events : List Event) : Outcome HistoryRecorder :=
  events.foldlM execute {}

/-- A run is extended by one event at its end. -/
theorem run_concat_eq_ok {events : List Event} {e : Event} {r : HistoryRecorder} :
    run (events ++ [e]) = .ok r ↔ ∃ r₀, run events = .ok r₀ ∧ r₀.execute e = .ok r := by
  simp only [run, List.foldlM_append, List.foldlM_cons, List.foldlM_nil, Outcome.bind_eq_ok,
    Outcome.pure_eq_ok, exists_eq_right]

/-! ## Where an entry of the history comes from -/

/-- How many calls a trace starts. -/
def starts (events : List Event) : ℕ := events.countP (·.op.isStart)

/-- The origin of a history entry: the cookie of the call, the position of its
`CallStarted` in the trace, and the position of the `CallCompleted` that recorded
it, if one did. -/
structure Origin where
  cookie : Cookie
  started : ℕ
  completed : Option ℕ

/-- The event at position `p` of the trace starts the call with cookie `id`. -/
def StartsAt (events : List Event) (p : ℕ) (id : Cookie) (now : ℕ) (method : String)
    (arguments : Arguments) : Prop :=
  events[p]? = some ⟨now, .callStarted method arguments.bytes⟩ ∧ starts (events.take (p + 1)) = id

/-- The entry `call` of a history has the origin `o` in the trace. -/
structure Describes (events : List Event) (o : Origin) (call : Call) : Prop where
  started : StartsAt events o.started o.cookie call.startTime call.method call.arguments
  completed : ∀ p, o.completed = some p → ∃ now output,
    events[p]? = some ⟨now, .callCompleted o.cookie output⟩ ∧
      call.endTime = some now ∧ call.result = some ⟨output⟩
  incomplete : o.completed = none → call.endTime = none ∧ call.result = none

theorem StartsAt.concat {events : List Event} {p : ℕ} {id : Cookie} {now : ℕ}
    {method : String} {arguments : Arguments} (h : StartsAt events p id now method arguments)
    (e : Event) : StartsAt (events ++ [e]) p id now method arguments := by
  obtain ⟨hget, hcount⟩ := h
  have hp : p < events.length := (List.getElem?_eq_some_iff.mp hget).1
  refine ⟨by rw [List.getElem?_append_left hp, hget], ?_⟩
  rw [List.take_append_of_le_length hp, hcount]

theorem Describes.concat {events : List Event} {o : Origin} {call : Call}
    (h : Describes events o call) (e : Event) : Describes (events ++ [e]) o call := by
  refine ⟨h.started.concat e, fun p hp => ?_, h.incomplete⟩
  obtain ⟨now, output, hget, hend, hres⟩ := h.completed p hp
  have hlt : p < events.length := (List.getElem?_eq_some_iff.mp hget).1
  exact ⟨now, output, by rw [List.getElem?_append_left hlt, hget], hend, hres⟩

/-- What a trace leaves in the recorder: every running call and every entry of the
history comes from a `CallStarted` of the trace. -/
structure Recorded (events : List Event) (r : HistoryRecorder) : Prop where
  nextId : r.nextId = starts events
  running : ∀ id call, r.runningCalls[id]? = some call →
    ∃ p, StartsAt events p id call.startTime call.method call.arguments
  finalized : ∀ call ∈ r.finalizedCalls, ∃ o, Describes events o call

theorem recorded_nil : Recorded [] {} :=
  ⟨rfl, by simp, by simp⟩

theorem starts_concat (events : List Event) (e : Event) :
    starts (events ++ [e]) = starts events + if e.op.isStart then 1 else 0 := by
  simp [starts, List.countP_append, List.countP_singleton]

/-- A running call that is given up has an origin without completion. -/
theorem describes_lost {events : List Event} {p : ℕ} {id : Cookie} {call : RunningCall}
    (h : StartsAt events p id call.startTime call.method call.arguments) :
    Describes events ⟨id, p, none⟩ (lost call) :=
  ⟨h, by simp, fun _ => ⟨rfl, rfl⟩⟩

/-- A call stops running, and an entry that is explained joins the history. -/
theorem Recorded.resolve {events : List Event} {r : HistoryRecorder} {e : Event}
    (h : Recorded events r) (hstart : e.op.isStart = false) (id : Cookie) {entry : Call}
    (hentry : ∃ o, Describes (events ++ [e]) o entry) :
    Recorded (events ++ [e]) { r with
      runningCalls := r.runningCalls.erase id
      finalizedCalls := r.finalizedCalls ++ [entry] } := by
  refine ⟨by simp [starts_concat, h.nextId, hstart], fun id' call hcall => ?_, fun call hcall => ?_⟩
  · obtain ⟨p, hp⟩ := h.running id' call (by grind)
    exact ⟨p, hp.concat e⟩
  · rcases List.mem_append.mp hcall with hcall | hcall
    · obtain ⟨o, ho⟩ := h.finalized call hcall
      exact ⟨o, ho.concat e⟩
    · rw [List.mem_singleton.mp hcall]
      exact hentry

/-- One event keeps every entry explained. -/
theorem Recorded.execute {events : List Event} {r r' : HistoryRecorder} {e : Event}
    (h : Recorded events r) (hstep : r.execute e = .ok r') : Recorded (events ++ [e]) r' := by
  obtain ⟨now, op⟩ := e
  have hrunning : ∀ id call, r.runningCalls[id]? = some call →
      ∃ p, StartsAt (events ++ [⟨now, op⟩]) p id call.startTime call.method call.arguments := by
    intro id call hcall
    obtain ⟨p, hp⟩ := h.running id call hcall
    exact ⟨p, hp.concat _⟩
  have hfinalized : ∀ call ∈ r.finalizedCalls, ∃ o, Describes (events ++ [⟨now, op⟩]) o call := by
    intro call hcall
    obtain ⟨o, ho⟩ := h.finalized call hcall
    exact ⟨o, ho.concat _⟩
  cases op with
  | callStarted method input =>
    obtain rfl : (r.callStarted now method input).2 = r' := Except.ok.inj hstep
    refine ⟨by simp [callStarted, starts_concat, h.nextId, Op.isStart], fun id call hcall => ?_,
      hfinalized⟩
    simp only [callStarted, Std.ExtTreeMap.getElem?_insertIfNew] at hcall
    split at hcall
    · -- the new cookie is one more than the number of calls started before
      rename_i hnew
      obtain rfl := compare_eq_iff_eq.mp hnew.1
      obtain rfl := Option.some.inj hcall
      refine ⟨events.length, by simp, ?_⟩
      rw [List.take_of_length_le (by simp), starts_concat, h.nextId]
      rfl
    · exact hrunning id call hcall
  | addLabel id label =>
    obtain ⟨call, hcall, rfl⟩ := addLabel_eq_ok hstep
    refine ⟨by simp [starts_concat, h.nextId, Op.isStart], fun id' call' hcall' => ?_, hfinalized⟩
    rw [Std.ExtTreeMap.getElem?_insert] at hcall'
    split at hcall'
    · rename_i heq
      obtain rfl := compare_eq_iff_eq.mp heq
      obtain rfl := Option.some.inj hcall'
      exact hrunning id call hcall
    · exact hrunning id' call' hcall'
  | callCompleted id output =>
    obtain ⟨call, hcall, rfl⟩ := callCompleted_eq_ok hstep
    obtain ⟨p, hp⟩ := hrunning id call hcall
    refine h.resolve rfl id ⟨⟨id, p, some events.length⟩, hp, ?_, by simp⟩
    rintro q ⟨⟩
    exact ⟨now, output, by simp, rfl, rfl⟩
  | callLost id =>
    obtain ⟨call, hcall, rfl⟩ := callLost_eq_ok hstep
    obtain ⟨p, hp⟩ := hrunning id call hcall
    exact h.resolve rfl id ⟨_, describes_lost hp⟩
  | removeCall id =>
    obtain rfl : r.removeCall id = r' := Except.ok.inj hstep
    refine ⟨by simp [removeCall, starts_concat, h.nextId, Op.isStart], fun id' call' hcall' => ?_,
      hfinalized⟩
    exact hrunning id' call' (by simp only [removeCall] at hcall'; grind)
  | finalize =>
    obtain rfl : r.finalize = r' := Except.ok.inj hstep
    refine ⟨by simp [finalize, starts_concat, h.nextId, Op.isStart], hrunning, ?_⟩
    intro call' hcall'
    rcases List.mem_append.mp hcall' with hcall' | hcall'
    · exact hfinalized call' hcall'
    · obtain ⟨⟨id, call⟩, hmem, rfl⟩ := List.mem_map.mp hcall'
      obtain ⟨p, hp⟩ := hrunning id call (Std.ExtTreeMap.mem_toList_iff_getElem?_eq_some.mp hmem)
      exact ⟨_, describes_lost hp⟩

/-- Every entry of the history of a run is explained by the trace. -/
theorem recorded_of_run {events : List Event} {r : HistoryRecorder} (h : run events = .ok r) :
    Recorded events r := by
  induction events using List.reverseRecOn generalizing r with
  | nil =>
    obtain rfl : ({} : HistoryRecorder) = r := Except.ok.inj h
    exact recorded_nil
  | append_singleton events e ih =>
    obtain ⟨r₀, hrun, hstep⟩ := run_concat_eq_ok.mp h
    exact (ih hrun).execute hstep

/-- `next_id_` is exact in every run of fewer than 2^64 events. -/
theorem nextId_mod_of_run {events : List Event} {r : HistoryRecorder} (h : run events = .ok r)
    (hfew : events.length < 2 ^ 64) : r.nextId % 2 ^ 64 = r.nextId := by
  have hcount : r.nextId ≤ events.length := by
    rw [(recorded_of_run h).nextId]
    exact List.countP_le_length
  exact Nat.mod_eq_of_lt (Nat.lt_of_le_of_lt hcount hfew)

/-! ## Real-time order -/

/-- The call of origin `a` was completed before the call of origin `b` was started,
and the world clock advanced in between. -/
def CompletedBefore (events : List Event) (a b : Origin) : Prop :=
  ∃ p, a.completed = some p ∧ p < b.started ∧
    ∃ ended issued, events[p]? = some ended ∧ events[b.started]? = some issued ∧
      ended.now < issued.now

/-- Positions in a run at non-decreasing times: a later time means a later position. -/
theorem position_lt_of_now_lt {events : List Event} (hmono : events.Pairwise (·.now ≤ ·.now))
    {p q : ℕ} {e e' : Event} (hp : events[p]? = some e) (hq : events[q]? = some e')
    (hlt : e.now < e'.now) : p < q := by
  obtain ⟨hp', rfl⟩ := List.getElem?_eq_some_iff.mp hp
  obtain ⟨hq', rfl⟩ := List.getElem?_eq_some_iff.mp hq
  rcases Nat.lt_trichotomy p q with hpq | rfl | hqp
  · exact hpq
  · exact absurd hlt (Nat.lt_irrefl _)
  · exact absurd hlt (Nat.not_lt.mpr (List.pairwise_iff_getElem.mp hmono q p hq' hp' hqp))

/-- **Real-time order up to the resolution of the clock.**  In a run at
non-decreasing times every entry of the history has an origin, and one entry
precedes another exactly when its call was completed before the other was started,
at a strictly earlier virtual time. -/
theorem precedesInRealTime_iff_completedBefore (events : List Event) (r : HistoryRecorder)
    (hmono : events.Pairwise (·.now ≤ ·.now)) (hrun : run events = .ok r) :
    (∀ call ∈ r.getHistory, ∃ o, Describes events o call) ∧
    ∀ a ∈ r.getHistory, ∀ b ∈ r.getHistory, ∀ oa ob,
      Describes events oa a → Describes events ob b →
        (precedesInRealTime a b = true ↔ CompletedBefore events oa ob) := by
  refine ⟨(recorded_of_run hrun).finalized, fun a _ b _ oa ob ha hb => ?_⟩
  obtain ⟨hstart, -⟩ := hb.started
  rw [precedesInRealTime_iff]
  constructor
  · rintro ⟨t, hend, hlt⟩
    cases hcomp : oa.completed with
    | none =>
      rw [(ha.incomplete hcomp).1] at hend
      simp at hend
    | some p =>
      obtain ⟨now, output, hget, hend', -⟩ := ha.completed p hcomp
      obtain rfl : now = t := Option.some.inj (hend'.symm.trans hend)
      exact ⟨p, hcomp, position_lt_of_now_lt hmono hget hstart hlt, _, _, hget, hstart, hlt⟩
  · rintro ⟨p, hcomp, -, ended, issued, hget, hissued, hlt⟩
    obtain ⟨now, output, hget', hend, -⟩ := ha.completed p hcomp
    obtain rfl := Option.some.inj (hget.symm.trans hget')
    obtain rfl := Option.some.inj (hissued.symm.trans hstart)
    exact ⟨now, hend, hlt⟩

/-- Two calls of one client with a pause between them, and the final sweep. -/
def spacedEvents : List Event :=
  [⟨1, .callStarted "Set" []⟩, ⟨5, .callCompleted 1 []⟩, ⟨6, .callStarted "Get" []⟩,
    ⟨9, .finalize⟩]

theorem precedesInRealTime_iff_completedBefore_spaced :
    ∃ r, run spacedEvents = .ok r ∧ ∀ a ∈ r.getHistory, ∀ b ∈ r.getHistory, ∀ oa ob,
      Describes spacedEvents oa a → Describes spacedEvents ob b →
        (precedesInRealTime a b = true ↔ CompletedBefore spacedEvents oa ob) :=
  ⟨_, rfl, (precedesInRealTime_iff_completedBefore spacedEvents _ (by decide) rfl).2⟩

/-- Two calls of one client; the second starts at the virtual time at which the
first completes. -/
def touchingEvents : List Event :=
  [⟨1, .callStarted "Set" []⟩, ⟨5, .callCompleted 1 []⟩,
    ⟨5, .callStarted "Get" []⟩, ⟨7, .callCompleted 2 []⟩]

/-- The two entries of `touchingEvents` with their origins. -/
theorem describes_touchingEvents :
    Describes touchingEvents ⟨1, 0, some 1⟩ ⟨"Set", ⟨[]⟩, some ⟨[]⟩, 1, some 5, []⟩ ∧
    Describes touchingEvents ⟨2, 2, some 3⟩ ⟨"Get", ⟨[]⟩, some ⟨[]⟩, 5, some 7, []⟩ := by
  constructor
  · refine ⟨⟨rfl, by decide⟩, ?_, by simp⟩
    rintro p ⟨⟩
    exact ⟨5, [], rfl, rfl, rfl⟩
  · refine ⟨⟨rfl, by decide⟩, ?_, by simp⟩
    rintro p ⟨⟩
    exact ⟨7, [], rfl, rfl, rfl⟩

/-- The recorder turns `touchingEvents` into a history of these two entries. -/
theorem run_touchingEvents : ∃ r, run touchingEvents = .ok r ∧ r.getHistory =
    [⟨"Set", ⟨[]⟩, some ⟨[]⟩, 1, some 5, []⟩, ⟨"Get", ⟨[]⟩, some ⟨[]⟩, 5, some 7, []⟩] :=
  ⟨_, rfl, rfl⟩

/-- The order of the recorder's operations is not recorded exactly: the first of two
touching calls was completed before the second was started, but does not precede it. -/
theorem not_precedesInRealTime_iff_completed_first :
    ¬ ∀ (events : List Event) (r : HistoryRecorder), events.Pairwise (·.now ≤ ·.now) →
      run events = .ok r → ∀ a ∈ r.getHistory, ∀ b ∈ r.getHistory, ∀ oa ob,
        Describes events oa a → Describes events ob b →
          (precedesInRealTime a b = true ↔ ∃ p, oa.completed = some p ∧ p < ob.started) := by
  intro h
  obtain ⟨r, hrun, hhist⟩ := run_touchingEvents
  obtain ⟨hset, hget⟩ := describes_touchingEvents
  have hiff := h touchingEvents r (by decide) hrun _ (by rw [hhist]; exact List.mem_cons_self ..)
    _ (by rw [hhist]; exact List.mem_cons_of_mem _ (List.mem_cons_self ..)) _ _ hset hget
  exact absurd (hiff.mpr ⟨1, rfl, by decide⟩) (by decide)

end HistoryRecorder

end Whirl
