/-
# The verdict of a simulation

The clients of a key-value store call it through `HistoryChannel`, and when the simulation is
over `LinCheck` judges the history that the recorder has kept.  The verdict is about the calls
themselves: whether one store, which executes each call at one moment between the call and the
return of its future, can have given the answers that the clients got.
-/
import WhirlMatrix.History.Channel
import WhirlMatrix.Semantics.KVStore

namespace Whirl

open Semantics

/-! ## What the clients can tell -/

/-- When the future of a call returned what message, if it did. -/
def ClientCall.answer (call : ClientCall) : Option (ℕ × Bytes) :=
  match call.result with
  | some (t, .ok message) => some (t, message)
  | _ => none

/-- The client of the first call had its answer before the second call was made. -/
def ClientCall.AnsweredBefore (call call' : ClientCall) : Prop :=
  ∃ t message, call.answer = some (t, message) ∧ t < call'.startTime

section

variable {call call' : ClientCall}

theorem ClientCall.endTime_toCall (call : ClientCall) :
    call.toCall.endTime = call.answer.map Prod.fst := by
  rw [toCall, answer]
  cases call.result with
  | none => rfl
  | some result => obtain ⟨t, message | code⟩ := result <;> rfl

theorem ClientCall.result_toCall (call : ClientCall) :
    call.toCall.result = call.answer.map fun answer => ⟨answer.2⟩ := by
  rw [toCall, answer]
  cases call.result with
  | none => rfl
  | some result => obtain ⟨t, message | code⟩ := result <;> rfl

theorem ClientCall.startTime_toCall (call : ClientCall) :
    call.toCall.startTime = call.startTime := by
  rw [toCall]
  split <;> rfl

theorem ClientCall.isCompleted_toCall : call.toCall.isCompleted = false ↔ call.answer = none := by
  rw [Call.isCompleted, endTime_toCall, Option.isSome_map]
  exact Option.isSome_eq_false_iff.trans Option.isNone_iff_eq_none

theorem ClientCall.precedesInRealTime_toCall :
    precedesInRealTime call.toCall call'.toCall = true ↔ call.AnsweredBefore call' := by
  rw [precedesInRealTime_iff, endTime_toCall, startTime_toCall]
  constructor
  · rintro ⟨t, hend, hlt⟩
    obtain ⟨⟨t', message⟩, hanswer, rfl⟩ := Option.map_eq_some_iff.mp hend
    exact ⟨t', message, hanswer, hlt⟩
  · rintro ⟨t, message, hanswer, hlt⟩
    exact ⟨t, by rw [hanswer, Option.map_some], hlt⟩

end

/-! ## One store -/

variable {K V : Type} [DecidableEq K] [DecidableEq V] [Inhabited V] {muesli : Muesli K V}

/-- A store executes a call, and gives the answer that the client got. -/
def ClientCall.Executes (muesli : Muesli K V) (state : KVStoreState K V) (call : ClientCall)
    (state' : KVStoreState K V) : Prop :=
  ∃ value, KVStoreModel.apply muesli state call.method ⟨call.input⟩ = .ok ⟨true, value, state'⟩ ∧
    ∀ t message, call.answer = some (t, message) → message = value.bytes

/-- One store can have given the answers: the calls that were answered, and some of the others
that may have been executed, can be executed one after another by a new store so that no call
is executed after one that was made after its answer. -/
def Clients.Explained (muesli : Muesli K V) (c : Clients) : Prop :=
  Linearization.Linearizable (fun call => call.answer = none) ClientCall.AnsweredBefore
    (ClientCall.Executes muesli) {} (c.calls.filter ClientCall.mayHaveRun)

theorem Semantics.KVStoreModel.ok_of_apply_eq_ok {state : KVStoreState K V} {method : String}
    {arguments : Arguments} {result : Result (KVStoreState K V)}
    (h : apply muesli state method arguments = .ok result) : result.ok = true := by
  rw [apply] at h
  split at h
  · obtain ⟨kv, -, h⟩ := Outcome.bind_eq_ok.mp h
    obtain rfl := Except.ok.inj h
    rfl
  split at h
  · obtain ⟨k, -, h⟩ := Outcome.bind_eq_ok.mp h
    obtain rfl := Except.ok.inj h
    rfl
  split at h
  · obtain ⟨kvv, -, h⟩ := Outcome.bind_eq_ok.mp h
    obtain rfl := Except.ok.inj h
    rfl
  · cases h

/-- The checker's model accepts the entry of a call when a store executes the call. -/
theorem ClientCall.accepts_toCall {state state' : KVStoreState K V} {call : ClientCall} :
    Accepts (KVStoreModel.model muesli).toModel state call.toCall state' ↔
      call.Executes muesli state state' := by
  have hmethod : call.toCall.method = call.method := by
    rw [toCall]
    split <;> rfl
  have harguments : call.toCall.arguments = ⟨call.input⟩ := by
    rw [toCall]
    split <;> rfl
  have hvalue : ∀ value : Value, (call.toCall.isCompleted = true → call.toCall.result = some value) ↔
      ∀ t message, call.answer = some (t, message) → message = value.bytes := by
    intro value
    rw [Call.isCompleted, endTime_toCall, result_toCall]
    obtain _ | ⟨t, message⟩ := call.answer
    · simp
    · constructor
      · rintro h _ _ ⟨⟩
        exact congrArg Value.bytes (Option.some.inj (h rfl))
      · intro h _
        rw [Option.map_some, h t message rfl]
  rw [Accepts, Executes, hmethod, harguments, hvalue]
  cases happly : KVStoreModel.apply muesli state call.method ⟨call.input⟩ with
  | error e =>
    have hmodel : (KVStoreModel.model muesli).toModel.apply state call.method ⟨call.input⟩
        = ⟨false, muesli.makeUnit, state⟩ := by
      simp only [KVStoreModel.model, happly]
    rw [hmodel]
    simp
  | ok result =>
    have hok := KVStoreModel.ok_of_apply_eq_ok happly
    have hmodel : (KVStoreModel.model muesli).toModel.apply state call.method ⟨call.input⟩
        = result := by
      simp only [KVStoreModel.model, happly]
    rw [hmodel]
    obtain ⟨ok, value, next⟩ := result
    obtain rfl : ok = true := hok
    constructor
    · rintro ⟨-, rfl, hanswer⟩
      exact ⟨value, rfl, hanswer⟩
    · rintro ⟨_, ⟨⟩, hanswer⟩
      exact ⟨rfl, rfl, hanswer⟩

namespace Clients

variable {c : Clients}

/-- **The history is as linearizable as the calls.** -/
theorem Recorded.linearizable_iff (h : c.Recorded) :
    Linearizable (KVStoreModel.model muesli).toModel c.history ↔ c.Explained muesli := by
  have hmap : Linearizable (KVStoreModel.model muesli).toModel
      ((c.calls.filter ClientCall.mayHaveRun).map ClientCall.toCall) ↔ c.Explained muesli := by
    refine Linearization.linearizable_map_iff.trans ?_
    simp only [ClientCall.isCompleted_toCall, ClientCall.precedesInRealTime_toCall,
      ClientCall.accepts_toCall]
    exact Iff.rfl
  rw [← hmap]
  constructor
  · intro hlin
    exact Linearization.Linearizable.perm hlin h.history_perm
  · intro hlin
    exact Linearization.Linearizable.perm hlin h.history_perm.symm

/-- Each entry of the history was made for a call. -/
theorem Recorded.exists_of_mem_history (h : c.Recorded) {entry : Call} (hentry : entry ∈ c.history) :
    ∃ call ∈ c.calls, call.toCall = entry := by
  obtain ⟨call, hcall, heq⟩ := List.mem_map.mp (h.history_perm.mem_iff.mp hentry)
  exact ⟨call, (List.mem_filter.mp hcall).1, heq⟩

/-- No answer came before its call. -/
theorem Recorded.wellTimed (h : c.Recorded) : WellTimed c.history := by
  intro entry hentry t hend
  obtain ⟨call, hcall, rfl⟩ := h.exists_of_mem_history hentry
  rw [ClientCall.endTime_toCall, Option.map_eq_some_iff] at hend
  obtain ⟨⟨t', message⟩, hanswer, rfl⟩ := hend
  rw [ClientCall.startTime_toCall]
  rw [ClientCall.answer] at hanswer
  split at hanswer
  · rename_i hresult
    obtain ⟨rfl, rfl⟩ := Prod.mk.inj (Option.some.inj hanswer)
    exact (h.times call hcall).2 _ _ hresult
  · cases hanswer

/-- The decomposition of a history of a store has a single part. -/
theorem linCheck_eq {history : Semantics.History} {timeLimit : UInt64} {ok : Bool}
    (h : linCheckImpl (KVStoreModel.model muesli) timeLimit
      (cleanup (KVStoreModel.model muesli) history) = some ok) :
    linCheck (KVStoreModel.model muesli) timeLimit history = some ok := by
  show (do
    let ok ← linCheckImpl (KVStoreModel.model muesli) timeLimit
      (cleanup (KVStoreModel.model muesli) history)
    if !ok then return false
    some true : Option Bool) = some ok
  rw [h]
  cases ok <;> rfl

/-- **The verdict is about the store.**  Whatever the clients of a store do and whichever of their
futures return: no check of the recorder fails; if one store can have given the answers, then the
history is accepted, whatever the budget of the search; and a search that ends within its budget
accepts the history if one store can have given the answers, and rejects it otherwise. -/
theorem verdict_of_reaches (hrun : Runs.Reaches execute Allowed {} c)
    (hcalls : ∀ call ∈ c.calls, KVStoreModel.IsCall muesli call.toCall) (timeLimit : UInt64) :
    (∀ op, Allowed c op → ∃ c', c.execute op = .ok c') ∧
      (c.Explained muesli →
        linCheck (KVStoreModel.model muesli) timeLimit c.history = some true) ∧
      (Decides (KVStoreModel.model muesli) timeLimit
          (cleanup (KVStoreModel.model muesli) c.history) →
        c.Explained muesli ∧ linCheck (KVStoreModel.model muesli) timeLimit c.history = some true ∨
        ¬ c.Explained muesli ∧
          linCheck (KVStoreModel.model muesli) timeLimit c.history = some false) := by
  have h := recorded_of_reaches hrun
  have hcleanup : Linearizable (KVStoreModel.model muesli).toModel
      (cleanup (KVStoreModel.model muesli) c.history) ↔ c.Explained muesli := by
    rw [← h.linearizable_iff]
    apply linearizable_cleanup_iff
    intro entry hentry hread
    obtain ⟨call, hcall, rfl⟩ := h.exists_of_mem_history hentry
    exact KVStoreModel.nextState_of_not_isMutation (hcalls call hcall) hread
  refine ⟨?_, ?_, ?_⟩
  · intro op hop
    obtain ⟨c', hc', -⟩ := h.exists_execute hop
    exact ⟨c', hc'⟩
  · intro hexplained
    exact linCheck_eq (linCheckImpl_of_linearizable h.wellTimed.cleanup (hcleanup.mpr hexplained))
  · intro hdecides
    obtain ⟨himpl, hlin⟩ | ⟨himpl, hlin⟩ := linCheckImpl_of_decides h.wellTimed.cleanup hdecides
    · exact Or.inl ⟨hcleanup.mp hlin, linCheck_eq himpl⟩
    · exact Or.inr ⟨fun hexplained => hlin (hcleanup.mpr hexplained), linCheck_eq himpl⟩

/-- A write; then a read that gets the old value, a read whose future does not return, and a
write that certainly fails. -/
def staleReadOps : List ClientOp :=
  [.call "Set" [1, 7] "", .tick 2, .respond 1 (.ok []), .tick 3, .call "Get" [1] "trace",
    .call "Get" [1] "", .call "Set" [1, 9] "", .tick 4, .respond 2 (.ok [0]),
    .respond 4 (.error (.other 0))]

/-- The answers cannot have been given by one store, and the history is rejected. -/
theorem verdict_of_reaches_staleRead : ∃ c, Runs.Reaches execute Allowed {} c ∧
    ¬ c.Explained byteMuesli ∧
    linCheck (KVStoreModel.model byteMuesli) 100 c.history = some false := by
  have hexec : (Runs.exec execute Allowed {} staleReadOps).map (fun c => (c.calls, c.history))
      = some ([⟨"Set", [1, 7], "", 0, some (2, .ok [])⟩, ⟨"Get", [1], "trace", 3, some (4, .ok [0])⟩,
        ⟨"Get", [1], "", 3, none⟩, ⟨"Set", [1, 9], "", 3, some (4, .error (.other 0))⟩],
        [⟨"Set", ⟨[1, 7]⟩, some ⟨[]⟩, 0, some 2, []⟩,
          ⟨"Get", ⟨[1]⟩, some ⟨[0]⟩, 3, some 4, ["trace"]⟩, ⟨"Get", ⟨[1]⟩, none, 3, none, []⟩]) := by
    decide +kernel
  obtain ⟨c, hc, heq⟩ := Option.map_eq_some_iff.mp hexec
  obtain ⟨hcalls, hhistory⟩ := Prod.mk.inj heq
  have hiscall : ∀ call ∈ c.calls, KVStoreModel.IsCall byteMuesli call.toCall := by
    rw [hcalls]
    intro call hcall
    simp only [List.mem_cons, List.not_mem_nil, or_false] at hcall
    obtain rfl | rfl | rfl | rfl := hcall
    · exact Or.inl ⟨rfl, _, rfl⟩
    · exact Or.inr (Or.inl ⟨rfl, _, rfl⟩)
    · exact Or.inr (Or.inl ⟨rfl, _, rfl⟩)
    · exact Or.inl ⟨rfl, _, rfl⟩
  have hdecides : Decides (KVStoreModel.model byteMuesli) 100
      (cleanup (KVStoreModel.model byteMuesli) c.history) := by
    rw [hhistory]
    exact ⟨_, _, rfl, by decide⟩
  have hrun := Runs.reaches_of_exec hc
  obtain ⟨-, -, hverdict⟩ := verdict_of_reaches hrun hiscall 100
  obtain ⟨-, haccepted⟩ | ⟨hexplained, hrejected⟩ := hverdict hdecides
  · have hcheck : linCheck (KVStoreModel.model byteMuesli) 100 c.history = some false := by
      rw [hhistory]
      decide
    rw [hcheck] at haccepted
    cases haccepted
  · exact ⟨c, hrun, hexplained, hrejected⟩

end Clients

end Whirl
