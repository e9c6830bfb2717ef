/-
# The brute-force linearizability checker

`LinChecker` of `semantics/checker/brute.hpp`: a backtracking search over an
array of calls whose first `count` entries are the calls not yet placed.
`check_exact` says that its verdict is exact unless the search budget ran out.
-/
import WhirlMatrix.Library.Linearization
import WhirlMatrix.Semantics.History
import Mathlib.Data.UInt
import Mathlib.Data.List.Basic

namespace Whirl.Semantics

variable {State : Type}

/-- `LinChecker` with the `time_limit` of its `Options`. -/
structure LinChecker where
  calls : Array Call
  linear : Array Call
  count : ℕ
  timeLimit : UInt64
  time : UInt64

namespace LinChecker

/-- The constructor `LinChecker(history, options)`. -/
def make (history : History) (timeLimit : UInt64) : LinChecker where
  calls := history.toArray
  linear := #[]
  count := history.length
  timeLimit := timeLimit
  time := 0

/-- The inner loop of `Search`: no call among the first `count` precedes call `i`. -/
def candidate (c : LinChecker) (i : ℕ) : Bool :=
  (List.range c.count).all fun j => !precedesInRealTime c.calls[j]! c.calls[i]!

/-- The first half of `StepInto`: call `i` leaves the first `count` calls. -/
def place (c : LinChecker) (i : ℕ) : LinChecker :=
  { c with
    linear := c.linear.push c.calls[i]!
    calls := c.calls.swapIfInBounds i (c.count - 1)
    count := c.count - 1 }

/-- The second half of `StepInto`. -/
def restore (c : LinChecker) (i : ℕ) : LinChecker :=
  { c with
    count := c.count + 1
    calls := c.calls.swapIfInBounds i (c.count + 1 - 1)
    linear := c.linear.pop }

/-- `StepInto`, over the recursive call of `Search`. -/
def stepInto (search : State → LinChecker → Option (Bool × LinChecker)) (i : ℕ)
    (nextState : State) (c : LinChecker) : Option (Bool × LinChecker) := do
  let (succeeded, c) ← search nextState (c.place i)
  return (succeeded, c.restore i)

/-- The body of the loop of `Search` for the index `i`; `true` is an early return. -/
def tryCall (M : Model State) (search : State → LinChecker → Option (Bool × LinChecker))
    (currState : State) (i : ℕ) (c : LinChecker) : Option (Bool × LinChecker) := do
  if !c.candidate i then
    return (false, c)
  let (dropped, c) ←
    if !c.calls[i]!.isCompleted then stepInto search i currState c else some (false, c)
  if dropped then
    return (true, c)
  let result := M.apply currState c.calls[i]!.method c.calls[i]!.arguments
  if result.ok && (!c.calls[i]!.isCompleted || c.calls[i]!.result == some result.value) then
    stepInto search i result.nextState c
  else
    return (false, c)

/-- The loop of `Search`. -/
def searchLoop (M : Model State) (search : State → LinChecker → Option (Bool × LinChecker))
    (currState : State) : List ℕ → LinChecker → Option (Bool × LinChecker)
  | [], c => some (false, c)
  | i :: is, c => do
    let (found, c) ← tryCall M search currState i c
    if found then
      return (true, c)
    searchLoop M search currState is c

/-- `Search`.  The first argument bounds the depth of the recursion; `search_exact`
shows that any bound above `count` is enough. -/
def search (M : Model State) : ℕ → State → LinChecker → Option (Bool × LinChecker)
  | 0, _, _ => none
  | depth + 1, currState, c =>
    let c := { c with time := c.time + 1 }
    if c.timeLimit < c.time then
      some (true, c)
    else if c.count = 0 then
      some (true, c)
    else
      searchLoop M (search M depth) currState (List.range c.count) c

/-- `Check`. -/
def check (M : Model State) (c : LinChecker) : Option (Bool × LinChecker) :=
  search M (c.count + 1) M.initialState c

/-! ## Placing a call and taking it back -/

/-- The calls not placed yet. -/
def remaining (c : LinChecker) : List Call := c.calls.toList.take c.count

/-- `StepInto` puts everything back, whatever `Search` did to the clock. -/
theorem restore_place (c : LinChecker) {i : ℕ} (t : UInt64) (hi : i < c.count)
    (hc : c.count ≤ c.calls.size) :
    restore { c.place i with time := t } i = { c with time := t } := by
  have hcount : c.count - 1 + 1 = c.count := by omega
  have hswap : (c.calls.swapIfInBounds i (c.count - 1)).swapIfInBounds i (c.count - 1) = c.calls := by
    apply Array.ext
    · simp
    · intro k hk hk'
      grind
  simp [restore, place, hcount, hswap]

/-- The last of the first `count` calls after placing call `i` is call `i` itself. -/
theorem take_swap_eq {calls : Array Call} {i n : ℕ} (hi : i < n) (hn : n ≤ calls.size) :
    (calls.swapIfInBounds i (n - 1)).toList.take n
      = (calls.swapIfInBounds i (n - 1)).toList.take (n - 1) ++ [calls[i]!] := by
  obtain ⟨m, rfl⟩ : ∃ m, n = m + 1 := ⟨n - 1, by omega⟩
  have hm : m < (calls.swapIfInBounds i m).toList.length := by simp; omega
  have hget : (calls.swapIfInBounds i m).toList[m] = calls[i]! := by
    rw [Array.getElem_toList, Array.getElem_swapIfInBounds_right (by omega),
      getElem!_pos calls i (by omega)]
  rw [Nat.add_sub_cancel, List.take_succ_eq_append_getElem hm, hget]

/-- Placing call `i` removes exactly it from the remaining calls. -/
theorem remaining_perm_place (c : LinChecker) {i : ℕ} (hi : i < c.count)
    (hc : c.count ≤ c.calls.size) :
    c.remaining.Perm (c.calls[i]! :: (c.place i).remaining) := by
  have hperm : (c.calls.swapIfInBounds i (c.count - 1)).toList.Perm c.calls.toList := by
    rw [Array.swapIfInBounds_def, dif_pos (by omega), dif_pos (by omega)]
    exact (Array.swap_perm _ _).toList
  have hdrop : (c.calls.swapIfInBounds i (c.count - 1)).toList.drop c.count
      = c.calls.toList.drop c.count := by
    apply List.ext_getElem
    · simp
    · intro k hk hk'
      simp only [List.getElem_drop, Array.getElem_toList]
      rw [Array.getElem_swapIfInBounds_of_ne_of_ne (by omega) (by omega)]
  rw [← List.take_append_drop c.count c.calls.toList,
    ← List.take_append_drop c.count (c.calls.swapIfInBounds i (c.count - 1)).toList, hdrop,
    List.perm_append_right_iff, take_swap_eq hi hc] at hperm
  exact hperm.symm.trans List.perm_append_comm

theorem mem_remaining {c : LinChecker} {call : Call} (hc : c.count ≤ c.calls.size) :
    call ∈ c.remaining ↔ ∃ i < c.count, c.calls[i]! = call := by
  simp only [remaining, List.mem_take_iff_getElem, Array.getElem_toList, Array.length_toList,
    Nat.min_eq_left hc]
  constructor
  · rintro ⟨i, hi, rfl⟩
    exact ⟨i, hi, getElem!_pos c.calls i (by omega)⟩
  · rintro ⟨i, hi, rfl⟩
    exact ⟨i, hi, (getElem!_pos c.calls i (by omega)).symm⟩

theorem candidate_iff {c : LinChecker} {i : ℕ} (hc : c.count ≤ c.calls.size) :
    c.candidate i = true ↔ ∀ b ∈ c.remaining, ¬ precedesInRealTime b c.calls[i]! = true := by
  simp only [candidate, List.all_eq_true, List.mem_range, Bool.not_eq_true', mem_remaining hc,
    Bool.not_eq_true]
  constructor
  · rintro h b ⟨j, hj, rfl⟩
    exact h j hj
  · intro h j hj
    exact h _ ⟨j, hj, rfl⟩

end LinChecker

/-! ## Linearizability of a history -/

/-- The model accepts a call in state `s`; a completed call must get its recorded
result. -/
def Accepts (M : Model State) (s : State) (call : Call) (s' : State) : Prop :=
  (M.apply s call.method call.arguments).ok = true ∧
  (M.apply s call.method call.arguments).nextState = s' ∧
  (call.isCompleted = true → call.result = some (M.apply s call.method call.arguments).value)

/-- The calls `calls` are linearizable from the state `s`. -/
def LinearizableFrom (M : Model State) (s : State) (calls : List Call) : Prop :=
  Linearization.Linearizable (fun c => c.isCompleted = false)
    (fun a b => precedesInRealTime a b = true) (Accepts M) s calls

/-- A history is linearizable: all its completed calls and some of the incomplete
ones can be lined up, respecting `PrecedesInRealTime`, as a run of the model. -/
def Linearizable (M : Model State) (history : History) : Prop :=
  LinearizableFrom M M.initialState history

/-- Every completed call ends no earlier than it starts. -/
def WellTimed (calls : List Call) : Prop :=
  ∀ c ∈ calls, ∀ t, c.endTime = some t → c.startTime ≤ t

namespace LinChecker

/-! ## Exactness of the search -/

/-- What a piece of the search that looks for `Goal` may do to a checker: only the
clock moves, success means `Goal` or an exhausted budget, failure refutes `Goal`. -/
def Exact (Goal : Prop) (c : LinChecker) (r : Option (Bool × LinChecker)) : Prop :=
  ∃ ok t, r = some (ok, { c with time := t }) ∧
    (ok = true → Goal ∨ c.timeLimit < t) ∧ (ok = false → ¬ Goal)

theorem Exact.congr {Goal Goal' : Prop} {c : LinChecker} {r : Option (Bool × LinChecker)}
    (h : Exact Goal c r) (hg : Goal ↔ Goal') : Exact Goal' c r := by
  rwa [Exact, ← hg]

/-- Call `i` can be disposed of first: nothing precedes it, and it is either dropped
or accepted by the model, with the rest linearizable. -/
def First (M : Model State) (s : State) (c : LinChecker) (i : ℕ) : Prop :=
  c.candidate i = true ∧
    ((c.calls[i]!.isCompleted = false ∧ LinearizableFrom M s (c.place i).remaining) ∨
      ∃ s', Accepts M s c.calls[i]! s' ∧ LinearizableFrom M s' (c.place i).remaining)

/-- The remaining calls are linearizable exactly when some index can come first. -/
theorem linearizableFrom_iff_first {M : Model State} {s : State} {c : LinChecker}
    (hc : c.count ≤ c.calls.size) (hpos : c.count ≠ 0) (ht : WellTimed c.remaining) :
    LinearizableFrom M s c.remaining ↔ ∃ i ∈ List.range c.count, First M s c i := by
  have hirrefl : ∀ a ∈ c.remaining, ¬ precedesInRealTime a a = true := fun a ha =>
    not_precedesInRealTime_self (ht a ha)
  constructor
  · intro h
    have hne : c.remaining ≠ [] := by
      intro hnil
      have hmem : c.calls[0]! ∈ c.remaining := (mem_remaining hc).mpr ⟨0, by omega, rfl⟩
      simp [hnil] at hmem
    obtain ⟨a, rest, hperm, hmin, hfirst⟩ := Linearization.Linearizable.exists_first h hne hirrefl
      (fun a b ha => not_precedesInRealTime_of_incomplete ha)
    obtain ⟨i, hi, rfl⟩ := (mem_remaining hc).mp (hperm.mem_iff.mpr (List.mem_cons_self ..))
    have hrest : rest.Perm (c.place i).remaining :=
      List.Perm.cons_inv (hperm.symm.trans (c.remaining_perm_place hi hc))
    refine ⟨i, List.mem_range.mpr hi, (candidate_iff hc).mpr hmin, ?_⟩
    rcases hfirst with ⟨hpend, hlin⟩ | ⟨s', hstep, hlin⟩
    · exact Or.inl ⟨hpend, hlin.perm hrest⟩
    · exact Or.inr ⟨s', hstep, hlin.perm hrest⟩
  · rintro ⟨i, hi, hcand, hfirst⟩
    have hperm := c.remaining_perm_place (List.mem_range.mp hi) hc
    have hmin : ∀ b ∈ (c.place i).remaining, ¬ precedesInRealTime b c.calls[i]! = true := by
      intro b hb
      exact (candidate_iff hc).mp hcand b (hperm.mem_iff.mpr (List.mem_cons_of_mem _ hb))
    rcases hfirst with ⟨hpend, hlin⟩ | ⟨s', hstep, hlin⟩
    · exact (Linearization.Linearizable.cons_pending hlin hpend).perm hperm.symm
    · exact (Linearization.Linearizable.cons_step hlin hstep hmin).perm hperm.symm

/-- `StepInto` finds what the recursive search finds, and undoes its own moves. -/
theorem stepInto_exact {Goal : Prop} {search : State → LinChecker → Option (Bool × LinChecker)}
    {s : State} {c : LinChecker} {i : ℕ} (hi : i < c.count) (hc : c.count ≤ c.calls.size)
    (h : Exact Goal (c.place i) (search s (c.place i))) :
    Exact Goal c (stepInto search i s c) := by
  obtain ⟨ok, t, hsearch, htrue, hfalse⟩ := h
  refine ⟨ok, t, ?_, htrue, hfalse⟩
  simp only [stepInto, hsearch, Option.bind_eq_bind, Option.bind_some, restore_place c t hi hc]
  rfl

/-- The body of the loop decides whether call `i` can be disposed of first. -/
theorem tryCall_exact {M : Model State}
    {search : State → LinChecker → Option (Bool × LinChecker)} {s : State} {c : LinChecker} {i : ℕ}
    (hi : i < c.count) (hc : c.count ≤ c.calls.size)
    (h : ∀ t s', Exact (LinearizableFrom M s' (c.place i).remaining)
      ({ c with time := t }.place i) (search s' ({ c with time := t }.place i))) :
    Exact (First M s c i) c (tryCall M search s i c) := by
  have hstep : ∀ t s', Exact (LinearizableFrom M s' (c.place i).remaining) { c with time := t }
      (stepInto search i s' { c with time := t }) := fun t s' => stepInto_exact hi hc (h t s')
  unfold tryCall
  by_cases hcand : c.candidate i = true
  swap
  · -- some remaining call precedes call `i`
    refine ⟨false, c.time, by simp [hcand], by simp, fun _ hfirst => hcand hfirst.1⟩
  by_cases hcomp : c.calls[i]!.isCompleted = true
  · -- a completed call can only be executed
    by_cases hres : (M.apply s c.calls[i]!.method c.calls[i]!.arguments).ok = true ∧
        c.calls[i]!.result = some (M.apply s c.calls[i]!.method c.calls[i]!.arguments).value
    · obtain ⟨ok, t, hrun, htrue, hfalse⟩ := hstep c.time
        (M.apply s c.calls[i]!.method c.calls[i]!.arguments).nextState
      refine ⟨ok, t, by simp [hcand, hcomp, hres.1, ← hres.2, hrun], fun hok => ?_, fun hok => ?_⟩
      · exact (htrue hok).imp (fun hlin => ⟨hcand, Or.inr ⟨_, ⟨hres.1, rfl, fun _ => hres.2⟩, hlin⟩⟩) id
      · rintro ⟨-, ⟨hpend, -⟩ | ⟨s', ⟨-, rfl, -⟩, hlin⟩⟩
        · simp [hcomp] at hpend
        · exact hfalse hok hlin
    · refine ⟨false, c.time, ?_, by simp, fun _ => ?_⟩
      · simp only [hcand, hcomp, Bool.not_true, Bool.false_eq_true, if_false, Option.bind_eq_bind,
          Option.bind_some, Bool.false_or]
        rw [if_neg (by simpa using hres)]
        rfl
      · rintro ⟨-, ⟨hpend, -⟩ | ⟨s', ⟨hok, -, hval⟩, -⟩⟩
        · simp [hcomp] at hpend
        · exact hres ⟨hok, hval hcomp⟩
  · -- an incomplete call is dropped first and executed if that fails
    have hpend : c.calls[i]!.isCompleted = false := by simpa using hcomp
    obtain ⟨ok₁, t₁, hdrop, htrue₁, hfalse₁⟩ := hstep c.time s
    cases ok₁ with
    | true =>
      refine ⟨true, t₁, by simp [hcand, hpend, hdrop], fun _ => ?_, by simp⟩
      exact (htrue₁ rfl).imp (fun hlin => ⟨hcand, Or.inl ⟨hpend, hlin⟩⟩) id
    | false =>
      have hnodrop := hfalse₁ rfl
      by_cases hok : (M.apply s c.calls[i]!.method c.calls[i]!.arguments).ok = true
      · obtain ⟨ok₂, t₂, hrun, htrue₂, hfalse₂⟩ := hstep t₁
          (M.apply s c.calls[i]!.method c.calls[i]!.arguments).nextState
        refine ⟨ok₂, t₂, by simp [hcand, hpend, hdrop, hok, hrun], fun h₂ => ?_, fun h₂ => ?_⟩
        · exact (htrue₂ h₂).imp
            (fun hlin => ⟨hcand, Or.inr ⟨_, ⟨hok, rfl, by simp [hpend]⟩, hlin⟩⟩) id
        · rintro ⟨-, ⟨-, hlin⟩ | ⟨s', ⟨-, rfl, -⟩, hlin⟩⟩
          · exact hnodrop hlin
          · exact hfalse₂ h₂ hlin
      · refine ⟨false, t₁, by simp [hcand, hpend, hdrop, hok], by simp, fun _ => ?_⟩
        rintro ⟨-, ⟨-, hlin⟩ | ⟨s', ⟨hok', -⟩, -⟩⟩
        · exact hnodrop hlin
        · exact hok hok'

/-- The loop decides whether some index of its list can come first. -/
theorem searchLoop_exact {M : Model State}
    {search : State → LinChecker → Option (Bool × LinChecker)} {s : State} {c : LinChecker}
    {is : List ℕ} (h : ∀ i ∈ is, ∀ t, Exact (First M s c i) { c with time := t }
      (tryCall M search s i { c with time := t })) (t : UInt64) :
    Exact (∃ i ∈ is, First M s c i) { c with time := t }
      (searchLoop M search s is { c with time := t }) := by
  induction is generalizing t with
  | nil => exact ⟨false, t, rfl, by simp, by simp⟩
  | cons i is ih =>
    obtain ⟨ok, t', htry, htrue, hfalse⟩ := h i (by simp) t
    cases ok with
    | true =>
      refine ⟨true, t', by simp [searchLoop, htry], fun _ => ?_, by simp⟩
      exact (htrue rfl).imp (fun hfirst => ⟨i, by simp, hfirst⟩) id
    | false =>
      obtain ⟨ok, t'', hloop, htrue', hfalse'⟩ := ih (fun j hj => h j (by simp [hj])) t'
      refine ⟨ok, t'', by simp [searchLoop, htry, hloop], fun hok => ?_, fun hok => ?_⟩
      · refine (htrue' hok).imp ?_ id
        rintro ⟨j, hj, hfirst⟩
        exact ⟨j, by simp [hj], hfirst⟩
      · rintro ⟨j, hj, hfirst⟩
        rcases List.mem_cons.mp hj with rfl | hj
        · exact hfalse rfl hfirst
        · exact hfalse' hok ⟨j, hj, hfirst⟩

/-- **The search is exact.**  Induction on the depth: every recursive call sees one
call less. -/
theorem search_exact (M : Model State) (depth : ℕ) (s : State) (c : LinChecker)
    (hdepth : c.count < depth) (hc : c.count ≤ c.calls.size) (ht : WellTimed c.remaining) :
    Exact (LinearizableFrom M s c.remaining) c (search M depth s c) := by
  induction depth generalizing s c with
  | zero => omega
  | succ depth ih =>
    unfold search
    by_cases hlimit : c.timeLimit < c.time + 1
    · exact ⟨true, c.time + 1, by simp [hlimit], fun _ => Or.inr hlimit, by simp⟩
    by_cases hzero : c.count = 0
    · refine ⟨true, c.time + 1, by simp [hlimit, hzero], fun _ => Or.inl ?_, by simp⟩
      simp [remaining, hzero, LinearizableFrom, Linearization.linearizable_nil]
    simp only [hlimit, hzero, if_false]
    refine (searchLoop_exact (c := c) (fun i hi t => ?_) (c.time + 1)).congr
      (linearizableFrom_iff_first hc hzero ht).symm
    have hlt : i < c.count := List.mem_range.mp hi
    refine tryCall_exact (c := { c with time := t }) hlt hc (fun t' s' => ?_)
    have hperm := c.remaining_perm_place hlt hc
    refine ih s' ({ c with time := t' }.place i) ?_ ?_ ?_
    · show c.count - 1 < depth
      omega
    · show c.count - 1 ≤ (c.calls.swapIfInBounds i (c.count - 1)).size
      rw [Array.size_swapIfInBounds]
      omega
    · intro call hcall
      exact ht call (hperm.mem_iff.mpr (List.mem_cons_of_mem _ hcall))

end LinChecker

/-- **The checker is exact.**  `Check` always returns; its rejections are right, and so
are its acceptances within the search budget. -/
theorem check_exact (M : Model State) (history : History) (timeLimit : UInt64)
    (ht : WellTimed history) :
    ∃ ok c, LinChecker.check M (LinChecker.make history timeLimit) = some (ok, c) ∧
      (ok = false → ¬ Linearizable M history) ∧
      (ok = true → c.time ≤ timeLimit → Linearizable M history) := by
  have hrem : (LinChecker.make history timeLimit).remaining = history := by
    simp [LinChecker.remaining, LinChecker.make]
  obtain ⟨ok, t, hcheck, htrue, hfalse⟩ := LinChecker.search_exact M (history.length + 1)
    M.initialState (LinChecker.make history timeLimit) (Nat.lt_succ_self _)
    (by simp [LinChecker.make]) (hrem.symm ▸ ht)
  rw [hrem] at htrue hfalse
  refine ⟨ok, _, hcheck, hfalse, fun hok hle => ?_⟩
  rcases htrue hok with hlin | hlt
  · exact hlin
  · exact absurd hlt (UInt64.not_lt.mpr hle)

/-- A register of one byte. -/
def registerModel : Model UInt8 where
  initialState := 0
  apply state method arguments :=
    if method = "Set" then ⟨true, ⟨[]⟩, arguments.bytes.headD 0⟩ else ⟨true, ⟨[state]⟩, state⟩

/-- A write of 7 that never returned, and two reads one after the other. -/
def pendingWriteHistory (first second : UInt8) : History :=
  [⟨"Set", ⟨[7]⟩, none, 1, none, []⟩, ⟨"Get", ⟨[]⟩, some ⟨[first]⟩, 2, some 3, []⟩,
    ⟨"Get", ⟨[]⟩, some ⟨[second]⟩, 4, some 5, []⟩]

/-- The write may take effect between the two reads, but it is not undone. -/
theorem check_exact_pendingWrite :
    Linearizable registerModel (pendingWriteHistory 0 7) ∧
      ¬ Linearizable registerModel (pendingWriteHistory 7 0) := by
  have ht : ∀ first second, WellTimed (pendingWriteHistory first second) := by
    intro first second
    simp [WellTimed, pendingWriteHistory]
  have haccept : (LinChecker.check registerModel
      (LinChecker.make (pendingWriteHistory 0 7) 100)).map (fun r => (r.1, decide (r.2.time ≤ 100)))
        = some (true, true) := by decide
  have hreject : (LinChecker.check registerModel
      (LinChecker.make (pendingWriteHistory 7 0) 100)).map Prod.fst = some false := by decide
  obtain ⟨ok, c, hcheck, -, hlin⟩ :=
    check_exact registerModel (pendingWriteHistory 0 7) 100 (ht 0 7)
  obtain ⟨ok', c', hcheck', hnot, -⟩ :=
    check_exact registerModel (pendingWriteHistory 7 0) 100 (ht 7 0)
  rw [hcheck] at haccept
  rw [hcheck'] at hreject
  obtain ⟨hok, htime⟩ := Prod.mk.inj (Option.some.inj haccept)
  exact ⟨hlin hok (of_decide_eq_true htime), hnot (Option.some.inj hreject)⟩

end Whirl.Semantics
