/-
# Cleaning up and checking a history

`semantics/checker/check.hpp`: incomplete calls that only read are removed, the
history is decomposed, and every part is searched by brute force.  The number of
searches that `LinCheckImpl` allows (`kTimeLimit`, 777777) is an argument.
-/
import WhirlMatrix.Semantics.Brute

namespace Whirl.Semantics

variable {State : Type}

/-- The static functions of a `Model` that `LinCheck` calls. -/
structure CheckedModel (State : Type) extends Model State where
  isMutation : Call → Bool
  decompose : History → List History

/-- `LinCheckBrute`. -/
def linCheckBrute (M : Model State) (history : History) (timeLimit : UInt64) : Option Bool := do
  let (ok, _) ← LinChecker.check M (LinChecker.make history timeLimit)
  return ok

/-- Whether `Cleanup` keeps a call. -/
def CheckedModel.keeps (M : CheckedModel State) (call : Call) : Bool :=
  !(!call.isCompleted && !M.isMutation call)

/-- `Cleanup`. -/
def cleanup (M : CheckedModel State) (history : History) : History := history.filter M.keeps

/-- `LinCheckImpl`. -/
def linCheckImpl (M : CheckedModel State) (timeLimit : UInt64) (history : History) :
    Option Bool :=
  linCheckBrute M.toModel history timeLimit

/-- The loop of `LinCheck`. -/
def linCheckLoop (M : CheckedModel State) (timeLimit : UInt64) : List History → Option Bool
  | [] => some true
  | sub :: subs => do
    let ok ← linCheckImpl M timeLimit sub
    if !ok then
      return false
    linCheckLoop M timeLimit subs

/-- `LinCheck`. -/
def linCheck (M : CheckedModel State) (timeLimit : UInt64) (history : History) : Option Bool :=
  linCheckLoop M timeLimit (M.decompose (cleanup M history))

/-- `LinCheckImpl` ends its search within the budget. -/
def Decides (M : CheckedModel State) (timeLimit : UInt64) (history : History) : Prop :=
  ∃ ok c, LinChecker.check M.toModel (LinChecker.make history timeLimit) = some (ok, c) ∧
    c.time ≤ timeLimit

/-! ## The verdicts -/

variable {M : CheckedModel State} {timeLimit : UInt64} {history : History}

/-- Cleaning up keeps the calls well timed. -/
theorem WellTimed.cleanup (h : WellTimed history) : WellTimed (cleanup M history) :=
  fun call hcall => h call (List.mem_of_mem_filter hcall)

/-- A check searches the whole history. -/
theorem exact_make (M : Model State) (timeLimit : UInt64) (ht : WellTimed history) :
    LinChecker.Exact (Linearizable M history) (LinChecker.make history timeLimit)
      (LinChecker.check M (LinChecker.make history timeLimit)) := by
  have hrem : (LinChecker.make history timeLimit).remaining = history := by
    simp [LinChecker.remaining, LinChecker.make]
  have hexact := LinChecker.search_exact M (history.length + 1) M.initialState
    (LinChecker.make history timeLimit) (Nat.lt_succ_self _) (by simp [LinChecker.make])
    (hrem.symm ▸ ht)
  rw [hrem] at hexact
  exact hexact

/-- A linearizable history is accepted. -/
theorem linCheckImpl_of_linearizable (ht : WellTimed history)
    (hlin : Linearizable M.toModel history) : linCheckImpl M timeLimit history = some true := by
  obtain ⟨ok, t, hcheck, -, hreject⟩ := exact_make M.toModel timeLimit ht
  unfold linCheckImpl linCheckBrute
  rw [hcheck]
  cases ok with
  | true => rfl
  | false => exact absurd hlin (hreject rfl)

/-- A search that ends within the budget tells whether the history is linearizable. -/
theorem linCheckImpl_of_decides (ht : WellTimed history) (hdec : Decides M timeLimit history) :
    linCheckImpl M timeLimit history = some true ∧ Linearizable M.toModel history ∨
      linCheckImpl M timeLimit history = some false ∧ ¬ Linearizable M.toModel history := by
  obtain ⟨ok, t, hcheck, haccept, hreject⟩ := exact_make M.toModel timeLimit ht
  obtain ⟨ok', c', hcheck', htime⟩ := hdec
  obtain ⟨rfl, rfl⟩ := Prod.mk.inj (Option.some.inj (hcheck.symm.trans hcheck'))
  unfold linCheckImpl linCheckBrute
  rw [hcheck]
  cases ok with
  | true =>
    obtain hlin | hlt := haccept rfl
    · exact Or.inl ⟨rfl, hlin⟩
    · exact absurd hlt (UInt64.not_lt.mpr htime)
  | false => exact Or.inr ⟨rfl, hreject rfl⟩

/-- Incomplete calls that the model does not change its state for can be removed. -/
theorem linearizable_cleanup_iff
    (hread : ∀ call ∈ history, M.isMutation call = false →
      ∀ s, (M.apply s call.method call.arguments).nextState = s) :
    Linearizable M.toModel (cleanup M history) ↔ Linearizable M.toModel history := by
  refine Linearization.linearizable_filter_iff (fun call _ hkeep => ?_)
    fun call hcall hkeep s s' haccepts => ?_
  · unfold CheckedModel.keeps at hkeep
    simp only [Bool.not_eq_false', Bool.and_eq_true, Bool.not_eq_true'] at hkeep
    exact hkeep.1
  · unfold CheckedModel.keeps at hkeep
    simp only [Bool.not_eq_false', Bool.and_eq_true, Bool.not_eq_true'] at hkeep
    obtain ⟨-, hnext, -⟩ := haccepts
    exact hnext.symm.trans (hread call hcall hkeep.2 s)

end Whirl.Semantics
