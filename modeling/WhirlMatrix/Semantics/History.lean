/-
# Call histories

The data of `semantics/history.hpp`, the sequential specifications that a
checker is instantiated with, and `PrecedesInRealTime` of
`semantics/checker/real_time_order.hpp`.
-/
import WhirlMatrix.Time

namespace Whirl.Semantics

/-- `Value`: the serialized result of a call. -/
structure Value where
  bytes : Bytes
  deriving DecidableEq, Repr, Inhabited

/-- `Arguments`: the serialized arguments of a call. -/
structure Arguments where
  bytes : Bytes
  deriving DecidableEq, Repr, Inhabited

/-- `CallLabels`. -/
abbrev CallLabels := List String

/-- `Call`.  `result` is `none` for an incomplete call. -/
structure Call where
  method : String
  arguments : Arguments
  result : Option Value
  startTime : ℕ
  endTime : Option ℕ
  labels : CallLabels
  deriving DecidableEq, Repr, Inhabited

/-- `Call::IsCompleted`. -/
def Call.isCompleted (call : Call) : Bool := call.endTime.isSome

/-- `History`. -/
abbrev History := List Call

/-- `PrecedesInRealTime`. -/
def precedesInRealTime (lhs rhs : Call) : Bool :=
  match lhs.endTime with
  | some endTime => endTime < rhs.startTime
  | none => false

theorem precedesInRealTime_iff {lhs rhs : Call} :
    precedesInRealTime lhs rhs = true ↔ ∃ t, lhs.endTime = some t ∧ t < rhs.startTime := by
  unfold precedesInRealTime
  cases lhs.endTime <;> simp

/-- An incomplete call precedes nothing. -/
theorem not_precedesInRealTime_of_incomplete {lhs rhs : Call} (h : lhs.isCompleted = false) :
    ¬ precedesInRealTime lhs rhs = true := by
  rw [precedesInRealTime_iff]
  rintro ⟨t, ht, -⟩
  simp [Call.isCompleted, ht] at h

/-- A call that ends no earlier than it starts does not precede itself. -/
theorem not_precedesInRealTime_self {call : Call}
    (h : ∀ t, call.endTime = some t → call.startTime ≤ t) :
    ¬ precedesInRealTime call call = true := by
  rw [precedesInRealTime_iff]
  rintro ⟨t, ht, hlt⟩
  exact Nat.not_lt.mpr (h t ht) hlt

/-! ## Sequential specifications -/

/-- What `Model::Apply` returns. -/
structure Result (State : Type*) where
  ok : Bool
  value : Value
  nextState : State

/-- A sequential specification: the `Model` parameter of the checker. -/
structure Model (State : Type*) where
  initialState : State
  apply : State → String → Arguments → Result State

end Whirl.Semantics
