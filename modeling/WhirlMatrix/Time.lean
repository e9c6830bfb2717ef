/-
# Virtual time

`TimePoint` and `Time` of `matrix/time`, and how a run of the simulator can
fail: a check that does not hold, a C++ operation without defined behaviour, or
a loop that does not end.
-/
import Mathlib.Algebra.Group.Nat.Defs
import Mathlib.Tactic.Common

namespace Whirl

/-- Raw contents of a `std::string` that holds serialized data. -/
abbrev Bytes := List UInt8

/-- Addition of two `TimePoint`s (`time_point.hpp`), which are `uint64_t`: time points
are natural numbers here, and every sum is reduced modulo `2 ^ 64`. -/
def addTime (t d : ℕ) : ℕ := (t + d) % 2 ^ 64

theorem addTime_of_lt {t d : ℕ} (h : t + d < 2 ^ 64) : addTime t d = t + d :=
  Nat.mod_eq_of_lt h

/-! ## Failures -/

/-- Why a piece of the simulator does not return. -/
inductive Failure where
  /-- `WHEELS_VERIFY` / `WHEELS_PANIC` with its message. -/
  | panic (message : String)
  /-- `WHEELS_UNREACHABLE`. -/
  | unreachable
  /-- `std::out_of_range`, thrown by `at`. -/
  | outOfRange
  /-- A C++ operation with undefined behaviour. -/
  | undefined
  /-- A loop that does not end. -/
  | diverges
  deriving DecidableEq, Repr

/-- The result of code that may not return. -/
abbrev Outcome (α : Type) := Except Failure α

/-- `WHEELS_VERIFY(condition, message)`. -/
def verify (condition : Bool) (message : String) : Outcome Unit :=
  if condition then .ok () else .error (.panic message)

namespace Outcome

variable {α β : Type}

/-- A sequence of two computations returns exactly when both do. -/
theorem bind_eq_ok {x : Outcome α} {f : α → Outcome β} {b : β} :
    (x >>= f) = .ok b ↔ ∃ a, x = .ok a ∧ f a = .ok b := by
  cases x with
  | error e => simp [bind, Except.bind]
  | ok a => simp [bind, Except.bind]

/-- A computation that returns is followed by the next one. -/
theorem ok_bind (a : α) (f : α → Outcome β) : (Except.ok a >>= f) = f a := rfl

@[simp] theorem pure_eq_ok {a b : α} : (pure a : Outcome α) = .ok b ↔ a = b := by
  simp [pure, Except.pure]

@[simp] theorem verify_eq_ok {condition : Bool} {message : String} {u : Unit} :
    verify condition message = .ok u ↔ condition = true := by
  unfold verify
  split <;> simp_all

end Outcome

/-! ## The world clock -/

/-- `Time` (`time.hpp`). -/
structure Time where
  now : ℕ := 0
  deriving DecidableEq, Repr

/-- `Time::FastForwardTo`. -/
def Time.fastForwardTo (time : Time) (future : ℕ) : Outcome Time := do
  verify (future ≥ time.now) "Cannot fast-forward time"
  return { time with now := future }

theorem Time.fastForwardTo_eq_ok {time time' : Time} {future : ℕ} :
    time.fastForwardTo future = .ok time' ↔ time.now ≤ future ∧ time' = ⟨future⟩ := by
  simp only [Time.fastForwardTo, Outcome.bind_eq_ok, Outcome.verify_eq_ok, Outcome.pure_eq_ok,
    decide_eq_true_eq, exists_const, ge_iff_le]
  exact and_congr_right fun _ => eq_comm

end Whirl
