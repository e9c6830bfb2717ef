/-
# Drift of a clock

`Drift` of `clocks/drift.hpp`: a clock runs by some percents faster or slower than world
time.  Durations are `uint64_t`, so the product by which a timeout is scaled may be cut
off.  Timeouts up to some length expire in the order of their lengths if and only if the
product of the longest one is not cut off.
-/
import WhirlMatrix.Time
import Mathlib.Algebra.Group.Int.Defs

namespace Whirl.Clocks

/-- `Drift`: an `int` in `[-99, +inf]`, as its comment says. -/
structure Drift where
  drift : ℤ
  ge : -99 ≤ drift
  lt : drift < 2 ^ 31

namespace Drift

/-- The percentage of world time at which the clock runs. -/
def rate (drift : Drift) : ℕ := (100 + drift.drift).toNat

/-- The percentage is an `int`, too. -/
def Fits (drift : Drift) : Prop := drift.rate < 2 ^ 31

instance (drift : Drift) : Decidable drift.Fits := inferInstanceAs (Decidable (_ < _))

/-- `100 + drift_`. -/
def computeRate (drift : Drift) : Outcome ℕ :=
  if drift.Fits then .ok drift.rate else .error .undefined

/-- `Elapsed`. -/
def elapsed (drift : Drift) (real : ℕ) : Outcome ℕ := do
  let rate ← drift.computeRate
  return real * rate % 2 ^ 64 / 100

/-- `SleepOrTimeout`. -/
def sleepOrTimeout (drift : Drift) (user : ℕ) : Outcome ℕ :=
  if user = 0 then
    .ok 0
  else do
    let rate ← drift.computeRate
    let real := user * 100 % 2 ^ 64 / rate
    return max real 1

/-! ## What the operations return -/

variable {drift : Drift} {user real : ℕ}

theorem rate_pos (drift : Drift) : 0 < drift.rate := by
  have hge := drift.ge
  rw [rate]
  omega

theorem elapsed_of_fits (h : drift.Fits) (real : ℕ) :
    drift.elapsed real = .ok (real * drift.rate % 2 ^ 64 / 100) := by
  rw [elapsed, computeRate, if_pos h]
  rfl

theorem sleepOrTimeout_zero (drift : Drift) : drift.sleepOrTimeout 0 = .ok 0 := rfl

theorem sleepOrTimeout_of_pos (h : drift.Fits) (huser : 0 < user) :
    drift.sleepOrTimeout user = .ok (max (user * 100 % 2 ^ 64 / drift.rate) 1) := by
  rw [sleepOrTimeout, if_neg (Nat.ne_of_gt huser), computeRate, if_pos h]
  rfl

/-- Only the empty duration does not need the rate. -/
theorem eq_zero_or_fits (h : drift.sleepOrTimeout user = .ok real) : user = 0 ∨ drift.Fits := by
  by_cases hfits : drift.Fits
  · exact Or.inr hfits
  · left
    by_contra huser
    rw [sleepOrTimeout, if_neg huser, computeRate, if_neg hfits] at h
    exact absurd h (by simp [bind, Except.bind])

/-! ## The order of timeouts -/

/-- Two timeouts that are set at the same time expire in the order of their durations, and
only an empty one expires at once. -/
def InOrder (drift : Drift) (short long : ℕ) : Prop :=
  ∃ real real', drift.sleepOrTimeout short = .ok real ∧ drift.sleepOrTimeout long = .ok real' ∧
    real ≤ real' ∧ (real = 0 → short = 0) ∧ (real' = 0 → long = 0) ∧
    ∀ now, now + real' < 2 ^ 64 → addTime now real ≤ addTime now real'

/-- No multiple of the rate lies between the products of the durations, as far as they have
64 bits. -/
def Unseparated (drift : Drift) (short long : ℕ) : Prop :=
  ∀ k, 2 ≤ k → k * drift.rate ≤ short * 100 % 2 ^ 64 → k * drift.rate ≤ long * 100 % 2 ^ 64

/-- Quotients are compared by the multiples that they count. -/
theorem max_div_le_max_div_iff {a b r : ℕ} (hr : 0 < r) :
    max (a / r) 1 ≤ max (b / r) 1 ↔ ∀ k, 2 ≤ k → k * r ≤ a → k * r ≤ b := by
  constructor
  · intro hle k hk hka
    have hqa : k ≤ a / r := (Nat.le_div_iff_mul_le hr).mpr hka
    exact (Nat.le_div_iff_mul_le hr).mp (by omega)
  · intro h
    by_cases hsmall : a / r < 2
    · omega
    · have hqb : a / r ≤ b / r := (Nat.le_div_iff_mul_le hr).mpr
        (h (a / r) (by omega) (Nat.div_mul_le_self a r))
      omega

/-- Timeouts that are in order stay in order when they are added to the present time. -/
theorem InOrder.of_le {short long real real' : ℕ} (hshort : drift.sleepOrTimeout short = .ok real)
    (hlong : drift.sleepOrTimeout long = .ok real') (hle : real ≤ real')
    (hpos : real = 0 → short = 0) (hpos' : real' = 0 → long = 0) : drift.InOrder short long := by
  refine ⟨real, real', hshort, hlong, hle, hpos, hpos', ?_⟩
  intro now hnow
  rw [addTime_of_lt hnow, addTime_of_lt (by omega)]
  omega

/-- The order of two timeouts. -/
theorem inOrder_iff {short long : ℕ} (hle : short ≤ long) :
    drift.InOrder short long ↔
      long = 0 ∨ (drift.Fits ∧ (short = 0 ∨ drift.Unseparated short long)) := by
  constructor
  · rintro ⟨real, real', hshort, hlong, hreal, -, -, -⟩
    rcases eq_zero_or_fits hlong with hzero | hfits
    · exact Or.inl hzero
    · refine Or.inr ⟨hfits, ?_⟩
      rcases Nat.eq_zero_or_pos short with hzero | hpos
      · exact Or.inl hzero
      · right
        rw [sleepOrTimeout_of_pos hfits hpos] at hshort
        rw [sleepOrTimeout_of_pos hfits (by omega)] at hlong
        obtain rfl := Except.ok.inj hshort
        obtain rfl := Except.ok.inj hlong
        exact (max_div_le_max_div_iff drift.rate_pos).mp hreal
  · rintro (rfl | ⟨hfits, hshort⟩)
    · obtain rfl := Nat.le_zero.mp hle
      exact InOrder.of_le drift.sleepOrTimeout_zero drift.sleepOrTimeout_zero (Nat.le_refl 0)
        (fun _ => rfl) fun _ => rfl
    · rcases Nat.eq_zero_or_pos long with rfl | hlong
      · obtain rfl := Nat.le_zero.mp hle
        exact InOrder.of_le drift.sleepOrTimeout_zero drift.sleepOrTimeout_zero (Nat.le_refl 0)
          (fun _ => rfl) fun _ => rfl
      rcases hshort with rfl | hunseparated
      · exact InOrder.of_le drift.sleepOrTimeout_zero (sleepOrTimeout_of_pos hfits hlong)
          (Nat.zero_le _) (fun _ => rfl) (by omega)
      · rcases Nat.eq_zero_or_pos short with rfl | hpos
        · exact InOrder.of_le drift.sleepOrTimeout_zero (sleepOrTimeout_of_pos hfits hlong)
            (Nat.zero_le _) (fun _ => rfl) (by omega)
        · exact InOrder.of_le (sleepOrTimeout_of_pos hfits hpos)
            (sleepOrTimeout_of_pos hfits hlong)
            ((max_div_le_max_div_iff drift.rate_pos).mpr hunseparated) (by omega) (by omega)

/-- Products that are not cut off are in order. -/
theorem unseparated_of_lt {short long : ℕ} (hle : short ≤ long) (hlong : long * 100 < 2 ^ 64) :
    drift.Unseparated short long := by
  intro k _ hk
  rw [Nat.mod_eq_of_lt (by omega)] at hk
  rw [Nat.mod_eq_of_lt hlong]
  omega

/-- The longest duration whose product is not cut off, and the next one. -/
theorem not_unseparated (hfits : drift.Fits) :
    ¬ drift.Unseparated ((2 ^ 64 - 1) / 100) ((2 ^ 64 - 1) / 100 + 1) := by
  intro h
  have hrate := drift.rate_pos
  have hfits : drift.rate < 2 ^ 31 := hfits
  -- the shorter product is `2 ^ 64 - 16`, and 84 is left of the longer one
  have hquotient : 2 ≤ (2 ^ 64 - 16) / drift.rate := (Nat.le_div_iff_mul_le hrate).mpr (by omega)
  have hshort : (2 ^ 64 - 16) / drift.rate * drift.rate ≤ 2 ^ 64 - 16 := Nat.div_mul_le_self _ _
  have hnext : 2 ^ 64 - 16 < ((2 ^ 64 - 16) / drift.rate + 1) * drift.rate := by
    have hlt := Nat.lt_mul_div_succ (2 ^ 64 - 16) hrate
    rwa [Nat.mul_comm] at hlt
  have hlong := h ((2 ^ 64 - 16) / drift.rate) hquotient hshort
  have hrest : ((2 ^ 64 - 1) / 100 + 1) * 100 % 2 ^ 64 = 84 := by decide
  rw [hrest] at hlong
  rw [Nat.add_mul] at hnext
  omega

/-- **Longer timeouts expire later, as long as their products are not cut off.**  Two
timeouts are in order if and only if no multiple of the rate separates what is left of
their products; all timeouts up to a longest one are in order if and only if its product
is not cut off. -/
theorem inOrder_iff_and_upTo_iff (drift : Drift) (longest : ℕ) :
    (∀ short ≤ longest, drift.InOrder short longest ↔
      longest = 0 ∨ (drift.Fits ∧ (short = 0 ∨ drift.Unseparated short longest))) ∧
    ((∀ short long, short ≤ long → long ≤ longest → drift.InOrder short long) ↔
      longest = 0 ∨ (drift.Fits ∧ longest * 100 < 2 ^ 64)) := by
  refine ⟨fun short hle => inOrder_iff hle, ?_, ?_⟩
  · intro h
    rcases (inOrder_iff (Nat.zero_le longest)).mp (h 0 longest (Nat.zero_le _) (Nat.le_refl _)) with
      hzero | ⟨hfits, -⟩
    · exact Or.inl hzero
    · refine Or.inr ⟨hfits, ?_⟩
      by_contra hge
      have hnext := h ((2 ^ 64 - 1) / 100) ((2 ^ 64 - 1) / 100 + 1) (Nat.le_succ _) (by omega)
      rcases (inOrder_iff (Nat.le_succ _)).mp hnext with hzero | ⟨-, hzero | hunseparated⟩
      · exact absurd hzero (by decide)
      · exact absurd hzero (by decide)
      · exact not_unseparated hfits hunseparated
  · intro h short long hle hlong
    rw [inOrder_iff hle]
    rcases h with rfl | ⟨hfits, hlt⟩
    · exact Or.inl (Nat.le_zero.mp hlong)
    · exact Or.inr ⟨hfits, Or.inr (unseparated_of_lt hle (by omega))⟩

/-- A clock that does not drift. -/
def steady : Drift := ⟨0, by decide, by decide⟩

/-- A duration of more than `2 ^ 57` expires before one of 1000. -/
theorem not_inOrder_steady :
    1000 ≤ 2 ^ 64 / 100 + 1 ∧ ¬ steady.InOrder 1000 (2 ^ 64 / 100 + 1) := by
  refine ⟨by decide, ?_⟩
  rintro ⟨real, real', hshort, hlong, hle, -⟩
  obtain rfl : 1000 = real := Except.ok.inj hshort
  obtain rfl : 1 = real' := Except.ok.inj hlong
  exact absurd hle (by decide)

end Drift

end Whirl.Clocks
