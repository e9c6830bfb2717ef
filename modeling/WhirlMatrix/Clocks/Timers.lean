/-
# Monotonic clocks and timers

`MonotonicClock` of `clocks/monotonic.hpp` and the part of `TimeService` that reads it
(`server/runtime/time.hpp`).  A timer is scheduled in world time: its duration is divided
by the rate of the clock and rounded down, and later the clock rounds down what it has
counted since its last reset.  So a timer may fire early by the measure of the clock that
scaled it.
-/
import WhirlMatrix.Clocks.Drift
import WhirlMatrix.Process.Scheduler

namespace Whirl.Clocks

open Process

/-! ## Clocks -/

/-- `MonotonicClock`. -/
structure MonotonicClock where
  drift : Drift := ⟨0, by decide, by decide⟩
  lastReset : ℕ := 0
  init : ℕ := 0

namespace MonotonicClock

/-- `Reset`; `resetTo` is the time model's choice. -/
def reset (clock : MonotonicClock) (resetTo globalNow : ℕ) : MonotonicClock :=
  { clock with init := resetTo, lastReset := globalNow }

/-- `ElapsedSinceLastReset`, a difference of two `uint64_t`. -/
def elapsedSinceLastReset (clock : MonotonicClock) (globalNow : ℕ) : ℕ :=
  (globalNow + 2 ^ 64 - clock.lastReset) % 2 ^ 64

/-- `Now`. -/
def now (clock : MonotonicClock) (globalNow : ℕ) : Outcome ℕ := do
  let elapsed ← clock.drift.elapsed (clock.elapsedSinceLastReset globalNow)
  return addTime elapsed clock.init

/-- `SleepOrTimeout`. -/
def sleepOrTimeout (clock : MonotonicClock) (delay : ℕ) : Outcome ℕ :=
  clock.drift.sleepOrTimeout delay

end MonotonicClock

/-! ## Timers -/

namespace TimeService

/-- `ToRealTimeDelay`. -/
def toRealTimeDelay (clock : MonotonicClock) (delay : ℕ) : Outcome ℕ := clock.sleepOrTimeout delay

/-- `AfterRealTime`. -/
def afterRealTime (clock : MonotonicClock) (globalNow delay : ℕ) : Outcome ℕ := do
  let real ← toRealTimeDelay clock delay
  return addTime globalNow real

/-- `AfterJiffies`: the promise of the timer is set by a task of the scheduler. -/
def afterJiffies {T : Type} (clock : MonotonicClock) (scheduler : Scheduler T) (globalNow d : ℕ)
    (setPromise : T) : Outcome (Scheduler T) := do
  let after ← afterRealTime clock globalNow d
  return scheduler.schedule after setPromise

end TimeService

/-! ## What a clock shows when a timer fires -/

namespace MonotonicClock

/-- Until a timer fires, nothing that the clock computes is cut off. -/
structure InRange (clock : MonotonicClock) (globalNow fires : ℕ) : Prop where
  fits : clock.drift.Fits
  lastReset_le : clock.lastReset ≤ globalNow
  le_fires : globalNow ≤ fires
  fires_lt : fires < 2 ^ 64
  product_lt : (fires - clock.lastReset) * clock.drift.rate < 2 ^ 64
  reading_lt : (fires - clock.lastReset) * clock.drift.rate / 100 + clock.init < 2 ^ 64

variable {clock : MonotonicClock} {globalNow fires d real : ℕ}

/-- The clock at the time of the call. -/
theorem InRange.call (h : clock.InRange globalNow fires) : clock.InRange globalNow globalNow := by
  have hle : (globalNow - clock.lastReset) * clock.drift.rate
      ≤ (fires - clock.lastReset) * clock.drift.rate :=
    Nat.mul_le_mul_right _ (Nat.sub_le_sub_right h.le_fires _)
  have hproduct := h.product_lt
  have hreading := h.reading_lt
  have hfires := h.fires_lt
  have hcall := h.le_fires
  exact ⟨h.fits, h.lastReset_le, Nat.le_refl _, by omega, by omega, by omega⟩

/-- What the clock shows. -/
theorem InRange.now (h : clock.InRange globalNow fires) :
    clock.now fires
      = .ok ((fires - clock.lastReset) * clock.drift.rate / 100 + clock.init) := by
  have hreset := h.lastReset_le.trans h.le_fires
  have hfires := h.fires_lt
  have helapsed : clock.elapsedSinceLastReset fires = fires - clock.lastReset := by
    rw [elapsedSinceLastReset]
    omega
  rw [MonotonicClock.now, helapsed, Drift.elapsed_of_fits h.fits, Nat.mod_eq_of_lt h.product_lt,
    Outcome.ok_bind, addTime_of_lt h.reading_lt]
  rfl

/-- How far the clock moves on, when `x` hundredths were counted before and the duration is
scaled by a rate of `r`. -/
theorem advance_iff {x r d s : ℕ} (hr : 0 < r) (hs : s = if d = 0 then 0 else max (d * 100 / r) 1) :
    (x / 100 + d ≤ (x + s * r) / 100 ↔ d * 100 < r ∨ d * 100 % r ≤ x % 100) ∧
      d ≤ (x + s * r) / 100 - x / 100 + (r + 98) / 100 := by
  by_cases hd : d = 0
  · rw [if_pos hd] at hs
    subst hs hd
    simp [hr]
  rw [if_neg hd] at hs
  have hdivmod : d * 100 / r * r + d * 100 % r = d * 100 := Nat.div_add_mod' _ _
  have hmod : d * 100 % r < r := Nat.mod_lt _ hr
  by_cases hsmall : d * 100 < r
  · -- the timer fires after one jiffy, which is more than enough
    have hzero : d * 100 / r = 0 := Nat.div_eq_of_lt hsmall
    obtain rfl : s = 1 := by omega
    omega
  · have hpos : 1 ≤ d * 100 / r := (Nat.le_div_iff_mul_le hr).mpr (by omega)
    obtain rfl : s = d * 100 / r := by omega
    omega

/-- A timer that is set now does not fire before its clock has moved on by the duration. -/
def NotCutShort (clock : MonotonicClock) (globalNow d : ℕ) : Prop :=
  ∃ real before after, clock.sleepOrTimeout d = .ok real ∧ clock.now globalNow = .ok before ∧
    clock.now (globalNow + real) = .ok after ∧ before + d ≤ after

/-- `SleepOrTimeout` when the product is not cut off. -/
theorem real_eq (hfits : clock.drift.Fits) (hd : d * 100 < 2 ^ 64)
    (hreal : clock.sleepOrTimeout d = .ok real) :
    real = if d = 0 then 0 else max (d * 100 / clock.drift.rate) 1 := by
  rw [sleepOrTimeout] at hreal
  by_cases hzero : d = 0
  · subst hzero
    exact (Except.ok.inj hreal).symm
  · rw [Drift.sleepOrTimeout_of_pos hfits (Nat.pos_of_ne_zero hzero), Nat.mod_eq_of_lt hd] at hreal
    rw [if_neg hzero]
    exact (Except.ok.inj hreal).symm

/-- **When a sleep is cut short.**  A timer for `d` jiffies lasts until its clock has moved
on by `d` if and only if the rounding of the timeout takes no more than what the clock has
counted of the jiffy that is under way.  In any case it is cut short by at most what is less
than one jiffy of world time, by the measure of the clock and rounded up. -/
theorem notCutShort_iff {T : Type} (scheduler : Scheduler T) (setPromise : T)
    (hd : d * 100 < 2 ^ 64) (hreal : clock.sleepOrTimeout d = .ok real)
    (hrange : clock.InRange globalNow (globalNow + real)) :
    TimeService.afterJiffies clock scheduler globalNow d setPromise
        = .ok (scheduler.schedule (globalNow + real) setPromise) ∧
      (clock.NotCutShort globalNow d ↔ d * 100 < clock.drift.rate ∨
        d * 100 % clock.drift.rate ≤ (globalNow - clock.lastReset) * clock.drift.rate % 100) ∧
      ∃ before after, clock.now globalNow = .ok before ∧
        clock.now (globalNow + real) = .ok after ∧
        d ≤ after - before + (clock.drift.rate + 98) / 100 := by
  have hs := real_eq hrange.fits hd hreal
  obtain ⟨hiff, hbound⟩ :=
    advance_iff (x := (globalNow - clock.lastReset) * clock.drift.rate) clock.drift.rate_pos hs
  have hcall := hrange.call.now
  have hfires := hrange.now
  have hsum : (globalNow + real - clock.lastReset) * clock.drift.rate
      = (globalNow - clock.lastReset) * clock.drift.rate + real * clock.drift.rate := by
    rw [← Nat.add_mul, Nat.sub_add_comm hrange.lastReset_le]
  rw [hsum] at hfires
  refine ⟨?_, ?_, _, _, hcall, hfires, by omega⟩
  · have hlt := hrange.fires_lt
    rw [TimeService.afterJiffies, TimeService.afterRealTime, TimeService.toRealTimeDelay, hreal,
      Outcome.ok_bind, addTime_of_lt hlt]
    rfl
  · rw [← hiff]
    constructor
    · rintro ⟨real', before, after, hreal', hbefore, hafter, hle⟩
      obtain rfl := Except.ok.inj (hreal.symm.trans hreal')
      obtain rfl := Except.ok.inj (hcall.symm.trans hbefore)
      obtain rfl := Except.ok.inj (hfires.symm.trans hafter)
      omega
    · intro hle
      exact ⟨real, _, _, hreal, hcall, hfires, by omega⟩

/-- A clock that is fast by a half, and was reset to 7 when the world started. -/
def fast : MonotonicClock where
  drift := ⟨50, by decide, by decide⟩
  init := 7

/-- One jiffy after the reset a sleep of two jiffies is not cut short. -/
theorem notCutShort_iff_fast : fast.NotCutShort 1 2 := by
  have hrange : fast.InRange 1 (1 + 1) :=
    ⟨by decide, by decide, by decide, by decide, by decide, by decide⟩
  have hiff := (notCutShort_iff (d := 2) ({} : Scheduler Unit) () (by decide) rfl hrange).2.1
  exact hiff.mpr (Or.inr (by decide))

/-- A sleep of two jiffies right after the reset is cut short by one. -/
theorem not_notCutShort_fast : ¬ fast.NotCutShort 0 2 := by
  rintro ⟨real, before, after, hreal, hbefore, hafter, hle⟩
  obtain rfl : 1 = real := Except.ok.inj hreal
  obtain rfl : 7 = before := Except.ok.inj hbefore
  obtain rfl : 8 = after := Except.ok.inj hafter
  exact absurd hle (by decide)

end MonotonicClock

end Whirl.Clocks
