/-
# Wall clocks

`WallClock` of `clocks/wall.hpp`.  A wall clock is ahead of world time by an offset that
the time model chooses, and chooses again when the clock is adjusted.  Offsets are
arguments here.
-/
import WhirlMatrix.Time

namespace Whirl.Clocks

/-- `WallClock`. -/
structure WallClock where
  offset : ℕ := 0
  deriving DecidableEq, Repr

namespace WallClock

/-- `Init` and `AdjustOffset`; the offset is the time model's choice. -/
def adjustOffset (_ : WallClock) (offset : ℕ) : WallClock := ⟨offset⟩

/-- `Now`. -/
def now (clock : WallClock) (globalNow : ℕ) : ℕ := addTime globalNow clock.offset

/-- The clock is not ahead by more than `skew`, and what it shows is not cut off. -/
structure Within (clock : WallClock) (skew globalNow : ℕ) : Prop where
  offset_le : clock.offset ≤ skew
  now_lt : globalNow + clock.offset < 2 ^ 64

variable {clock : WallClock} {skew globalNow : ℕ}

theorem Within.now_eq (h : clock.Within skew globalNow) :
    clock.now globalNow = globalNow + clock.offset :=
  addTime_of_lt h.now_lt

/-- A clock shows no time before world time, and no time after it by more than `skew`. -/
theorem Within.now_mem (h : clock.Within skew globalNow) :
    globalNow ≤ clock.now globalNow ∧ clock.now globalNow ≤ globalNow + skew := by
  have hoffset := h.offset_le
  rw [h.now_eq]
  omega

end WallClock

end Whirl.Clocks
