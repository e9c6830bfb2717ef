/-
# The crazy time model

`FlightTime` of `time_model/catalog/crazy.cpp`.  The flight time of a data packet is drawn from
one of four ranges, which together leave out no duration from 5 to 999.  A service packet always
takes 50, so that it does not affect randomness.
-/
import WhirlMatrix.Network.Packet
import WhirlMatrix.World.Random

namespace Whirl.CrazyTimeModel

open Net

/-- `FlightTime`, which looks at nothing but the type of the packet. -/
def flightTime (type : PacketType) (source : RandomSource) : Outcome (ℕ × RandomSource) :=
  if type != .data then
    .ok (50, source)
  else
    let (slow, source) := globalRandomNumber source
    if slow % 11 == 0 then
      globalRandomNumberBetween 400 1000 source
    else
      let (fast, source) := globalRandomNumber source
      if fast % 7 == 0 then
        globalRandomNumberBetween 5 10 source
      else
        let (unpredictable, source) := globalRandomNumber source
        if unpredictable % 5 == 0 then
          globalRandomNumberBetween 10 1000 source
        else
          globalRandomNumberBetween 30 60 source

/-- A packet of the type may take this long. -/
def Flies (type : PacketType) (duration : ℕ) : Prop :=
  ∃ source next, flightTime type source = .ok (duration, next)

/-- The longest flight of a packet of the type. -/
def longest : PacketType → ℕ
  | .data => 999
  | _ => 50

variable {type : PacketType} {duration : ℕ}

/-! ## The durations that are drawn -/

/-- A number that is drawn lies in its range. -/
theorem mem_of_between {lo hi number : ℕ} {source next : RandomSource} (hlt : lo < hi)
    (h : globalRandomNumberBetween lo hi source = .ok (number, next)) : lo ≤ number ∧ number < hi := by
  rw [globalRandomNumberBetween_eq hlt] at h
  obtain ⟨rfl, -⟩ := Prod.mk.inj (Except.ok.inj h)
  have hmod := Nat.mod_lt (source.impl 0).toNat (Nat.sub_pos_of_lt hlt)
  omega

/-- Every number in a range is drawn from some source. -/
theorem between_eq {lo hi number : ℕ} {source : RandomSource} (hlo : lo ≤ number) (hhi : number < hi)
    (hbits : hi < 2 ^ 32) (hdraw : source.impl 0 = .ofNat (number - lo)) :
    globalRandomNumberBetween lo hi source = .ok (number, source.next.2) := by
  have hnumber : (UInt32.ofNat (number - lo)).toNat = number - lo :=
    UInt32.toNat_ofNat_of_lt' (by rw [UInt32.size]; omega)
  rw [globalRandomNumberBetween_eq (by omega), hdraw, hnumber, Nat.mod_eq_of_lt (by omega),
    Nat.add_sub_cancel' hlo]

/-- Service packets do not touch the source. -/
theorem flightTime_service (htype : type ≠ .data) (source : RandomSource) :
    flightTime type source = .ok (50, source) := by
  rw [flightTime, if_pos (bne_iff_ne.mpr htype)]

theorem flies_service_iff (htype : type ≠ .data) : Flies type duration ↔ duration = 50 := by
  constructor
  · rintro ⟨source, next, h⟩
    rw [flightTime_service htype] at h
    exact (Prod.mk.inj (Except.ok.inj h)).1.symm
  · rintro rfl
    exact ⟨⟨fun _ => 0, 0⟩, _, flightTime_service htype _⟩

/-- The flight time of a data packet lies in one of the ranges. -/
theorem mem_of_flies_data (h : Flies .data duration) : 5 ≤ duration ∧ duration < 1000 := by
  obtain ⟨source, next, h⟩ := h
  rw [flightTime, if_neg (by decide)] at h
  dsimp only at h
  split at h
  · have := mem_of_between (by decide) h
    omega
  split at h
  · have := mem_of_between (by decide) h
    omega
  split at h
  · have := mem_of_between (by decide) h
    omega
  · have := mem_of_between (by decide) h
    omega

/-- Numbers with which a given duration is drawn from the third range. -/
def unpredictable (duration : ℕ) : RandomSource where
  impl
    | 2 => 0
    | 3 => .ofNat (duration - 10)
    | _ => 1

/-- Numbers with which a given duration is drawn from the second range. -/
def fast (duration : ℕ) : RandomSource where
  impl
    | 1 => 0
    | 2 => .ofNat (duration - 5)
    | _ => 1

/-- **Every duration from 5 to 999 is the flight time of some data packet**, and no other. -/
theorem flies_data_iff : Flies .data duration ↔ 5 ≤ duration ∧ duration < 1000 := by
  constructor
  · exact mem_of_flies_data
  · rintro ⟨hlo, hhi⟩
    rcases Nat.lt_or_ge duration 10 with hfast | hslow
    · have hrange : flightTime .data (fast duration)
          = globalRandomNumberBetween 5 10 (fast duration).next.2.next.2 := rfl
      rw [between_eq hlo hfast (by decide) rfl] at hrange
      exact ⟨_, _, hrange⟩
    · have hrange : flightTime .data (unpredictable duration)
          = globalRandomNumberBetween 10 1000 (unpredictable duration).next.2.next.2.next.2 := rfl
      rw [between_eq hslow hhi (by decide) rfl] at hrange
      exact ⟨_, _, hrange⟩

theorem le_longest (h : Flies type duration) : duration ≤ longest type := by
  cases type with
  | data =>
    have := (flies_data_iff.mp h).2
    exact Nat.le_of_lt_succ this
  | reset => exact Nat.le_of_eq ((flies_service_iff (by decide)).mp h)
  | ping => exact Nat.le_of_eq ((flies_service_iff (by decide)).mp h)

instance : (type : PacketType) → (duration : ℕ) → Decidable (Flies type duration)
  | .data, _ => decidable_of_iff _ flies_data_iff.symm
  | .reset, _ => decidable_of_iff _ (flies_service_iff (by decide)).symm
  | .ping, _ => decidable_of_iff _ (flies_service_iff (by decide)).symm

end Whirl.CrazyTimeModel
