/-
# Recycled resources

Resources are made when none is idle, held by one user at a time, and idle when they are given
back.  Which idle one is taken next does not matter: each resource is idle once or held once,
and no more are made than are held at a time.
-/
import Mathlib.Data.List.Perm.Basic
import Mathlib.Tactic.Common

namespace Recycling

variable {R : Type*}

/-- The resources that were made are idle or held, and as many were made as were ever held at a
time. -/
structure Balanced (made idle held : List R) (mostHeld : ℕ) : Prop where
  owned : made.Perm (idle ++ held)
  most : made.length = mostHeld

variable {made idle idle' held held' : List R} {mostHeld : ℕ} {r : R}

theorem balanced_nil : Balanced ([] : List R) [] [] 0 := ⟨List.Perm.refl _, rfl⟩

theorem Balanced.length_eq (h : Balanced made idle held mostHeld) :
    mostHeld = idle.length + held.length := by
  rw [← h.most, h.owned.length_eq, List.length_append]

/-- **A resource is made** when none is idle. -/
theorem Balanced.make (h : Balanced made [] held mostHeld) (r : R) :
    Balanced (made ++ [r]) [] (held ++ [r]) (max mostHeld (held.length + 1)) := by
  have hlength := h.length_eq
  refine ⟨h.owned.append_right [r], ?_⟩
  rw [List.length_append, h.most, hlength]
  simp

/-- **An idle resource is taken.** -/
theorem Balanced.take (h : Balanced made idle held mostHeld) (hidle : idle.Perm (idle' ++ [r])) :
    Balanced made idle' (held ++ [r]) (max mostHeld (held.length + 1)) := by
  have hlength := h.length_eq
  have hidle' := hidle.length_eq
  rw [List.length_append, List.length_singleton] at hidle'
  refine ⟨?_, ?_⟩
  · refine (h.owned.trans (hidle.append_right held)).trans ?_
    rw [List.append_assoc]
    exact List.perm_append_comm.append_left idle'
  · rw [h.most]
    omega

/-- **A resource is given back.** -/
theorem Balanced.giveBack (h : Balanced made idle held mostHeld) (hheld : held.Perm (r :: held')) :
    Balanced made (idle ++ [r]) held' mostHeld := by
  refine ⟨?_, h.most⟩
  rw [List.append_assoc]
  exact h.owned.trans (hheld.append_left idle)

/-- No resource is held twice, nor while it is idle. -/
theorem Balanced.nodup (h : Balanced made idle held mostHeld) (hmade : made.Nodup) :
    (idle ++ held).Nodup :=
  h.owned.nodup_iff.mp hmade

end Recycling
