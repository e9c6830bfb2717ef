/-
# Two computations in lockstep

Two computations that may fail agree when both return related results or both fail in the
same way.  Agreement is kept by sequencing, and two computations that agree with a third
one agree with each other.
-/
import Mathlib.Tactic.Common

namespace Lockstep

universe u v

variable {E : Type*} {A C : Type u} {B D : Type v}

/-- Both return related results, or both fail in the same way. -/
def Agree (R : A → B → Prop) : Except E A → Except E B → Prop
  | .ok a, .ok b => R a b
  | .error e, .error e' => e = e'
  | _, _ => False

variable {R R' : A → B → Prop} {x : Except E A} {y : Except E B}

theorem Agree.ok {a : A} {b : B} (h : R a b) : Agree (E := E) R (.ok a) (.ok b) := h

theorem Agree.error (e : E) : Agree R (.error e) (.error e) := rfl

/-- Related results can be related in a weaker way. -/
theorem Agree.mono (h : Agree R x y) (hle : ∀ a b, R a b → R' a b) : Agree R' x y := by
  cases x with
  | error e => cases y with
    | error e' => exact h
    | ok b => exact h
  | ok a => cases y with
    | error e' => exact h
    | ok b => exact hle a b h

/-- **The sequence rule.** -/
theorem Agree.bind {S : C → D → Prop} {f : A → Except E C} {g : B → Except E D}
    (h : Agree R x y) (hf : ∀ a b, R a b → Agree S (f a) (g b)) : Agree S (x >>= f) (y >>= g) := by
  cases x with
  | error e => cases y with
    | error e' => exact h
    | ok b => exact h.elim
  | ok a => cases y with
    | error e' => exact h.elim
    | ok b => exact hf a b h

/-- When the first computation returns, so does the second one. -/
theorem Agree.exists_of_ok {a : A} (h : Agree R (.ok a) y) : ∃ b, y = .ok b ∧ R a b := by
  cases y with
  | error e => exact h.elim
  | ok b => exact ⟨b, rfl, h⟩

/-- When the second computation returns, so does the first one. -/
theorem Agree.exists_of_ok_right {b : B} (h : Agree R x (.ok b)) : ∃ a, x = .ok a ∧ R a b := by
  cases x with
  | error e => exact h.elim
  | ok a => exact ⟨a, rfl, h⟩

/-- **Two computations that agree with a third one** agree with each other. -/
theorem Agree.join {S : C → B → Prop} {z : Except E C} (hx : Agree R x y) (hz : Agree S z y) :
    Agree (fun a c => ∃ b, R a b ∧ S c b) x z := by
  cases y with
  | error e => cases x with
    | ok a => exact hx.elim
    | error e' => cases z with
      | ok c => exact hz.elim
      | error e'' => exact Eq.trans hx (Eq.symm hz)
  | ok b => cases x with
    | error e' => exact hx.elim
    | ok a => cases z with
      | error e'' => exact hz.elim
      | ok c => exact ⟨b, hx, hz⟩

end Lockstep
