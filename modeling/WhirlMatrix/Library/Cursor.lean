/-
# Cursors

A cursor is a state that is valid or not, from which an element can be read, and which can
be moved.  `Visits` says which elements a cursor has before it, so that the loop that reads
and moves until the cursor is invalid is understood once for all cursors and directions.
-/
import Mathlib.Data.List.Basic

namespace Cursor

universe u v

variable {S α : Type u} {E : Type v}

/-- Reads and moves as long as the cursor is valid.  The number bounds the tests of the
condition, and `diverges` is the result when there are more. -/
def scan (diverges : E) (valid : S → Bool) (read : S → Except E α) (move : S → Except E S) :
    ℕ → S → List α → Except E (List α × S)
  | 0, _, _ => .error diverges
  | tests + 1, s, seen =>
    if valid s then do
      let x ← read s
      let s ← move s
      scan diverges valid read move tests s (seen ++ [x])
    else
      .ok (seen, s)

/-- `Left s left` says that the elements `left` are visited from the state `s` on. -/
structure Visits (valid : S → Bool) (read : S → Except E α) (move : S → Except E S)
    (Left : S → List α → Prop) : Prop where
  done : ∀ s, Left s [] → valid s = false
  valid : ∀ s x left, Left s (x :: left) → valid s = true
  read : ∀ s x left, Left s (x :: left) → read s = .ok x
  move : ∀ s x left, Left s (x :: left) → ∃ s', move s = .ok s' ∧ Left s' left

variable {diverges : E} {valid : S → Bool} {read : S → Except E α} {move : S → Except E S}
  {Left : S → List α → Prop} {s : S} {left : List α}

/-- **The loop visits what is left**, and the cursor is invalid in the end.  Induction on
what is left. -/
theorem Visits.scan (h : Visits valid read move Left) (hleft : Left s left) (seen : List α) :
    ∃ s', Cursor.scan diverges valid read move (left.length + 1) s seen = .ok (seen ++ left, s') ∧
      valid s' = false := by
  induction left generalizing s seen with
  | nil =>
    have hdone := h.done s hleft
    refine ⟨s, ?_, hdone⟩
    rw [Cursor.scan, hdone, List.append_nil]
    rfl
  | cons x left ih =>
    obtain ⟨s', hmove, hleft'⟩ := h.move s x left hleft
    obtain ⟨s'', hscan, hinvalid⟩ := ih hleft' (seen ++ [x])
    refine ⟨s'', ?_, hinvalid⟩
    rw [Cursor.scan, h.valid s x left hleft, h.read s x left hleft, hmove]
    show Cursor.scan diverges valid read move (left.length + 1) s' (seen ++ [x]) = _
    rw [hscan, List.append_assoc]
    rfl

end Cursor
