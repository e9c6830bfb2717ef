/-
# Separators in lists

Where a separator first or last occurs in a list, and what that says about the part before
it and the part after it.  A list that was put together around a separator falls apart in
the same place when one of the parts does not contain the separator; so both parts are
determined by the whole.
-/
import Mathlib.Data.List.Basic

namespace Separators

variable {α : Type*} {sep : α} {l before after before' after' : List α} {i : ℕ}

/-- A list that contains a separator has a last one. -/
theorem exists_append_cons (h : sep ∈ l) : ∃ before after, l = before ++ sep :: after ∧ sep ∉ after := by
  obtain ⟨first, rest, hreverse, hfirst⟩ := List.eq_append_cons_of_mem (List.mem_reverse.mpr h)
  refine ⟨rest.reverse, first.reverse, ?_, mt List.mem_reverse.mp hfirst⟩
  rw [← List.reverse_reverse l, hreverse]
  simp

variable [DecidableEq α]

/-! ## The first separator -/

/-- A separator that the first part does not contain comes right after it. -/
theorem idxOf?_append_cons (h : sep ∉ before) (after : List α) :
    (before ++ sep :: after).idxOf? sep = some before.length := by
  induction before with
  | nil => simp [List.idxOf?_cons]
  | cons x before ih =>
    obtain ⟨hne, h⟩ := not_or.mp (mt List.mem_cons.mpr h)
    rw [List.cons_append, List.idxOf?_cons, if_neg (by simpa using Ne.symm hne), ih h]
    rfl

/-! ## The last separator -/

/-- The position of the last separator. -/
def lastIdxOf? : List α → α → Option ℕ
  | [], _ => none
  | x :: l, sep =>
    match lastIdxOf? l sep with
    | some i => some (i + 1)
    | none => if x = sep then some 0 else none

theorem lastIdxOf?_eq_none_iff : lastIdxOf? l sep = none ↔ sep ∉ l := by
  induction l with
  | nil => simp [lastIdxOf?]
  | cons x l ih =>
    rw [lastIdxOf?, List.mem_cons, not_or, ← ih]
    cases hlast : lastIdxOf? l sep with
    | none => simp [eq_comm]
    | some i => simp

/-- A separator that the second part does not contain comes right before it. -/
theorem lastIdxOf?_append_cons (before : List α) (h : sep ∉ after) :
    lastIdxOf? (before ++ sep :: after) sep = some before.length := by
  induction before with
  | nil => simp [lastIdxOf?, lastIdxOf?_eq_none_iff.mpr h]
  | cons x before ih => rw [List.cons_append, lastIdxOf?, ih, List.length_cons]

/-- **Both parts are determined by the whole**, when the second parts contain no separator. -/
theorem append_cons_inj (h : before ++ sep :: after = before' ++ sep :: after') (hafter : sep ∉ after)
    (hafter' : sep ∉ after') : before = before' ∧ after = after' := by
  have hlast := lastIdxOf?_append_cons before hafter
  rw [h, lastIdxOf?_append_cons before' hafter'] at hlast
  obtain ⟨hbefore, hrest⟩ := List.append_inj h (Option.some.inj hlast).symm
  exact ⟨hbefore, (List.cons.inj hrest).2⟩

end Separators
