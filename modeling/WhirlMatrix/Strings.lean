/-
# Strings

What the simulator uses of `std::string`: searching for a character, cutting, and writing
numbers in decimal.  `npos` is `none`.  A string that was written around a character falls
apart there again, as `Library/Separators` says for lists.
-/
import WhirlMatrix.Time
import WhirlMatrix.Library.Separators

namespace Whirl.StdString

open Separators

/-- `find`. -/
def find (s : String) (c : Char) : Option ℕ := s.toList.idxOf? c

/-- `find_last_of`. -/
def findLastOf (s : String) (c : Char) : Option ℕ := lastIdxOf? s.toList c

/-- `substr`: at most `count` characters from position `pos` on. -/
def substr (s : String) (pos count : ℕ) : Outcome String :=
  if pos ≤ s.length then
    .ok (String.ofList ((s.toList.drop pos).take count))
  else
    .error .outOfRange

/-- `ends_with`. -/
def endsWith (s : String) (c : Char) : Bool := s.toList.getLast? == some c

variable {s : String} {before after : List Char} {c : Char}

/-- The part before a character. -/
theorem substr_before (h : s.toList = before ++ c :: after) :
    substr s 0 before.length = .ok (String.ofList before) := by
  rw [substr, if_pos (Nat.zero_le _), h, List.drop_zero, List.take_left]

/-- The part after a character. -/
theorem substr_after (h : s.toList = before ++ c :: after) :
    substr s (before.length + 1) s.length = .ok (String.ofList after) := by
  have hlength : s.length = before.length + (after.length + 1) := by
    rw [← String.length_toList, h, List.length_append, List.length_cons]
  rw [substr, if_pos (by omega), h, ← List.drop_drop, List.drop_left, List.drop_one, List.tail_cons,
    List.take_of_length_le (by omega)]

theorem endsWith_iff : endsWith s c = true ↔ ∃ before, s.toList = before ++ [c] := by
  rw [endsWith, beq_iff_eq, List.getLast?_eq_some_iff]

/-! ## Numbers -/

/-- A number is written with digits only. -/
theorem not_mem_toString (hc : c.isDigit = false) (n : ℕ) : c ∉ (toString n).toList := by
  rw [Nat.toString_eq_repr, Nat.toList_repr]
  intro hmem
  have hdigit := Nat.isDigit_of_mem_toDigits (by decide) (by decide) hmem
  exact absurd (hdigit.symm.trans hc) (by decide)

/-- Different numbers are written differently. -/
theorem toString_inj {n m : ℕ} (h : (toString n).toList = (toString m).toList) : n = m := by
  rw [Nat.toString_eq_repr, Nat.toString_eq_repr, Nat.toList_repr, Nat.toList_repr] at h
  rw [← Nat.ofDigitChars_ten_toDigits (n := n), h, Nat.ofDigitChars_ten_toDigits]

end Whirl.StdString
