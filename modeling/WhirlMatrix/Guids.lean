/-
# Guids

`guids/generator.cpp`.  The generator of the world gives every server its guids: a counter of
64 bits, and before it a letter that goes around with the counter.  The comment there says
that they are short, unique and not monotonic.
-/
import WhirlMatrix.Strings
import Mathlib.Data.List.Nodup
import Mathlib.Data.List.Range
import Mathlib.Data.Nat.Digits.Defs
import Mathlib.Data.String.Basic

namespace Whirl

/-- `guids::GuidGenerator`. -/
structure GuidGenerator where
  nextValue : UInt64 := 0

namespace GuidGenerator

/-- The characters of `kChars`. -/
def kChars : List Char := ['Y', 'X', 'Z']

/-- The text that `fmt::format` makes of a value. -/
def format (value : UInt64) : String :=
  "guid-" ++ String.singleton (kChars.getD (value.toNat % kChars.length) 'Y') ++ "-"
    ++ toString value.toNat

/-- `GenerateNext`. -/
def generateNext (g : GuidGenerator) : String × GuidGenerator :=
  let value := g.nextValue + 1
  (format value, { nextValue := value })

/-- The guids of the next calls. -/
def generate : ℕ → GuidGenerator → List String
  | 0, _ => []
  | n + 1, g => g.generateNext.1 :: generate n g.generateNext.2

variable {g : GuidGenerator} {v w : UInt64} {n : ℕ}

theorem toList_format (v : UInt64) :
    (format v).toList = ['g', 'u', 'i', 'd', '-', kChars.getD (v.toNat % 3) 'Y', '-']
      ++ (toString v.toNat).toList := by
  simp only [format, String.toList_append, String.toList_singleton]
  rfl

/-- Different values are written differently. -/
theorem format_inj (h : format v = format w) : v = w := by
  have hlists := congrArg String.toList h
  rw [toList_format, toList_format] at hlists
  have hdigits := (List.append_inj hlists rfl).2
  exact UInt64.toNat_inj.mp (StdString.toString_inj hdigits)

/-- A guid has at most 27 characters: those around the number and its 20 digits. -/
theorem length_format_le (v : UInt64) : (format v).length ≤ 27 := by
  have hdigits : (Nat.toDigits 10 v.toNat).length ≤ 20 := by
    apply Nat.toDigits_length 10 v.toNat 20 (by decide)
    have hlt := v.toNat_lt
    omega
  rw [← String.length_toList, toList_format, List.length_append, Nat.toString_eq_repr,
    Nat.toList_repr]
  show 7 + _ ≤ 27
  omega

/-- The letter decides which of two guids is less. -/
theorem format_lt (h : kChars.getD (v.toNat % 3) 'Y' < kChars.getD (w.toNat % 3) 'Y') :
    format v < format w := by
  rw [String.lt_iff_toList_lt, toList_format, toList_format]
  rw [List.getD_eq_getElem?_getD, List.getD_eq_getElem?_getD] at h
  simp [List.cons_lt_cons_iff, h]

/-! ## Runs -/

/-- The value of the call with an index, which wraps around. -/
def valueAt (g : GuidGenerator) (i : ℕ) : UInt64 := g.nextValue + 1 + UInt64.ofNat i

theorem toNat_valueAt (g : GuidGenerator) (i : ℕ) :
    (g.valueAt i).toNat = (g.nextValue.toNat + 1 + i) % 2 ^ 64 := by
  rw [valueAt, UInt64.toNat_add, UInt64.toNat_add, UInt64.toNat_ofNat']
  simp

theorem valueAt_generateNext (g : GuidGenerator) (i : ℕ) :
    g.generateNext.2.valueAt i = g.valueAt (i + 1) := by
  apply UInt64.toNat_inj.mp
  rw [toNat_valueAt, toNat_valueAt, generateNext]
  simp only [UInt64.toNat_add, UInt64.toNat_one]
  omega

theorem generate_eq (g : GuidGenerator) (n : ℕ) :
    generate n g = (List.range n).map fun i => format (g.valueAt i) := by
  induction n generalizing g with
  | zero => rfl
  | succ n ih =>
    rw [generate, ih, List.range_succ_eq_map, List.map_cons, List.map_map]
    congr 1
    · simp [generateNext, valueAt]
    · apply List.map_congr_left
      intro i _
      rw [valueAt_generateNext]
      rfl

/-- What holds of any two guids of a run, in their order. -/
theorem rel_of_pairwise {R : String → String → Prop} (h : (generate n g).Pairwise R) {i j : ℕ}
    (hij : i < j) (hj : j < n) : R (format (g.valueAt i)) (format (g.valueAt j)) := by
  rw [generate_eq, List.pairwise_map] at h
  have hrel := List.pairwise_iff_getElem.mp h i j (by simpa using hij.trans hj) (by simpa using hj)
    hij
  rwa [List.getElem_range, List.getElem_range] at hrel

/-- The counter comes back to where it was after `2 ^ 64` calls, and not before. -/
theorem nodup_generate_iff (g : GuidGenerator) (n : ℕ) : (generate n g).Nodup ↔ n ≤ 2 ^ 64 := by
  constructor
  · intro hnodup
    by_contra hlt
    have hne := rel_of_pairwise hnodup (show 0 < 2 ^ 64 by decide) (by omega)
    apply hne
    have hsame : g.valueAt 0 = g.valueAt (2 ^ 64) := by
      apply UInt64.toNat_inj.mp
      rw [toNat_valueAt, toNat_valueAt]
      omega
    rw [hsame]
  · intro hle
    rw [generate_eq]
    apply List.Nodup.map_on _ List.nodup_range
    intro i hi j hj heq
    have hvalues := congrArg UInt64.toNat (format_inj heq)
    rw [toNat_valueAt, toNat_valueAt] at hvalues
    have hi := List.mem_range.mp hi
    have hj := List.mem_range.mp hj
    omega

/-- The counter goes up by one, or back to zero. -/
theorem toNat_valueAt_succ (g : GuidGenerator) (i : ℕ) :
    (g.valueAt (i + 1)).toNat = (g.valueAt i).toNat + 1 ∨
      (g.valueAt i).toNat = 2 ^ 64 - 1 ∧ (g.valueAt (i + 1)).toNat = 0 := by
  rw [toNat_valueAt, toNat_valueAt]
  omega

/-- From an `X` the letter goes up to a `Z`. -/
theorem format_lt_next {i : ℕ} (h : (g.valueAt i).toNat % 3 = 1) :
    format (g.valueAt i) < format (g.valueAt (i + 1)) := by
  have hnext : (g.valueAt (i + 1)).toNat % 3 = 2 := by
    have hstep := g.toNat_valueAt_succ i
    omega
  apply format_lt
  rw [h, hnext]
  decide

/-- From a `Z` it goes down to a `Y`. -/
theorem format_next_lt {i : ℕ} (h : (g.valueAt i).toNat % 3 = 2) :
    format (g.valueAt (i + 1)) < format (g.valueAt i) := by
  have hnext : (g.valueAt (i + 1)).toNat % 3 = 0 := by
    have hstep := g.toNat_valueAt_succ i
    omega
  apply format_lt
  rw [h, hnext]
  decide

/-- Each letter comes up within four calls: within three, or one more where the counter
wraps around, since `2 ^ 64` is no multiple of three. -/
theorem exists_letter (g : GuidGenerator) {r : ℕ} (hr : r < 3) :
    ∃ i, i < 4 ∧ (g.valueAt i).toNat % 3 = r := by
  by_contra hnone
  push Not at hnone
  have h₀ := hnone 0 (by decide)
  have h₁ := hnone 1 (by decide)
  have h₂ := hnone 2 (by decide)
  have h₃ := hnone 3 (by decide)
  have hstep₀ := g.toNat_valueAt_succ 0
  have hstep₁ := g.toNat_valueAt_succ 1
  have hstep₂ := g.toNat_valueAt_succ 2
  simp only [Nat.reduceAdd] at hstep₀ hstep₁ hstep₂
  omega

/-- **Guids are short, unique and not monotonic**: none has more than 27 characters; those
of a run are distinct exactly when the run has at most `2 ^ 64` calls; and no five calls in
a row give them in ascending or in descending order. -/
theorem guids_of_generate (g : GuidGenerator) (n : ℕ) :
    (∀ guid ∈ generate n g, guid.length ≤ 27) ∧ ((generate n g).Nodup ↔ n ≤ 2 ^ 64) ∧
      ¬ (generate (n + 5) g).Pairwise (· < ·) ∧ ¬ (generate (n + 5) g).Pairwise (· > ·) := by
  refine ⟨?_, nodup_generate_iff g n, ?_, ?_⟩
  · intro guid hguid
    rw [generate_eq] at hguid
    obtain ⟨i, -, rfl⟩ := List.mem_map.mp hguid
    exact length_format_le _
  · intro hascending
    obtain ⟨i, hi, hletter⟩ := exists_letter g (show 2 < 3 by decide)
    have hlt := rel_of_pairwise hascending (Nat.lt_succ_self i) (by omega)
    exact lt_asymm hlt (format_next_lt hletter)
  · intro hdescending
    obtain ⟨i, hi, hletter⟩ := exists_letter g (show 1 < 3 by decide)
    have hlt := rel_of_pairwise hdescending (Nat.lt_succ_self i) (by omega)
    exact lt_asymm hlt (format_lt_next hletter)

end GuidGenerator

end Whirl
