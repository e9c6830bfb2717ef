/-
# Byte memory

A memory holds one byte at every address.  Numbers of a fixed width are stored with
their lowest byte first.  A load finds what was stored, and an operation that writes
elsewhere does not change it.
-/
import Mathlib.Algebra.Group.Nat.Defs
import Mathlib.Tactic.Common

namespace ByteMemory

/-- One byte at every address. -/
abbrev Memory := ℕ → UInt8

/-- The same byte is written to the `n` addresses from `a` on. -/
def fill (m : Memory) (a n : ℕ) (byte : UInt8) : Memory :=
  fun x => if a ≤ x ∧ x < a + n then byte else m x

/-- The `k` lowest bytes of a number are written to the addresses from `a` on. -/
def store (m : Memory) (a k v : ℕ) : Memory :=
  fun x => if a ≤ x ∧ x < a + k then UInt8.ofNat (v / 256 ^ (x - a)) else m x

/-- The number in the `k` bytes from `a` on. -/
def load (m : Memory) (a : ℕ) : ℕ → ℕ
  | 0 => 0
  | k + 1 => load m a k + 256 ^ k * (m (a + k)).toNat

variable {m m' : Memory} {a b k n v x : ℕ} {byte : UInt8}

/-! ## Single bytes -/

theorem fill_of_mem (hle : a ≤ x) (hlt : x < a + n) : fill m a n byte x = byte :=
  if_pos ⟨hle, hlt⟩

theorem fill_of_not_mem (h : x < a ∨ a + n ≤ x) : fill m a n byte x = m x :=
  if_neg (by omega)

theorem store_of_not_mem (h : x < a ∨ a + k ≤ x) : store m a k v x = m x :=
  if_neg (by omega)

/-! ## Numbers -/

/-- A load depends on the bytes that it reads. -/
theorem load_congr (h : ∀ x, a ≤ x → x < a + k → m x = m' x) : load m a k = load m' a k := by
  induction k with
  | zero => rfl
  | succ k ih =>
    rw [load, load, ih fun x hle hlt => h x hle (by omega), h (a + k) (by omega) (by omega)]

/-- The lowest bytes of a number that was stored. -/
theorem load_store_mod {j : ℕ} (hj : j ≤ k) : load (store m a k v) a j = v % 256 ^ j := by
  induction j with
  | zero => rw [load, Nat.pow_zero, Nat.mod_one]
  | succ j ih =>
    have hbyte : (store m a k v (a + j)).toNat = v / 256 ^ j % 256 := by
      rw [store, if_pos (by omega), Nat.add_sub_cancel_left, UInt8.toNat_ofNat']
    rw [load, ih (by omega), hbyte, Nat.mod_pow_succ]

/-- A number that fits is found again. -/
theorem load_store_self (hv : v < 256 ^ k) : load (store m a k v) a k = v := by
  rw [load_store_mod (Nat.le_refl k), Nat.mod_eq_of_lt hv]

/-- Bytes that are zero are the number zero. -/
theorem load_eq_zero (h : ∀ x, a ≤ x → x < a + k → m x = 0) : load m a k = 0 := by
  induction k with
  | zero => rfl
  | succ k ih =>
    rw [load, ih fun x hle hlt => h x hle (by omega), h (a + k) (by omega) (by omega)]
    rfl

/-- What is stored elsewhere does not matter. -/
theorem load_store_of_disjoint {j : ℕ} (h : b + j ≤ a ∨ a + k ≤ b) :
    load (store m a k v) b j = load m b j :=
  load_congr fun x hle hlt => store_of_not_mem (by omega)

end ByteMemory
