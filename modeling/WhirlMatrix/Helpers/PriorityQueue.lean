/-
# The priority queue of the simulator

`PriorityQueue` of `helpers/priority_queue.hpp`: a `std::priority_queue` whose
items carry a unique tie-breaker, so that equivalent items leave in the order of
insertion.  The heap is a list from which `popTop` takes an item that no other
one exceeds under `PriorityLess`, as `std::priority_queue` documents.
-/
import WhirlMatrix.Time
import WhirlMatrix.Library.StableQueue
import Mathlib.Order.Defs.Unbundled
import Mathlib.Data.List.Perm.Basic

namespace Whirl

variable {T : Type}

/-- `PriorityQueue::UniqueT`. -/
structure UniqueT (T : Type) where
  item : T
  tieBraker : ℕ
  deriving DecidableEq, Repr

/-- `PriorityQueue`; `inserts_` is exact here in fewer than 2^64 inserts, as
`toHeapQueue_insert` says. -/
structure PriorityQueue (T : Type) where
  items : List (UniqueT T) := []
  inserts : ℕ := 0
  deriving DecidableEq, Repr

/-! ## Comparison of items -/

/-- Comparing items by a time is a strict weak order. -/
theorem isStrictWeakOrder_of_time (time : T → ℕ) :
    IsStrictWeakOrder T (fun a b => time a < time b) where
  irrefl a := Nat.lt_irrefl (time a)
  trans _ _ _ hab hbc := Nat.lt_trans hab hbc
  incomp_trans a b c := by omega

section Comparison

variable [LT T] [DecidableLT T]

/-- `Equal`. -/
def equal (lhs rhs : T) : Bool := !decide (lhs < rhs) && !decide (rhs < lhs)

/-- `UniqueT::operator<`. -/
def UniqueT.less (a b : UniqueT T) : Bool :=
  decide (a.item < b.item) || (equal a.item b.item && decide (a.tieBraker < b.tieBraker))

/-- `PriorityLess`: the largest priority, hence the smallest item, is on top. -/
def priorityLess (lhs rhs : UniqueT T) : Bool := rhs.less lhs

variable [IsStrictWeakOrder T (· < ·)]

theorem UniqueT.less_asymm {a b : UniqueT T} (h : a.less b = true) : ¬ b.less a = true := by
  have hlt : a.item < b.item → ¬ b.item < a.item := WeakOrder.lt_asymm
  simp only [UniqueT.less, equal, Bool.or_eq_true, Bool.and_eq_true, Bool.not_eq_true',
    decide_eq_true_eq, decide_eq_false_iff_not] at h ⊢
  rcases h with h | ⟨⟨h₁, h₂⟩, h₃⟩
  · rintro (h' | ⟨⟨-, h'⟩, -⟩)
    · exact hlt h h'
    · exact h' h
  · rintro (h' | ⟨-, h'⟩)
    · exact h₂ h'
    · omega

/-- "Not less" is transitive for items with tie-breakers, too. -/
theorem UniqueT.not_less_trans {a b c : UniqueT T} (hab : ¬ a.less b = true)
    (hbc : ¬ b.less c = true) : ¬ a.less c = true := by
  simp only [UniqueT.less, equal, Bool.or_eq_true, Bool.and_eq_true, Bool.not_eq_true',
    decide_eq_true_eq, decide_eq_false_iff_not, not_or, not_and, Nat.not_lt, and_imp] at hab hbc ⊢
  obtain ⟨hab, hab'⟩ := hab
  obtain ⟨hbc, hbc'⟩ := hbc
  refine ⟨WeakOrder.not_lt_trans hab hbc, fun hac hca => ?_⟩
  -- the three items are equivalent, so the tie-breakers decide
  have hba : ¬ b.item < a.item := WeakOrder.not_lt_trans hbc hca
  have hcb : ¬ c.item < b.item := WeakOrder.not_lt_trans hca hab
  exact Nat.le_trans (hbc' hbc hcb) (hab' hab hba)

end Comparison

/-! ## The heap -/

/-- `top` and `pop` of `std::priority_queue`: an item that no other one exceeds, and
the other items. -/
def popTop [LT T] [DecidableLT T] : List (UniqueT T) → Option (UniqueT T × List (UniqueT T))
  | [] => none
  | x :: xs =>
    match popTop xs with
    | none => some (x, [])
    | some (top, rest) => if priorityLess x top then some (top, x :: rest) else some (x, xs)

section Heap

variable [LT T] [DecidableLT T] {l rest : List (UniqueT T)} {top : UniqueT T}

theorem popTop_eq_none : popTop l = none ↔ l = [] := by
  cases l with
  | nil => simp [popTop]
  | cons x xs =>
    rw [popTop]
    split
    · simp
    · split <;> simp

/-- Nothing is lost: the top and the rest are the items of the heap. -/
theorem popTop_perm (h : popTop l = some (top, rest)) : (top :: rest).Perm l := by
  induction l generalizing top rest with
  | nil => simp [popTop] at h
  | cons x xs ih =>
    rw [popTop] at h
    split at h
    · rename_i hnone
      obtain ⟨rfl, rfl⟩ := Prod.mk.inj (Option.some.inj h)
      rw [popTop_eq_none.mp hnone]
    · rename_i top' rest' hsome
      split at h
      · obtain ⟨rfl, rfl⟩ := Prod.mk.inj (Option.some.inj h)
        exact (List.Perm.swap x top' rest').trans ((ih hsome).cons x)
      · obtain ⟨rfl, rfl⟩ := Prod.mk.inj (Option.some.inj h)
        exact List.Perm.refl _

/-- No item exceeds the top. -/
theorem not_less_popTop [IsStrictWeakOrder T (· < ·)] (h : popTop l = some (top, rest)) :
    ∀ y ∈ rest, ¬ y.less top = true := by
  induction l generalizing top rest with
  | nil => simp [popTop] at h
  | cons x xs ih =>
    rw [popTop] at h
    split at h
    · obtain ⟨rfl, rfl⟩ := Prod.mk.inj (Option.some.inj h)
      simp
    · rename_i top' rest' hsome
      have htop := ih hsome
      split at h
      · rename_i hless
        obtain ⟨rfl, rfl⟩ := Prod.mk.inj (Option.some.inj h)
        intro y hy
        rcases List.mem_cons.mp hy with rfl | hy
        · exact UniqueT.less_asymm hless
        · exact htop y hy
      · rename_i hless
        obtain ⟨rfl, rfl⟩ := Prod.mk.inj (Option.some.inj h)
        intro y hy
        rcases List.mem_cons.mp ((popTop_perm hsome).mem_iff.mpr hy) with rfl | hy
        · exact hless
        · exact UniqueT.not_less_trans (htop y hy) hless

end Heap

namespace PriorityQueue

/-! ## Operations -/

/-- `Clear`; the insertion counter goes on. -/
def clear (q : PriorityQueue T) : PriorityQueue T := { q with items := [] }

/-- `IsEmpty`. -/
def isEmpty (q : PriorityQueue T) : Bool := q.items.isEmpty

/-- `Insert`. -/
def insert (q : PriorityQueue T) (value : T) : PriorityQueue T where
  items := ⟨value, q.inserts + 1⟩ :: q.items
  inserts := q.inserts + 1

/-- `Size`. -/
def size (q : PriorityQueue T) : ℕ := q.items.length

/-- `Extract`; undefined on an empty queue. -/
def extract [LT T] [DecidableLT T] (q : PriorityQueue T) : Outcome (T × PriorityQueue T) :=
  match popTop q.items with
  | none => .error .undefined
  | some (top, rest) => .ok (top.item, { q with items := rest })

/-- `Smallest`; undefined on an empty queue. -/
def smallest [LT T] [DecidableLT T] (q : PriorityQueue T) : Outcome T :=
  match popTop q.items with
  | none => .error .undefined
  | some (top, _) => .ok top.item

/-- The items of a queue without their tie-breakers. -/
def held (q : PriorityQueue T) : List T := q.items.map (·.item)

@[simp] theorem held_insert (q : PriorityQueue T) (value : T) :
    (q.insert value).held = value :: q.held := rfl

theorem isEmpty_iff {q : PriorityQueue T} : q.isEmpty = true ↔ q.held = [] := by
  simp [isEmpty, held]

variable [LT T] [DecidableLT T] {q q' : PriorityQueue T} {x : T}

theorem extract_perm (h : q.extract = .ok (x, q')) : (x :: q'.held).Perm q.held := by
  unfold extract at h
  split at h
  · exact absurd h (by simp)
  · rename_i top rest hpop
    obtain ⟨rfl, rfl⟩ := Prod.mk.inj (Except.ok.inj h)
    exact (popTop_perm hpop).map _

/-- What `Extract` returns is minimal. -/
theorem not_lt_extract [IsStrictWeakOrder T (· < ·)] (h : q.extract = .ok (x, q')) :
    ∀ y ∈ q.held, ¬ y < x := by
  unfold extract at h
  split at h
  · exact absurd h (by simp)
  · rename_i top rest hpop
    obtain ⟨rfl, rfl⟩ := Prod.mk.inj (Except.ok.inj h)
    intro y hy
    obtain ⟨u, hu, rfl⟩ := List.mem_map.mp hy
    rcases List.mem_cons.mp ((popTop_perm hpop).mem_iff.mpr hu) with rfl | hu
    · exact Std.Irrefl.irrefl (r := (· < ·)) u.item
    · have hless := not_less_popTop hpop u hu
      simp only [UniqueT.less, Bool.or_eq_true, decide_eq_true_eq, not_or] at hless
      exact hless.1

/-- `Smallest` shows what `Extract` would return. -/
theorem smallest_eq_ok : q.smallest = .ok x ↔ ∃ q', q.extract = .ok (x, q') := by
  unfold smallest extract
  split <;> simp

/-- A queue with items can be extracted from. -/
theorem exists_extract (h : q.held ≠ []) : ∃ x q', q.extract = .ok (x, q') := by
  unfold extract
  split
  · rename_i hnone
    exact absurd (by rw [held, popTop_eq_none.mp hnone]; rfl) h
  · exact ⟨_, _, rfl⟩

theorem exists_smallest (h : q.held ≠ []) : ∃ x, q.smallest = .ok x := by
  obtain ⟨x, q', hx⟩ := exists_extract h
  exact ⟨x, smallest_eq_ok.mpr ⟨q', hx⟩⟩

theorem mem_of_smallest (h : q.smallest = .ok x) : x ∈ q.held := by
  obtain ⟨q', hq'⟩ := smallest_eq_ok.mp h
  exact (extract_perm hq').mem_iff.mp (List.mem_cons_self ..)

theorem not_lt_smallest [IsStrictWeakOrder T (· < ·)] (h : q.smallest = .ok x) :
    ∀ y ∈ q.held, ¬ y < x := by
  obtain ⟨q', hq'⟩ := smallest_eq_ok.mp h
  exact not_lt_extract hq'

end PriorityQueue

end Whirl
