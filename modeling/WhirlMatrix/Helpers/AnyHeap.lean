/-
# A priority queue over any heap

`PriorityQueue` again, over any implementation of `std::priority_queue`.  All that is
promised by an implementation is that no other element exceeds the one that it pops under
`PriorityLess`.  The tie-breakers make this element unique, so every implementation gives up
the items of a stable queue.  The queue of the other modules is one of these.
-/
import WhirlMatrix.Process.Scheduler

namespace Whirl

open StableQueue (Op Stable NeverEmpty)

variable {T : Type}

/-- `std::priority_queue<UniqueT, std::vector<UniqueT>, PriorityLess>`. -/
structure StdPriorityQueue (T : Type) where
  Heap : Type
  empty : Heap
  push : Heap → UniqueT T → Heap
  /-- Undefined on an empty heap. -/
  top : Heap → Option (UniqueT T)
  pop : Heap → Heap
  /-- The elements, in any order. -/
  elements : Heap → List (UniqueT T)

/-- What an implementation promises. -/
structure StdPriorityQueue.Spec [LT T] [DecidableLT T] (std : StdPriorityQueue T) : Prop where
  empty : std.elements std.empty = []
  push : ∀ heap item, (std.elements (std.push heap item)).Perm (item :: std.elements heap)
  top : ∀ heap, std.elements heap ≠ [] → ∃ item, std.top heap = some item ∧
    (item :: std.elements (std.pop heap)).Perm (std.elements heap) ∧
      ∀ other ∈ std.elements (std.pop heap), ¬ priorityLess item other = true

/-- `PriorityQueue`; `inserts` is a `size_t`. -/
structure HeapQueue (std : StdPriorityQueue T) where
  items : std.Heap := std.empty
  inserts : ℕ := 0

namespace HeapQueue

variable {std : StdPriorityQueue T}

/-! ## Operations -/

/-- `Clear`. -/
def clear (q : HeapQueue std) : HeapQueue std := { q with items := std.empty }

/-- `MakeUnique`. -/
def makeUnique (q : HeapQueue std) (value : T) : UniqueT T × HeapQueue std :=
  let inserts := (q.inserts + 1) % 2 ^ 64
  (⟨value, inserts⟩, { q with inserts := inserts })

/-- `Insert`. -/
def insert (q : HeapQueue std) (value : T) : HeapQueue std :=
  let (item, q) := q.makeUnique value
  { q with items := std.push q.items item }

/-- `Extract`; undefined on an empty queue. -/
def extract (q : HeapQueue std) : Outcome (T × HeapQueue std) :=
  match std.top q.items with
  | none => .error .undefined
  | some top => .ok (top.item, { q with items := std.pop q.items })

/-- A sequence of operations: the items that are extracted, and the queue after them. -/
def run (q : HeapQueue std) : List (Op T) → Outcome (List T × HeapQueue std)
  | [] => .ok ([], q)
  | .insert value :: ops => (q.insert value).run ops
  | .extract :: ops => do
    let (item, q) ← q.extract
    let (taken, q) ← q.run ops
    return (item :: taken, q)
  | .clear :: ops => q.clear.run ops

/-! ## Every queue is stable -/

/-- The elements of the heap in the order in which they were inserted. -/
structure Holds (q : HeapQueue std) (held : List (UniqueT T)) : Prop where
  perm : (std.elements q.items).Perm held
  ascending : held.Pairwise fun a b => a.tieBraker < b.tieBraker
  bounded : ∀ u ∈ held, u.tieBraker ≤ q.inserts

variable [LT T] [DecidableLT T] {q : HeapQueue std} {held before after : List (UniqueT T)}
  {u : UniqueT T}

theorem holds_new (hstd : std.Spec) : Holds ({} : HeapQueue std) [] where
  perm := by rw [hstd.empty]
  ascending := List.Pairwise.nil
  bounded _ hu := absurd hu List.not_mem_nil

theorem Holds.clear (hstd : std.Spec) : Holds q.clear [] where
  perm := by
    show (std.elements std.empty).Perm []
    rw [hstd.empty]
  ascending := List.Pairwise.nil
  bounded _ hu := absurd hu List.not_mem_nil

/-- The new element has the largest tie-breaker. -/
theorem Holds.insert (hstd : std.Spec) (h : q.Holds held) (hinserts : q.inserts + 1 < 2 ^ 64)
    (value : T) : (q.insert value).Holds (held ++ [⟨value, q.inserts + 1⟩]) := by
  have hnext : (q.inserts + 1) % 2 ^ 64 = q.inserts + 1 := Nat.mod_eq_of_lt hinserts
  have hinsert : q.insert value
      = ⟨std.push q.items ⟨value, q.inserts + 1⟩, q.inserts + 1⟩ := by
    rw [HeapQueue.insert, makeUnique, hnext]
  rw [hinsert]
  constructor
  · exact (hstd.push q.items _).trans ((h.perm.cons _).trans (List.perm_append_singleton ..).symm)
  · apply List.pairwise_append.mpr ⟨h.ascending, List.pairwise_singleton _ _, ?_⟩
    intro u hu v hv
    obtain rfl := List.mem_singleton.mp hv
    exact Nat.lt_succ_of_le (h.bounded u hu)
  · intro u hu
    rcases List.mem_append.mp hu with hu | hu
    · exact Nat.le_succ_of_le (h.bounded u hu)
    · obtain rfl := List.mem_singleton.mp hu
      exact Nat.le_refl _

/-- The earliest minimal item is above all others. -/
theorem less_of_isNext (hascending : (before ++ u :: after).Pairwise fun a b => a.tieBraker < b.tieBraker)
    (hnext : StableQueue.IsNext (before.map (·.item)) u.item (after.map (·.item))) {other : UniqueT T}
    (hother : other ∈ before ++ u :: after) : other = u ∨ u.less other = true := by
  rcases List.mem_append.mp hother with hother | hother
  · right
    have hlt : u.item < other.item := hnext.before _ (List.mem_map_of_mem hother)
    rw [UniqueT.less, decide_eq_true hlt, Bool.true_or]
  · rcases List.mem_cons.mp hother with rfl | hother
    · exact Or.inl rfl
    · right
      have hnot : ¬ other.item < u.item := hnext.after _ (List.mem_map_of_mem hother)
      have htie : u.tieBraker < other.tieBraker :=
        (List.pairwise_cons.mp (List.pairwise_append.mp hascending).2.1).1 other hother
      by_cases hlt : u.item < other.item
      · rw [UniqueT.less, decide_eq_true hlt, Bool.true_or]
      · rw [UniqueT.less, equal, decide_eq_true htie, decide_eq_false hlt, decide_eq_false hnot]
        rfl

/-- What is extracted is the earliest minimal item. -/
theorem Holds.extract (hstd : std.Spec) (h : q.Holds (before ++ u :: after))
    (hnext : StableQueue.IsNext (before.map (·.item)) u.item (after.map (·.item))) :
    ∃ q', q.extract = .ok (u.item, q') ∧ q'.Holds (before ++ after) ∧ q'.inserts = q.inserts := by
  have hne : std.elements q.items ≠ [] := by
    intro hnil
    have hlength := h.perm.length_eq
    rw [hnil, List.length_append] at hlength
    exact absurd hlength (by simp)
  obtain ⟨top, htop, hperm, hothers⟩ := hstd.top q.items hne
  have hall := hperm.trans h.perm
  obtain rfl : top = u := by
    rcases less_of_isNext h.ascending hnext (hall.mem_iff.mp (List.mem_cons_self ..)) with heq | hless
    · exact heq
    · -- the element that is not on top would exceed the top
      have hu : u ∈ top :: std.elements (std.pop q.items) := hall.mem_iff.mpr (by simp)
      rcases List.mem_cons.mp hu with heq | hu
      · exact heq.symm
      · exact absurd hless (hothers u hu)
  have hsub : (before ++ after).Sublist (before ++ top :: after) :=
    (List.sublist_cons_self top after).append_left before
  refine ⟨{ q with items := std.pop q.items }, ?_, ⟨?_, ?_, ?_⟩, rfl⟩
  · rw [HeapQueue.extract, htop]
  · exact (hall.trans List.perm_middle).cons_inv
  · exact h.ascending.sublist hsub
  · intro v hv
    exact h.bounded v (hsub.subset hv)

/-- A queue over any heap gives up what a stable queue gives up.  Induction on the
operations of the stable queue. -/
theorem Holds.run (hstd : std.Spec) {items taken left : List T} {ops : List (Op T)}
    (hstable : Stable items ops taken left) (h : q.Holds held) (hheld : held.map (·.item) = items)
    (hinserts : q.inserts + StableQueue.inserts ops < 2 ^ 64) :
    ∃ q' held', q.run ops = .ok (taken, q') ∧ q'.Holds held' ∧ held'.map (·.item) = left := by
  induction hstable generalizing q held with
  | nil items => exact ⟨q, held, rfl, h, hheld⟩
  | @insert items ops taken left value _ ih =>
    have hinserts : q.inserts + (StableQueue.inserts ops + 1) < 2 ^ 64 := hinserts
    have hnext : (q.inserts + 1) % 2 ^ 64 = q.inserts + 1 := Nat.mod_eq_of_lt (by omega)
    have hcount : (q.insert value).inserts = q.inserts + 1 := hnext
    refine ih (h.insert hstd (by omega) value) ?_ (by omega)
    rw [List.map_append, hheld]
    rfl
  | @extract before after x ops taken left hisNext _ ih =>
    obtain ⟨before', rest, rfl, rfl, hrest⟩ := List.map_eq_append_iff.mp hheld
    obtain ⟨u, after', rfl, rfl, rfl⟩ := List.map_eq_cons_iff.mp hrest
    obtain ⟨q', hextract, hholds, hcount⟩ := h.extract hstd hisNext
    have hinserts : q'.inserts + StableQueue.inserts ops < 2 ^ 64 := by
      rw [hcount]
      exact hinserts
    obtain ⟨q'', held', hrun, hholds', hleft⟩ := ih hholds List.map_append hinserts
    refine ⟨q'', held', ?_, hholds', hleft⟩
    rw [HeapQueue.run, hextract, Outcome.ok_bind]
    dsimp only
    rw [hrun]
    rfl
  | clear _ ih => exact ih (Holds.clear hstd) rfl hinserts

/-- **What is extracted does not depend on the heap.**  For every sequence of less than
`2 ^ 64` insertions, extractions from a queue that is not empty, and calls of `Clear`, there
is one sequence of items that a stable queue gives up, and a queue over any implementation
of `std::priority_queue` gives up the same. -/
theorem exists_stable_and_run [IsStrictWeakOrder T (· < ·)] {ops : List (Op T)}
    (hops : NeverEmpty 0 ops) (hinserts : StableQueue.inserts ops < 2 ^ 64) :
    ∃ taken, (∃ left, Stable [] ops taken left) ∧
      (∀ taken' left', Stable [] ops taken' left' → taken' = taken) ∧
        ∀ std : StdPriorityQueue T, std.Spec →
          ∃ q, ({} : HeapQueue std).run ops = .ok (taken, q) := by
  have hnew : NeverEmpty ([] : List T).length ops := hops
  obtain ⟨taken, left, hstable⟩ := StableQueue.exists_stable hnew
  refine ⟨taken, ⟨left, hstable⟩, fun taken' left' hstable' => (hstable'.unique hstable).1, ?_⟩
  intro std hstd
  have hcount : ({} : HeapQueue std).inserts + StableQueue.inserts ops < 2 ^ 64 := by
    show 0 + StableQueue.inserts ops < 2 ^ 64
    omega
  obtain ⟨q, held, hrun, -⟩ := (holds_new hstd).run hstd hstable rfl hcount
  exact ⟨q, hrun⟩

end HeapQueue

/-! ## The queue of the other modules -/

/-- The heap of `PriorityQueue`: a list from which `popTop` takes the top. -/
def listHeap (T : Type) [LT T] [DecidableLT T] : StdPriorityQueue T where
  Heap := List (UniqueT T)
  empty := []
  push heap item := item :: heap
  top heap := (popTop heap).map Prod.fst
  pop heap := ((popTop heap).map Prod.snd).getD []
  elements heap := heap

section ListHeap

variable [LT T] [DecidableLT T]

theorem spec_listHeap [IsStrictWeakOrder T (· < ·)] : (listHeap T).Spec where
  empty := rfl
  push _ _ := List.Perm.refl _
  top heap hne := by
    cases hpop : popTop heap with
    | none => exact absurd (popTop_eq_none.mp hpop) hne
    | some p =>
      have htop : (listHeap T).top heap = some p.1 := congrArg (Option.map Prod.fst) hpop
      have hrest : (listHeap T).pop heap = p.2 := by
        show ((popTop heap).map Prod.snd).getD [] = p.2
        rw [hpop]
        rfl
      refine ⟨p.1, htop, ?_, ?_⟩
      · rw [hrest]
        exact popTop_perm hpop
      · rw [hrest]
        exact not_less_popTop hpop

/-- Two tasks for one time leave a scheduler in the order in which they were scheduled. -/
theorem HeapQueue.exists_stable_and_run_listHeap :
    let ops : List (Op (Process.ScheduledTask ℕ)) :=
      [.insert ⟨5, 1⟩, .insert ⟨3, 2⟩, .extract, .insert ⟨5, 3⟩, .extract, .extract]
    ∃ q, ({} : HeapQueue (listHeap (Process.ScheduledTask ℕ))).run ops
      = .ok ([⟨3, 2⟩, ⟨5, 1⟩, ⟨5, 3⟩], q) := by
  intro ops
  have hops : NeverEmpty 0 ops := by decide
  obtain ⟨taken, -, -, hrun⟩ := HeapQueue.exists_stable_and_run hops (by decide)
  obtain ⟨q, hq⟩ := hrun (listHeap _) spec_listHeap
  refine ⟨q, ?_⟩
  have htaken : taken = [⟨3, 2⟩, ⟨5, 1⟩, ⟨5, 3⟩] := congrArg Prod.fst (Except.ok.inj hq).symm
  rw [hq, htaken]

/-- A queue of the other modules. -/
def PriorityQueue.toHeapQueue (q : PriorityQueue T) : HeapQueue (listHeap T) :=
  ⟨q.items, q.inserts⟩

/-- The operations are the same, as long as the counter of inserts does not wrap around. -/
theorem PriorityQueue.toHeapQueue_insert {q : PriorityQueue T} (h : q.inserts + 1 < 2 ^ 64)
    (value : T) : (q.insert value).toHeapQueue = q.toHeapQueue.insert value := by
  have hnext : (q.toHeapQueue.inserts + 1) % 2 ^ 64 = q.inserts + 1 := Nat.mod_eq_of_lt h
  rw [HeapQueue.insert, HeapQueue.makeUnique, hnext]
  rfl

theorem PriorityQueue.toHeapQueue_extract (q : PriorityQueue T) :
    q.toHeapQueue.extract = q.extract.map fun result => (result.1, result.2.toHeapQueue) := by
  unfold HeapQueue.extract PriorityQueue.extract
  show (match (popTop q.items).map Prod.fst with | none => _ | some top => _) = _
  cases hpop : popTop q.items with
  | none => rfl
  | some p =>
    show Except.ok (p.1.item, (⟨((popTop q.items).map Prod.snd).getD [], q.inserts⟩ :
      HeapQueue (listHeap T))) = _
    rw [hpop]
    rfl

end ListHeap

end Whirl
