/-
# A priority queue is a sorted list

The order in which a `PriorityQueue` gives up its items is determined by their order
and by the insertion counter.  `Lists q o` says that `o` is that order: what the
operations do to the queue is then said of the list.
-/
import WhirlMatrix.Helpers.PriorityQueue
import Mathlib.Data.List.Basic

namespace Whirl

variable {T : Type} [LT T] [DecidableLT T]

namespace PriorityQueue

/-- The items of the queue in the order in which they leave. -/
structure Lists (q : PriorityQueue T) (o : List (UniqueT T)) : Prop where
  perm : q.items.Perm o
  sorted : o.Pairwise fun a b => a.less b = true
  fresh : ∀ u ∈ o, u.tieBraker ≤ q.inserts

variable {q q' : PriorityQueue T} {o : List (UniqueT T)} {u : UniqueT T}

theorem lists_empty : Lists ({} : PriorityQueue T) [] :=
  ⟨List.Perm.refl _, List.Pairwise.nil, fun _ h => absurd h (List.not_mem_nil)⟩

theorem lists_clear (q : PriorityQueue T) : Lists q.clear [] :=
  ⟨List.Perm.refl _, List.Pairwise.nil, fun _ h => absurd h (List.not_mem_nil)⟩

theorem Lists.held (h : Lists q o) : q.held.Perm (o.map (·.item)) := h.perm.map _

theorem Lists.size (h : Lists q o) : q.size = o.length := h.perm.length_eq

theorem Lists.isEmpty (h : Lists q o) : q.isEmpty = o.isEmpty := by
  unfold PriorityQueue.isEmpty
  cases o with
  | nil => rw [List.perm_nil.mp h.perm]
  | cons u o =>
    cases hitems : q.items with
    | nil =>
      have hlen := h.perm.length_eq
      rw [hitems] at hlen
      exact absurd hlen (by simp)
    | cons v items => rfl

/-- `Extract` takes the head of the list. -/
theorem Lists.extract [IsStrictWeakOrder T (· < ·)] (h : Lists q (u :: o)) :
    ∃ q', q.extract = .ok (u.item, q') ∧ Lists q' o := by
  obtain ⟨hfirst, hsorted⟩ := List.pairwise_cons.mp h.sorted
  cases hpop : popTop q.items with
  | none =>
    have hlen := h.perm.length_eq
    rw [popTop_eq_none.mp hpop] at hlen
    exact absurd hlen (by simp)
  | some p =>
    obtain ⟨top, rest⟩ := p
    have hperm := (popTop_perm hpop).trans h.perm
    -- an item that no other one exceeds is the head
    have htop : top = u := by
      rcases List.mem_cons.mp (hperm.mem_iff.mp (List.mem_cons_self ..)) with heq | hmem
      · exact heq
      · have hless : u.less top = true := hfirst top hmem
        rcases List.mem_cons.mp (hperm.mem_iff.mpr (List.mem_cons_self ..)) with heq | hmem'
        · exact heq.symm
        · exact absurd hless (not_less_popTop hpop u hmem')
    subst htop
    refine ⟨{ q with items := rest }, ?_, hperm.cons_inv, hsorted, fun v hv => ?_⟩
    · unfold PriorityQueue.extract
      rw [hpop]
    · exact h.fresh v (List.mem_cons_of_mem _ hv)

/-- `Smallest` shows the head of the list. -/
theorem Lists.smallest [IsStrictWeakOrder T (· < ·)] (h : Lists q (u :: o)) :
    q.smallest = .ok u.item := by
  obtain ⟨q', hextract, -⟩ := h.extract
  exact smallest_eq_ok.mpr ⟨q', hextract⟩

omit [LT T] [DecidableLT T] in
/-- A list in which a property only holds up to some place. -/
theorem filter_append_filter_of_pairwise {p : T → Bool} {l : List T}
    (h : l.Pairwise fun a b => p b = true → p a = true) :
    l.filter p ++ l.filter (fun a => !p a) = l := by
  induction l with
  | nil => rfl
  | cons a l ih =>
    obtain ⟨hfirst, hrest⟩ := List.pairwise_cons.mp h
    cases hp : p a with
    | true =>
      rw [List.filter_cons_of_pos hp, List.filter_cons_of_neg (by simp [hp]), List.cons_append,
        ih hrest]
    | false =>
      have hnone : l.filter p = [] := by
        rw [List.filter_eq_nil_iff]
        intro b hb hpb
        exact absurd (hfirst b hb hpb) (by simp [hp])
      rw [List.filter_cons_of_neg (by simp [hp]), List.filter_cons_of_pos (by simp [hp]), hnone,
        List.nil_append]
      congr 1
      rw [← ih hrest, hnone, List.nil_append, List.filter_filter]
      simp

/-- The items that leave before a new one are those that it does not precede. -/
theorem Lists.insert [IsStrictWeakOrder T (· < ·)] (h : Lists q o) (x : T) :
    Lists (q.insert x)
      (o.filter (fun u => !decide (x < u.item)) ++
        ⟨x, q.inserts + 1⟩ :: o.filter (fun u => decide (x < u.item))) := by
  have hnot : (fun u : UniqueT T => !!decide (x < u.item)) = fun u => decide (x < u.item) := by
    funext u
    exact Bool.not_not _
  have hsplit : o.filter (fun u => !decide (x < u.item))
      ++ o.filter (fun u => decide (x < u.item)) = o := by
    rw [← hnot]
    refine filter_append_filter_of_pairwise (h.sorted.imp fun {a b} hless hb => ?_)
    simp only [Bool.not_eq_true', decide_eq_false_iff_not] at hb ⊢
    intro ha
    -- an item after `a` is not less than `a`
    have hle : ¬ b.item < a.item := by
      intro hlt
      simp only [UniqueT.less, equal, Bool.or_eq_true, Bool.and_eq_true, Bool.not_eq_true',
        decide_eq_true_eq, decide_eq_false_iff_not] at hless
      rcases hless with hless | ⟨⟨-, hge⟩, -⟩
      · exact WeakOrder.lt_asymm hlt hless
      · exact hge hlt
    exact WeakOrder.not_lt_trans hb hle ha
  have hpair := h.sorted
  rw [← hsplit, List.pairwise_append] at hpair
  obtain ⟨hbefore, hafter, hcross⟩ := hpair
  refine ⟨?_, ?_, fun u hu => ?_⟩
  · show (_ :: q.items).Perm _
    refine List.Perm.trans ?_ List.perm_middle.symm
    rw [hsplit]
    exact h.perm.cons _
  · rw [List.pairwise_append, List.pairwise_cons]
    refine ⟨hbefore, ⟨fun u hu => ?_, hafter⟩, fun u hu v hv => ?_⟩
    · have hlt : x < u.item := by simpa using (List.mem_filter.mp hu).2
      unfold UniqueT.less
      simp [hlt]
    · rcases List.mem_cons.mp hv with rfl | hv
      · obtain ⟨hmem, hge⟩ := List.mem_filter.mp hu
        have hge : ¬ x < u.item := by simpa using hge
        have hfresh := h.fresh u hmem
        unfold UniqueT.less equal
        by_cases hlt : u.item < x
        · simp [hlt]
        · simp [hlt, hge]
          omega
      · exact hcross u hu v hv
  · show u.tieBraker ≤ q.inserts + 1
    rcases List.mem_append.mp hu with hu | hu
    · have := h.fresh u (List.mem_of_mem_filter hu)
      omega
    · rcases List.mem_cons.mp hu with rfl | hu
      · exact Nat.le_refl _
      · have := h.fresh u (List.mem_of_mem_filter hu)
        omega

end PriorityQueue

end Whirl
