/-
# Linearizations of a finite collection of operations

A reusable account of linearizability that names no program.  An operation of
type `α` may be `pending` (it never returned, so it may have taken effect or
not), two operations may be ordered by `before` (the first returned before the
second was issued), and `step s a s'` says that `a` is legal in the state `s`
and leads to `s'`.

* `Runs step s order` : the operations of `order` are legal one after another;
* `Linearizable` : some of the pending operations can be left out so that the
  rest can be lined up in an order that `before` allows and `step` accepts;
* `Linearizable.exists_first` : the exchange argument that a search relies on;
* `linearizable_filter_iff` : pending operations that change nothing do not matter;
* `linearizable_map_iff` : operations can be replaced by what is recorded of them.
-/
import Mathlib.Data.List.Perm.Basic

namespace Linearization

variable {α σ : Type*}

/-- The operations of a list are legal one after another from the state `s`. -/
def Runs (step : σ → α → σ → Prop) : σ → List α → Prop
  | _, [] => True
  | s, a :: rest => ∃ s', step s a s' ∧ Runs step s' rest

/-- The operations `ops` are linearizable from `s`: dropping some pending ones,
the others can be lined up so that no operation is preceded by a later one and
the whole line is legal. -/
def Linearizable (pending : α → Prop) (before : α → α → Prop)
    (step : σ → α → σ → Prop) (s : σ) (ops : List α) : Prop :=
  ∃ order dropped : List α,
    (order ++ dropped).Perm ops ∧
    (∀ a ∈ dropped, pending a) ∧
    order.Pairwise (fun a b => ¬ before b a) ∧
    Runs step s order

variable {pending : α → Prop} {before : α → α → Prop} {step : σ → α → σ → Prop}
  {s s' : σ} {a : α} {ops ops' : List α}

theorem linearizable_nil : Linearizable pending before step s [] :=
  ⟨[], [], List.Perm.refl _, by simp, List.Pairwise.nil, trivial⟩

/-- Only the collection of operations matters, not how it is listed. -/
theorem Linearizable.perm (h : Linearizable pending before step s ops)
    (hp : ops.Perm ops') : Linearizable pending before step s ops' := by
  obtain ⟨order, dropped, hperm, hpend, hord, hrun⟩ := h
  exact ⟨order, dropped, hperm.trans hp, hpend, hord, hrun⟩

/-- A pending operation can be dropped. -/
theorem Linearizable.cons_pending (h : Linearizable pending before step s ops)
    (ha : pending a) : Linearizable pending before step s (a :: ops) := by
  obtain ⟨order, dropped, hperm, hpend, hord, hrun⟩ := h
  refine ⟨order, a :: dropped, ?_, ?_, hord, hrun⟩
  · exact List.perm_middle.trans (hperm.cons a)
  · intro b hb
    rcases List.mem_cons.mp hb with rfl | hb
    · exact ha
    · exact hpend b hb

/-- An operation that nothing left precedes can be put in front. -/
theorem Linearizable.cons_step (h : Linearizable pending before step s' ops)
    (hs : step s a s') (hmin : ∀ b ∈ ops, ¬ before b a) :
    Linearizable pending before step s (a :: ops) := by
  obtain ⟨order, dropped, hperm, hpend, hord, hrun⟩ := h
  refine ⟨a :: order, dropped, hperm.cons a, hpend, ?_, s', hs, hrun⟩
  refine List.pairwise_cons.mpr ⟨fun b hb => hmin b ?_, hord⟩
  exact hperm.mem_iff.mp (List.mem_append_left _ hb)

/-- **The exchange argument.**  A nonempty linearizable collection has a member
that nothing in it precedes and that can be disposed of first, either dropped
or executed.  A line that is already empty leaves a pending operation to drop;
otherwise the head of the line is executed. -/
theorem Linearizable.exists_first (h : Linearizable pending before step s ops)
    (hne : ops ≠ []) (hirrefl : ∀ a ∈ ops, ¬ before a a)
    (hpending : ∀ a b, pending a → ¬ before a b) :
    ∃ a rest, ops.Perm (a :: rest) ∧ (∀ b ∈ ops, ¬ before b a) ∧
      ((pending a ∧ Linearizable pending before step s rest) ∨
        ∃ s', step s a s' ∧ Linearizable pending before step s' rest) := by
  obtain ⟨order, dropped, hperm, hpend, hord, hrun⟩ := h
  cases order with
  | nil =>
    cases dropped with
    | nil => exact absurd (List.perm_nil.mp hperm.symm) hne
    | cons a dropped =>
      refine ⟨a, dropped, hperm.symm, fun b hb => ?_, Or.inl ⟨hpend a (by simp), ?_⟩⟩
      · exact hpending b a (hpend b (hperm.mem_iff.mpr hb))
      · exact ⟨[], dropped, List.Perm.refl _, fun b hb => hpend b (by simp [hb]),
          List.Pairwise.nil, trivial⟩
  | cons a order =>
    obtain ⟨s', hs, hrun⟩ := hrun
    obtain ⟨hfirst, hord⟩ := List.pairwise_cons.mp hord
    refine ⟨a, order ++ dropped, hperm.symm, fun b hb => ?_, Or.inr ⟨s', hs, ?_⟩⟩
    · rcases List.mem_append.mp (hperm.mem_iff.mpr hb) with hb' | hb'
      · rcases List.mem_cons.mp hb' with rfl | hb'
        · exact hirrefl b hb
        · exact hfirst b hb'
      · exact hpending b a (hpend b hb')
    · exact ⟨order, dropped, List.Perm.refl _, hpend, hord, hrun⟩

/-- Operations that change nothing can be left out of a line. -/
theorem Runs.filter {keep : α → Bool} {order : List α} (h : Runs step s order)
    (hread : ∀ a ∈ order, keep a = false → ∀ s s', step s a s' → s' = s) :
    Runs step s (order.filter keep) := by
  induction order generalizing s with
  | nil => exact trivial
  | cons a order ih =>
    obtain ⟨s', hs, hrun⟩ := h
    have hrest : Runs step s' (order.filter keep) :=
      ih hrun fun b hb => hread b (List.mem_cons_of_mem _ hb)
    cases hkeep : keep a with
    | true =>
      rw [List.filter_cons_of_pos hkeep]
      exact ⟨s', hs, hrest⟩
    | false =>
      obtain rfl := hread a (List.mem_cons_self ..) hkeep s s' hs
      rw [List.filter_cons_of_neg (by simp [hkeep])]
      exact hrest

/-- Several pending operations can be dropped. -/
theorem Linearizable.append_pending {more : List α} (h : Linearizable pending before step s ops)
    (hmore : ∀ a ∈ more, pending a) : Linearizable pending before step s (more ++ ops) := by
  induction more with
  | nil => exact h
  | cons a more ih =>
    have hrest := ih fun b hb => hmore b (List.mem_cons_of_mem _ hb)
    exact Linearizable.cons_pending hrest (hmore a (List.mem_cons_self ..))

/-- **Pending readers do not matter.**  Whether operations are linearizable does not depend
on pending operations that change nothing: in a line they can be left out, and they can
always be dropped. -/
theorem linearizable_filter_iff {keep : α → Bool}
    (hpend : ∀ a ∈ ops, keep a = false → pending a)
    (hread : ∀ a ∈ ops, keep a = false → ∀ s s', step s a s' → s' = s) :
    Linearizable pending before step s (ops.filter keep) ↔
      Linearizable pending before step s ops := by
  constructor
  · intro h
    refine (Linearizable.append_pending h (show ∀ a ∈ ops.filter fun a => !keep a, pending a from ?_)).perm ?_
    · intro a ha
      obtain ⟨hmem, hkeep⟩ := List.mem_filter.mp ha
      exact hpend a hmem (by simpa using hkeep)
    · exact List.perm_append_comm.trans (List.filter_append_perm keep ops)
  · rintro ⟨order, dropped, hperm, hdropped, hord, hrun⟩
    have hmem : ∀ a ∈ order, a ∈ ops := fun a ha =>
      hperm.mem_iff.mp (List.mem_append_left _ ha)
    refine ⟨order.filter keep, dropped.filter keep, ?_, fun a ha => ?_, ?_, ?_⟩
    · rw [← List.filter_append]
      exact hperm.filter keep
    · exact hdropped a (List.mem_of_mem_filter ha)
    · exact hord.sublist List.filter_sublist
    · exact hrun.filter fun a ha => hread a (hmem a ha)

/-! ## Records of operations -/

variable {β : Type*} {f : β → α}

theorem runs_map_iff {order : List β} :
    Runs step s (order.map f) ↔ Runs (fun s b s' => step s (f b) s') s order := by
  induction order generalizing s with
  | nil => exact Iff.rfl
  | cons b order ih => simp only [List.map_cons, Runs, ih]

/-- What is listed in another order comes from a list in another order. -/
theorem exists_perm_of_map_perm {l : List α} {ops : List β} (h : l.Perm (ops.map f)) :
    ∃ ops' : List β, ops'.Perm ops ∧ ops'.map f = l := by
  generalize hmap : ops.map f = l' at h
  induction h generalizing ops with
  | nil => exact ⟨ops, List.Perm.refl _, hmap⟩
  | cons a _ ih =>
    obtain ⟨b, rest, rfl, rfl, hrest⟩ := List.map_eq_cons_iff.mp hmap
    obtain ⟨ops', hperm, rfl⟩ := ih hrest
    exact ⟨b :: ops', hperm.cons b, rfl⟩
  | swap a a' l =>
    obtain ⟨b, rest, rfl, rfl, hrest⟩ := List.map_eq_cons_iff.mp hmap
    obtain ⟨b', rest', rfl, rfl, rfl⟩ := List.map_eq_cons_iff.mp hrest
    exact ⟨b' :: b :: rest', List.Perm.swap b b' rest', rfl⟩
  | trans _ _ ih ih' =>
    obtain ⟨ops', hperm, hops'⟩ := ih' hmap
    obtain ⟨ops'', hperm', hops''⟩ := ih hops'
    exact ⟨ops'', hperm'.trans hperm, hops''⟩

/-- **Records are enough.**  Operations are linearizable when the records of them are: two
operations with one record can stand for each other. -/
theorem linearizable_map_iff {ops : List β} :
    Linearizable pending before step s (ops.map f) ↔
      Linearizable (fun b => pending (f b)) (fun b b' => before (f b) (f b'))
        (fun s b s' => step s (f b) s') s ops := by
  constructor
  · rintro ⟨order, dropped, hperm, hdropped, hord, hrun⟩
    obtain ⟨ops', hperm', hmap⟩ := exists_perm_of_map_perm hperm
    obtain ⟨order', dropped', rfl, rfl, rfl⟩ := List.map_eq_append_iff.mp hmap
    refine ⟨order', dropped', hperm', ?_, List.pairwise_map.mp hord, runs_map_iff.mp hrun⟩
    intro b hb
    exact hdropped (f b) (List.mem_map_of_mem hb)
  · rintro ⟨order, dropped, hperm, hdropped, hord, hrun⟩
    refine ⟨order.map f, dropped.map f, ?_, ?_, List.pairwise_map.mpr hord, runs_map_iff.mpr hrun⟩
    · rw [← List.map_append]
      exact hperm.map f
    · intro a ha
      obtain ⟨b, hb, rfl⟩ := List.mem_map.mp ha
      exact hdropped b hb

end Linearization
