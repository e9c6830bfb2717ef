/-
# Stable queues

A queue over a strict weak order from which a minimal item is taken, and among equivalent
ones the item that was inserted first.  The state is the list of the items in the order in
which they were inserted.  The items that are taken by a sequence of operations are
determined by it.
-/
import Mathlib.Order.Defs.Unbundled
import Mathlib.Data.List.Basic

/-! ## Strict weak orders -/

namespace WeakOrder

variable {T : Type*} [LT T] [IsStrictWeakOrder T (· < ·)] {a b c : T}

theorem lt_asymm (h : a < b) : ¬ b < a := fun h' =>
  Std.Irrefl.irrefl (r := (· < ·)) a (IsTrans.trans (r := (· < ·)) a b a h h')

/-- In a strict weak order "not less" is transitive. -/
theorem not_lt_trans (hab : ¬ a < b) (hbc : ¬ b < c) : ¬ a < c := by
  intro hac
  by_cases hba : b < a
  · exact hbc (IsTrans.trans (r := (· < ·)) b a c hba hac)
  by_cases hcb : c < b
  · exact hab (IsTrans.trans (r := (· < ·)) a c b hac hcb)
  have hincomp := IsStrictWeakOrder.incomp_trans a b c ⟨hab, hba⟩ ⟨hbc, hcb⟩
  exact hincomp.1 hac

end WeakOrder

namespace StableQueue

variable {T : Type*}

/-! ## The earliest minimal item -/

section Extract

variable [LT T]

/-- `x` is minimal, and the items before it are not equivalent to it: none of them would be
taken instead. -/
structure IsNext (before : List T) (x : T) (after : List T) : Prop where
  before : ∀ y ∈ before, x < y
  after : ∀ y ∈ after, ¬ y < x

/-- The item that is taken, and the rest. -/
def extract [DecidableLT T] : List T → Option (T × List T)
  | [] => none
  | x :: held =>
    match extract held with
    | none => some (x, [])
    | some (y, rest) => if y < x then some (y, x :: rest) else some (x, held)

variable [DecidableLT T] {held before after : List T} {x : T}

theorem extract_eq_none : extract held = none ↔ held = [] := by
  cases held with
  | nil => simp [extract]
  | cons x held =>
    rw [extract]
    split
    · simp
    · split <;> simp

theorem mem_of_extract {rest : List T} (h : extract held = some (x, rest)) : x ∈ held := by
  induction held generalizing x rest with
  | nil => cases h
  | cons y held ih =>
    rw [extract] at h
    split at h
    · obtain ⟨rfl, -⟩ := Prod.mk.inj (Option.some.inj h)
      exact List.mem_cons_self ..
    · rename_i z rest' hsome
      split at h
      · obtain ⟨rfl, -⟩ := Prod.mk.inj (Option.some.inj h)
        exact List.mem_cons_of_mem _ (ih hsome)
      · obtain ⟨rfl, -⟩ := Prod.mk.inj (Option.some.inj h)
        exact List.mem_cons_self ..

/-- The earliest minimal item is taken, wherever it is.  Induction on the items before it. -/
theorem IsNext.extract (h : IsNext before x after) :
    extract (before ++ x :: after) = some (x, before ++ after) := by
  obtain ⟨hbefore, hafter⟩ := h
  induction before with
  | nil =>
    rw [List.nil_append, StableQueue.extract]
    split
    · rename_i hnone
      rw [extract_eq_none.mp hnone]
      rfl
    · rename_i y rest hsome
      rw [if_neg (hafter y (mem_of_extract hsome))]
      rfl
  | cons y before ih =>
    rw [List.cons_append, StableQueue.extract,
      ih fun z hz => hbefore z (List.mem_cons_of_mem _ hz)]
    dsimp only
    rw [if_pos (hbefore y (List.mem_cons_self ..))]
    rfl

/-- What is taken is determined by the items that are held. -/
theorem IsNext.unique {before' after' : List T} {x' : T} (h : IsNext before x after)
    (h' : IsNext before' x' after') (heq : before ++ x :: after = before' ++ x' :: after') :
    x = x' ∧ before ++ after = before' ++ after' := by
  have hextract := h.extract
  rw [heq, h'.extract] at hextract
  obtain ⟨rfl, hrest⟩ := Prod.mk.inj (Option.some.inj hextract)
  exact ⟨rfl, hrest.symm⟩

omit [DecidableLT T] in
/-- A queue with items has an earliest minimal one. -/
theorem exists_isNext [IsStrictWeakOrder T (· < ·)] (h : held ≠ []) :
    ∃ before x after, held = before ++ x :: after ∧ IsNext before x after := by
  induction held with
  | nil => exact absurd rfl h
  | cons y held ih =>
    rcases eq_or_ne held [] with rfl | hne
    · exact ⟨[], y, [], rfl, fun z hz => absurd hz List.not_mem_nil,
        fun z hz => absurd hz List.not_mem_nil⟩
    obtain ⟨before, x, after, rfl, hbefore, hafter⟩ := ih hne
    by_cases hlt : x < y
    · refine ⟨y :: before, x, after, rfl, ?_, hafter⟩
      intro z hz
      rcases List.mem_cons.mp hz with rfl | hz
      · exact hlt
      · exact hbefore z hz
    · -- the first item is not greater than the one that was taken without it
      refine ⟨[], y, before ++ x :: after, rfl, fun z hz => absurd hz List.not_mem_nil, ?_⟩
      intro z hz
      rcases List.mem_append.mp hz with hz | hz
      · exact WeakOrder.not_lt_trans (WeakOrder.lt_asymm (hbefore z hz)) hlt
      · rcases List.mem_cons.mp hz with rfl | hz
        · exact hlt
        · exact WeakOrder.not_lt_trans (hafter z hz) hlt

end Extract

/-! ## Sequences of operations -/

/-- What is done to a queue. -/
inductive Op (T : Type*) where
  | insert (value : T)
  | extract
  | clear
  deriving DecidableEq, Repr

/-- How many items a sequence inserts. -/
def inserts : List (Op T) → ℕ
  | [] => 0
  | .insert _ :: ops => inserts ops + 1
  | _ :: ops => inserts ops

/-- Nothing is taken from an empty queue, when so many items are held at first. -/
def NeverEmpty : ℕ → List (Op T) → Prop
  | _, [] => True
  | held, .insert _ :: ops => NeverEmpty (held + 1) ops
  | held, .extract :: ops => 0 < held ∧ NeverEmpty (held - 1) ops
  | _, .clear :: ops => NeverEmpty 0 ops

instance instDecidableNeverEmpty : ∀ (held : ℕ) (ops : List (Op T)),
    Decidable (NeverEmpty held ops)
  | _, [] => isTrue trivial
  | held, .insert _ :: ops => instDecidableNeverEmpty (held + 1) ops
  | held, .extract :: ops =>
    have := instDecidableNeverEmpty (held - 1) ops
    inferInstanceAs (Decidable (_ ∧ _))
  | _, .clear :: ops => instDecidableNeverEmpty 0 ops

/-- A stable queue that holds some items, in the order in which they were inserted, gives up
the items `taken` and holds the items `left` in the end. -/
inductive Stable [LT T] : List T → List (Op T) → List T → List T → Prop
  | nil (held : List T) : Stable held [] [] held
  | insert {held : List T} {ops : List (Op T)} {taken left : List T} (x : T)
      (h : Stable (held ++ [x]) ops taken left) : Stable held (.insert x :: ops) taken left
  | extract {before after : List T} {x : T} {ops : List (Op T)} {taken left : List T}
      (hnext : IsNext before x after) (h : Stable (before ++ after) ops taken left) :
      Stable (before ++ x :: after) (.extract :: ops) (x :: taken) left
  | clear {held : List T} {ops : List (Op T)} {taken left : List T} (h : Stable [] ops taken left) :
      Stable held (.clear :: ops) taken left

variable [LT T] {held : List T} {ops : List (Op T)} {taken taken' left left' : List T}

/-- A queue that is never asked for more than it holds goes through all operations. -/
theorem exists_stable [IsStrictWeakOrder T (· < ·)] (h : NeverEmpty held.length ops) :
    ∃ taken left, Stable held ops taken left := by
  induction ops generalizing held with
  | nil => exact ⟨[], held, .nil held⟩
  | cons op ops ih =>
    cases op with
    | insert x =>
      have hops : NeverEmpty (held ++ [x]).length ops := by
        rw [List.length_append]
        exact h
      obtain ⟨taken, left, hstable⟩ := ih hops
      exact ⟨taken, left, .insert x hstable⟩
    | extract =>
      obtain ⟨hpos, h⟩ := h
      obtain ⟨before, x, after, rfl, hnext⟩ := exists_isNext (List.ne_nil_of_length_pos hpos)
      have hlength : (before ++ x :: after).length - 1 = (before ++ after).length := by
        simp only [List.length_append, List.length_cons]
        omega
      have hops : NeverEmpty (before ++ after).length ops := by
        rw [← hlength]
        exact h
      obtain ⟨taken, left, hstable⟩ := ih hops
      exact ⟨x :: taken, left, .extract hnext hstable⟩
    | clear =>
      have hops : NeverEmpty ([] : List T).length ops := h
      obtain ⟨taken, left, hstable⟩ := ih hops
      exact ⟨taken, left, .clear hstable⟩

/-- **The items that are taken are a function of the operations.**  Induction on the
operations. -/
theorem Stable.unique [DecidableLT T] (h : Stable held ops taken left)
    (h' : Stable held ops taken' left') : taken = taken' ∧ left = left' := by
  induction h generalizing taken' left' with
  | nil held =>
    cases h'
    exact ⟨rfl, rfl⟩
  | insert x _ ih =>
    cases h' with
    | insert _ h' => exact ih h'
  | @extract before after x ops taken left hnext _ ih =>
    generalize hheld : before ++ x :: after = held at h'
    cases h' with
    | extract hnext' h' =>
      obtain ⟨rfl, hrest⟩ := hnext.unique hnext' hheld
      rw [← hrest] at h'
      obtain ⟨rfl, rfl⟩ := ih h'
      exact ⟨rfl, rfl⟩
  | clear _ ih =>
    cases h' with
    | clear h' => exact ih h'

end StableQueue
