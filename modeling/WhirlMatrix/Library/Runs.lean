/-
# Runs of a machine that may fail

A machine is a function `step : S → A → Except E S` that executes an action in a
state or fails.  `Reaches step allowed s s'` says that `s'` is reached from `s` by
actions each of which is `allowed` in the state in which it is executed.  The
induction over a run is packaged here once, as a rule for invariants.
-/
import Mathlib.Logic.Relation
import Mathlib.Data.List.Basic
import Mathlib.Algebra.Group.Nat.Defs

namespace Runs

variable {S A E : Type*}

/-- One successful step with an allowed action. -/
def Next (step : S → A → Except E S) (allowed : S → A → Prop) (s s' : S) : Prop :=
  ∃ a, allowed s a ∧ step s a = .ok s'

/-- Finitely many steps. -/
def Reaches (step : S → A → Except E S) (allowed : S → A → Prop) : S → S → Prop :=
  Relation.ReflTransGen (Next step allowed)

variable {step : S → A → Except E S} {allowed allowed' : S → A → Prop} {s s' s'' : S}

theorem Reaches.refl : Reaches step allowed s s := Relation.ReflTransGen.refl

/-- A run is extended by one step at its end. -/
theorem Reaches.tail (h : Reaches step allowed s s') (a : A) (ha : allowed s' a)
    (hs : step s' a = .ok s'') : Reaches step allowed s s'' :=
  Relation.ReflTransGen.tail h ⟨a, ha, hs⟩

theorem Reaches.trans (h : Reaches step allowed s s') (h' : Reaches step allowed s' s'') :
    Reaches step allowed s s'' :=
  Relation.ReflTransGen.trans h h'

/-- A run with allowed actions is a run when more actions are allowed. -/
theorem Reaches.mono (hle : ∀ s a, allowed s a → allowed' s a) (h : Reaches step allowed s s') :
    Reaches step allowed' s s' := by
  induction h with
  | refl => exact Reaches.refl
  | tail _ hnext ih =>
    obtain ⟨a, ha, hs⟩ := hnext
    exact ih.tail a (hle _ a ha) hs

/-- **The invariant rule.**  What holds at first and is kept by every allowed step
holds in every state of a run. -/
theorem Reaches.invariant {I : S → Prop} (h : Reaches step allowed s s') (hinit : I s)
    (hstep : ∀ s a s', I s → allowed s a → step s a = .ok s' → I s') : I s' := by
  induction h with
  | refl => exact hinit
  | tail _ hnext ih =>
    obtain ⟨a, ha, hs⟩ := hnext
    exact hstep _ a _ ih ha hs

/-! ## Counted runs -/

/-- A run of a given number of steps. -/
inductive ReachesIn (step : S → A → Except E S) (allowed : S → A → Prop) : ℕ → S → S → Prop
  | refl (s : S) : ReachesIn step allowed 0 s s
  | tail {n : ℕ} {s s' s'' : S} (h : ReachesIn step allowed n s s')
      (hnext : Next step allowed s' s'') : ReachesIn step allowed (n + 1) s s''

/-- Every run has some number of steps. -/
theorem reaches_iff_exists_reachesIn :
    Reaches step allowed s s' ↔ ∃ n, ReachesIn step allowed n s s' := by
  constructor
  · intro h
    induction h with
    | refl => exact ⟨0, ReachesIn.refl s⟩
    | tail _ hnext ih =>
      obtain ⟨n, hn⟩ := ih
      exact ⟨n + 1, hn.tail hnext⟩
  · rintro ⟨n, hn⟩
    induction hn with
    | refl s => exact Reaches.refl
    | tail _ hnext ih => exact Relation.ReflTransGen.tail ih hnext

/-- A counter that every step raises by at most one is bounded by the number of steps. -/
theorem ReachesIn.counter_le {f : S → ℕ} {n : ℕ} (h : ReachesIn step allowed n s s')
    (hstep : ∀ s a s', allowed s a → step s a = .ok s' → f s' ≤ f s + 1) : f s' ≤ f s + n := by
  induction h with
  | refl s => exact Nat.le_refl _
  | tail _ hnext ih =>
    obtain ⟨a, ha, hs⟩ := hnext
    have hle := hstep _ a _ ha hs
    omega

/-- **The counter rule.**  Such a counter does not wrap around at `2 ^ width` in runs that
are short enough. -/
theorem ReachesIn.counter_mod {f : S → ℕ} {n width : ℕ} (h : ReachesIn step allowed n s s')
    (hstep : ∀ s a s', allowed s a → step s a = .ok s' → f s' ≤ f s + 1)
    (hfew : f s + n < 2 ^ width) : f s' % 2 ^ width = f s' :=
  Nat.mod_eq_of_lt (Nat.lt_of_le_of_lt (h.counter_le hstep) hfew)

/-! ## Runs of given actions -/

/-- Executes actions one after another, as long as each is allowed. -/
def exec (step : S → A → Except E S) (allowed : S → A → Prop) [∀ s a, Decidable (allowed s a)] :
    S → List A → Option S
  | s, [] => some s
  | s, a :: as =>
    if allowed s a then
      match step s a with
      | .ok s' => exec step allowed s' as
      | .error _ => none
    else
      none

theorem reaches_of_exec [∀ s a, Decidable (allowed s a)] {as : List A}
    (h : exec step allowed s as = some s') : Reaches step allowed s s' := by
  induction as generalizing s with
  | nil =>
    obtain rfl := Option.some.inj h
    exact Reaches.refl
  | cons a as ih =>
    rw [exec] at h
    split at h
    · rename_i ha
      split at h
      · rename_i t ht
        exact Reaches.trans (Reaches.refl.tail a ha ht) (ih h)
      · exact absurd h (by simp)
    · exact absurd h (by simp)

/-- The invariant rule for a loop over a list whose body may fail. -/
theorem foldlM_invariant {B : Type*} {f : S → B → Except E S} {I : S → Prop} {l : List B}
    (h : l.foldlM f s = .ok s') (hinit : I s)
    (hbody : ∀ s b s', b ∈ l → I s → f s b = .ok s' → I s') : I s' := by
  induction l generalizing s with
  | nil =>
    obtain rfl : s = s' := Except.ok.inj h
    exact hinit
  | cons b l ih =>
    rw [List.foldlM_cons] at h
    cases hb : f s b with
    | error e =>
      rw [hb] at h
      exact absurd h (by simp [bind, Except.bind])
    | ok t =>
      rw [hb] at h
      have ht : I t := hbody s b t (List.mem_cons_self ..) hinit hb
      exact ih h ht fun s b' s' hb' => hbody s b' s' (List.mem_cons_of_mem _ hb')

/-- Two nested loops are one loop over all that the inner one visits. -/
theorem foldlM_flatMap {B C : Type*} (f : S → C → Except E S) (g : B → List C) (l : List B) (s : S) :
    (l.flatMap g).foldlM f s = l.foldlM (fun s b => (g b).foldlM f s) s := by
  induction l generalizing s with
  | nil => rfl
  | cons b l ih =>
    rw [List.flatMap_cons, List.foldlM_append, List.foldlM_cons]
    exact congrArg _ (funext ih)

/-- What one turn of a loop establishes and every turn keeps holds after the loop. -/
theorem foldl_establishes {B : Type*} {f : S → B → S} {I P : S → Prop} {l : List B} {b : B}
    (hb : b ∈ l) (hinit : I s) (hI : ∀ s b, I s → I (f s b)) (hset : ∀ s, I s → P (f s b))
    (hkeep : ∀ s b, I s → P s → P (f s b)) : P (l.foldl f s) := by
  have hkeeps : ∀ (l : List B) (s : S), I s → P s → P (l.foldl f s) := by
    intro l
    induction l with
    | nil => exact fun s _ hP => hP
    | cons b l ih => exact fun s hs hP => ih (f s b) (hI s b hs) (hkeep s b hs hP)
  induction l generalizing s with
  | nil => exact absurd hb List.not_mem_nil
  | cons b' l ih =>
    rcases List.mem_cons.mp hb with rfl | hb
    · exact hkeeps l (f s b) (hI s b hinit) (hset s hinit)
    · exact ih hb (hI s b' hinit)

/-- The results of a loop over a list whose body may fail. -/
theorem getElem?_mapM {B C : Type*} {f : B → Except E C} {l : List B} {l' : List C}
    (h : l.mapM f = .ok l') (i : ℕ) :
    match l[i]? with
    | none => l'[i]? = none
    | some b => ∃ c, l'[i]? = some c ∧ f b = .ok c := by
  induction l generalizing l' i with
  | nil =>
    obtain rfl : [] = l' := Except.ok.inj h
    simp
  | cons b l ih =>
    rw [List.mapM_cons] at h
    cases hb : f b with
    | error e =>
      rw [hb] at h
      exact absurd h (by simp [bind, Except.bind])
    | ok c =>
      rw [hb] at h
      cases hl : l.mapM f with
      | error e =>
        rw [hl] at h
        exact absurd h (by simp [bind, Except.bind])
      | ok cs =>
        rw [hl] at h
        obtain rfl : c :: cs = l' := Except.ok.inj h
        cases i with
        | zero => simpa using hb
        | succ i => simpa using ih hl i

end Runs
