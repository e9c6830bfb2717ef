/-
# Random selection

`RandomSource` (`world/random_source.hpp`), the numbers that are drawn from it
(`world/global/service.cpp`) and `GlobalRandomSelect` (`world/global/random.hpp`).  The
engine is a stream of 32-bit numbers of which nothing else is known.  `Shuffle` and
`GenerateSplit` (`fault/net`) have the same loop, so it has the source as a parameter.
-/
import WhirlMatrix.Library.Draws
import WhirlMatrix.Time
import Mathlib.Algebra.Group.Int.Defs

namespace Whirl

/-! ## The source -/

/-- `RandomSource`: the numbers that its engine will return, and the count of those that it
has returned. -/
structure RandomSource where
  impl : ℕ → UInt32
  steps : ℕ := 0

/-- `Next`. -/
def RandomSource.next (source : RandomSource) : ℕ × RandomSource :=
  ((source.impl 0).toNat, { impl := fun t => source.impl (t + 1), steps := source.steps + 1 })

/-- `GlobalRandomNumber()`. -/
def globalRandomNumber (source : RandomSource) : ℕ × RandomSource := source.next

/-- `GlobalRandomNumber(bound)`. -/
def globalRandomNumberBelow (bound : ℕ) (source : RandomSource) : Outcome (ℕ × RandomSource) := do
  verify (0 < bound) "bound = 0"
  let (number, source) := globalRandomNumber source
  return (number % bound, source)

/-- `GlobalRandomNumber(lo, hi)`. -/
def globalRandomNumberBetween (lo hi : ℕ) (source : RandomSource) :
    Outcome (ℕ × RandomSource) := do
  verify (lo ≤ hi) "Invalid range"
  let (number, source) ← globalRandomNumberBelow (hi - lo) source
  return (lo + number, source)

theorem globalRandomNumberBetween_eq {lo hi : ℕ} (hlt : lo < hi) (source : RandomSource) :
    globalRandomNumberBetween lo hi source
      = .ok (lo + (source.impl 0).toNat % (hi - lo), source.next.2) := by
  have hle : lo ≤ hi := Nat.le_of_lt hlt
  have hpos : 0 < hi - lo := by omega
  rw [globalRandomNumberBetween, globalRandomNumberBelow, verify, verify,
    if_pos (decide_eq_true hle), if_pos (decide_eq_true hpos)]
  rfl

/-! ## The loop of swaps -/

variable {σ β α : Type}

/-- From turn `i` on: a number `j` is drawn, given `i` and the size of the vector, entries `i`
and `j` are exchanged and the new entry `i` is taken. -/
def swapLoop (draw : ℕ → ℕ → σ → Outcome (ℕ × σ)) (take : β → α → β) :
    ℕ → ℕ → List α → β → σ → Outcome (List α × β × σ)
  | 0, _, items, taken, source => .ok (items, taken, source)
  | turns + 1, i, items, taken, source => do
    let (j, source) ← draw i items.length source
    match Draws.swap items i j with
    | none => .error .undefined
    | some items =>
      match items[i]? with
      | none => .error .undefined
      | some item => swapLoop draw take turns (i + 1) items (take taken item) source

/-- The numbers that are drawn from turn `i` on, for a vector of size `n`. -/
inductive Drawn (draw : ℕ → ℕ → σ → Outcome (ℕ × σ)) (n : ℕ) : ℕ → σ → List ℕ → σ → Prop
  | nil {i : ℕ} {source : σ} : Drawn draw n i source [] source
  | cons {i j : ℕ} {js : List ℕ} {source next source' : σ} (hdraw : draw i n source = .ok (j, next))
      (hrest : Drawn draw n (i + 1) next js source') : Drawn draw n i source (j :: js) source'

/-- Every turn draws one of the entries that are left. -/
def InRange (draw : ℕ → ℕ → σ → Outcome (ℕ × σ)) (n : ℕ) : Prop :=
  ∀ i source, i < n → ∃ j source', draw i n source = .ok (j, source') ∧ i ≤ j ∧ j < n

variable {draw : ℕ → ℕ → σ → Outcome (ℕ × σ)} {n i : ℕ}

theorem InRange.exists_drawn (hrange : InRange draw n) {turns : ℕ} (hturns : i + turns ≤ n)
    (source : σ) : ∃ js source', js.length = turns ∧ Draws.IsDraws n i js ∧
      Drawn draw n i source js source' := by
  induction turns generalizing i source with
  | zero => exact ⟨[], source, rfl, Draws.isDraws_nil, .nil⟩
  | succ turns ih =>
    obtain ⟨j, next, hdraw, hj⟩ := hrange i source (by omega)
    obtain ⟨js, source', hlength, hdraws, hrest⟩ := ih (i := i + 1) (by omega) next
    refine ⟨j :: js, source', ?_, ?_, .cons hdraw hrest⟩
    · rw [List.length_cons, hlength]
    · exact Draws.isDraws_cons.mpr ⟨hj, hdraws⟩

/-- **The loop deals what the draws say.**  Induction on the draws: the entries before `i`
are done. -/
theorem swapLoop_eq {take : β → α → β} {done rest : List α} {js : List ℕ} {source source' : σ}
    (hdrawn : Drawn draw (done.length + rest.length) done.length source js source')
    (hdraws : Draws.IsDraws (done.length + rest.length) done.length js) (taken : β) :
    swapLoop draw take js.length done.length (done ++ rest) taken source
      = .ok (done ++ (Draws.deal done.length rest js).1 ++ (Draws.deal done.length rest js).2,
          (Draws.deal done.length rest js).1.foldl take taken, source') := by
  induction js generalizing done rest source taken with
  | nil =>
    cases hdrawn
    rw [Draws.deal, List.append_nil]
    rfl
  | cons j js ih =>
    obtain _ | @⟨_, _, _, _, next, _, hdraw, hrest⟩ := hdrawn
    obtain ⟨b, left, hpick, -, hjs⟩ := Draws.exists_pick_of_isDraws hdraws
    have hj := (Draws.isDraws_cons.mp hdraws).1
    have hlength := (Draws.pick_perm hpick).length_eq
    rw [List.length_cons] at hlength
    have hswap : Draws.swap (done ++ rest) done.length j = some ((done ++ [b]) ++ left) := by
      have happend := Draws.swap_append done rest (j - done.length)
      rw [Nat.add_sub_cancel' hj.1, hpick] at happend
      rw [happend, List.append_assoc]
      rfl
    have hget : ((done ++ [b]) ++ left)[done.length]? = some b := by
      rw [List.append_assoc, List.getElem?_append_right (Nat.le_refl _), Nat.sub_self]
      rfl
    have hdone : (done ++ [b]).length = done.length + 1 := by
      rw [List.length_append, List.length_singleton]
    have hsize : (done ++ [b]).length + left.length = done.length + rest.length := by omega
    have hdrawn' : Drawn draw ((done ++ [b]).length + left.length) (done ++ [b]).length next js
        source' := by
      rwa [hsize, hdone]
    have hdraws' : Draws.IsDraws ((done ++ [b]).length + left.length) (done ++ [b]).length js := by
      rwa [hdone]
    have hstep := ih hdrawn' hdraws' (take taken b)
    rw [hdone] at hstep
    rw [Draws.deal_cons hpick, List.length_cons, swapLoop, List.length_append, hdraw,
      Outcome.ok_bind]
    dsimp only
    rw [hswap]
    dsimp only
    rw [hget]
    dsimp only
    rw [hstep, List.append_assoc done [b], List.singleton_append, List.foldl_cons]

/-- The loop over a whole vector. -/
theorem swapLoop_zero {take : β → α → β} {items : List α} {js : List ℕ} {source source' : σ}
    (hdrawn : Drawn draw items.length 0 source js source')
    (hdraws : Draws.IsDraws items.length 0 js) (taken : β) :
    swapLoop draw take js.length 0 items taken source
      = .ok ((Draws.deal 0 items js).1 ++ (Draws.deal 0 items js).2,
          (Draws.deal 0 items js).1.foldl take taken, source') := by
  have hdrawn' : Drawn draw (([] : List α).length + items.length) ([] : List α).length source js
      source' := by
    rwa [List.length_nil, Nat.zero_add]
  have hdraws' : Draws.IsDraws (([] : List α).length + items.length) ([] : List α).length js := by
    rwa [List.length_nil, Nat.zero_add]
  exact swapLoop_eq hdrawn' hdraws' taken

/-- The results of a function correspond one to one to the numbers that it draws. -/
structure Corresponds {ρ : Type} (draw : ℕ → ℕ → σ → Outcome (ℕ × σ)) (n turns : ℕ)
    (run : σ → Outcome (ρ × σ)) (result : List ℕ → ρ) (results : Set ρ) : Prop where
  exists_drawn : ∀ source, ∃ js ∈ Draws.draws n turns, ∃ source', Drawn draw n 0 source js source'
  run_eq : ∀ js ∈ Draws.draws n turns, ∀ source source', Drawn draw n 0 source js source' →
    run source = .ok (result js, source')
  bijOn : Set.BijOn result (Draws.draws n turns) results

/-! ## `GlobalRandomSelect` -/

/-- The index that a number stands for when it is stored in an `int`. -/
def intIndex (number : ℕ) : ℕ := (Int.bmod number (2 ^ 32) % 2 ^ 64).toNat

theorem intIndex_of_lt {number : ℕ} (h : number < 2 ^ 31) : intIndex number = number := by
  have hmod : Int.bmod number 4294967296 = number := by
    apply Int.bmod_eq_of_le
    · omega
    · omega
  show (Int.bmod number 4294967296 % 2 ^ 64).toNat = number
  rw [hmod]
  omega

/-- `int j = GlobalRandomNumber(i, items.size())`. -/
def selectDraw (i size : ℕ) (source : RandomSource) : Outcome (ℕ × RandomSource) := do
  let (number, source) ← globalRandomNumberBetween i size source
  return (intIndex number, source)

/-- `GlobalRandomSelect`. -/
def globalRandomSelect (items : List α) (k : ℕ) (source : RandomSource) :
    Outcome (List α × RandomSource) := do
  verify (k ≤ items.length) "K > items.size()"
  let (_, selected, source) ←
    swapLoop selectDraw (fun selected item => selected ++ [item]) k 0 items [] source
  return (selected, source)

theorem selectDraw_eq (hi : i < n) (hn : n < 2 ^ 31) (source : RandomSource) :
    selectDraw i n source = .ok (i + (source.impl 0).toNat % (n - i), source.next.2) := by
  have hmod : (source.impl 0).toNat % (n - i) < n - i := Nat.mod_lt _ (by omega)
  rw [selectDraw, globalRandomNumberBetween_eq hi, Outcome.ok_bind]
  dsimp only
  rw [intIndex_of_lt (by omega)]
  rfl

theorem inRange_selectDraw (hn : n < 2 ^ 31) : InRange selectDraw n := by
  intro i source hi
  have hmod : (source.impl 0).toNat % (n - i) < n - i := Nat.mod_lt _ (by omega)
  exact ⟨_, _, selectDraw_eq hi hn source, by omega, by omega⟩

theorem foldl_append_singleton (dealt selected : List α) :
    dealt.foldl (fun selected item => selected ++ [item]) selected = selected ++ dealt := by
  induction dealt generalizing selected with
  | nil => rw [List.foldl_nil, List.append_nil]
  | cons item dealt ih => rw [List.foldl_cons, ih, List.append_assoc, List.singleton_append]

theorem corresponds_globalRandomSelect {items : List α} (hitems : items.Nodup)
    (hn : items.length < 2 ^ 31) {k : ℕ} (hk : k ≤ items.length) :
    Corresponds selectDraw items.length k (globalRandomSelect items k)
      (fun js => (Draws.deal 0 items js).1)
      {sel | sel.length = k ∧ sel.Nodup ∧ ∀ a ∈ sel, a ∈ items} := by
  constructor
  · intro source
    have hturns : 0 + k ≤ items.length := by omega
    obtain ⟨js, source', hlength, hdraws, hdrawn⟩ :=
      (inRange_selectDraw hn).exists_drawn hturns source
    exact ⟨js, ⟨hlength, hdraws⟩, source', hdrawn⟩
  · rintro js ⟨rfl, hdraws⟩ source source' hdrawn
    rw [globalRandomSelect, verify, if_pos (decide_eq_true hk), Outcome.ok_bind,
      swapLoop_zero hdrawn hdraws, Outcome.ok_bind, foldl_append_singleton, List.nil_append]
    rfl
  · exact Draws.bijOn_deal hitems k

/-- An engine can return any draws. -/
theorem exists_drawn_selectDraw (hn : n < 2 ^ 31) {js : List ℕ} (hdraws : Draws.IsDraws n i js)
    {source : RandomSource}
    (himpl : ∀ t j, js[t]? = some j → source.impl t = UInt32.ofNat (j - (i + t))) :
    ∃ source', Drawn selectDraw n i source js source' := by
  induction js generalizing i source with
  | nil => exact ⟨source, .nil⟩
  | cons j js ih =>
    obtain ⟨hj, hjs⟩ := Draws.isDraws_cons.mp hdraws
    have hdraw := selectDraw_eq (Nat.lt_of_le_of_lt hj.1 hj.2) hn source
    rw [himpl 0 j rfl, Nat.add_zero, UInt32.toNat_ofNat_of_lt' (by
      have hsize : UInt32.size = 2 ^ 32 := rfl
      omega), Nat.mod_eq_of_lt (by omega), Nat.add_sub_cancel' hj.1] at hdraw
    have hnext : ∀ t j', js[t]? = some j' →
        source.next.2.impl t = UInt32.ofNat (j' - (i + 1 + t)) := by
      intro t j' hj'
      have himpl' := himpl (t + 1) j' hj'
      rwa [show i + (t + 1) = i + 1 + t by omega] at himpl'
    obtain ⟨source', hrest⟩ := ih hjs hnext
    exact ⟨source', .cons hdraw hrest⟩

end Whirl
