/-
# Draws without replacement

In turn `i` a number `j ≥ i` below the length of a list is drawn, and entry `j` changes
places with entry `i`.  The entries before `i` are never touched again, so after a few turns
the list consists of the entries that were dealt, in their order, and of those that are left.
Sequences of draws correspond one to one to ordered selections without repetition, and for a
full loop to permutations.
-/
import Mathlib.Data.List.Nodup
import Mathlib.Data.List.Perm.Basic
import Mathlib.Data.Set.Function

namespace Draws

variable {α : Type*}

/-! ## Sequences of draws -/

/-- The draws of the turns from `i` on, for a list of `n` entries. -/
def IsDraws (n i : ℕ) (js : List ℕ) : Prop :=
  ∀ t j, js[t]? = some j → i + t ≤ j ∧ j < n

/-- The sequences of draws of the first turns. -/
def draws (n turns : ℕ) : Set (List ℕ) := {js | js.length = turns ∧ IsDraws n 0 js}

variable {n i : ℕ}

theorem isDraws_nil : IsDraws n i [] := by
  intro t j h
  cases h

theorem isDraws_cons {j : ℕ} {js : List ℕ} :
    IsDraws n i (j :: js) ↔ (i ≤ j ∧ j < n) ∧ IsDraws n (i + 1) js := by
  constructor
  · intro h
    refine ⟨h 0 j rfl, fun t j' hj' => ?_⟩
    have hnext := h (t + 1) j' hj'
    omega
  · rintro ⟨hj, h⟩ t j' hj'
    cases t with
    | zero =>
      obtain rfl := Option.some.inj hj'
      exact hj
    | succ t =>
      have hnext := h t j' hj'
      omega

/-! ## One turn -/

/-- Exchanges two entries of a list. -/
def swap (items : List α) (i j : ℕ) : Option (List α) :=
  match items[i]?, items[j]? with
  | some a, some b => some ((items.set i b).set j a)
  | _, _ => none

/-- Takes out the entry at an offset; the first entry goes to its place. -/
def pick : List α → ℕ → Option (α × List α)
  | [], _ => none
  | a :: rest, 0 => some (a, rest)
  | a :: rest, d + 1 => (rest[d]?).map fun b => (b, rest.set d a)

/-- Exchanging the first entry that is left with another one deals the latter. -/
theorem swap_append (done rest : List α) (d : ℕ) :
    swap (done ++ rest) done.length (done.length + d)
      = (pick rest d).map fun p => done ++ p.1 :: p.2 := by
  have hright : ∀ (rest : List α) (d : ℕ), (done ++ rest)[done.length + d]? = rest[d]? := by
    intro rest d
    rw [List.getElem?_append_right (Nat.le_add_right _ _), Nat.add_sub_cancel_left]
  have hset : ∀ (rest : List α) (d : ℕ) (a : α),
      (done ++ rest).set (done.length + d) a = done ++ rest.set d a := by
    intro rest d a
    rw [List.set_append_right _ _ (Nat.le_add_right _ _), Nat.add_sub_cancel_left]
  have hfirst := hright rest 0
  rw [Nat.add_zero] at hfirst
  rw [swap, hfirst, hright]
  cases rest with
  | nil => rfl
  | cons a rest =>
    have hset' := hset (a :: rest) 0
    rw [Nat.add_zero] at hset'
    cases d with
    | zero =>
      show some _ = some _
      rw [hset', hset]
      rfl
    | succ d =>
      rw [List.getElem?_cons_succ, pick]
      cases hb : rest[d]? with
      | none => rfl
      | some b =>
        show some _ = some _
        rw [hset', hset]
        rfl

theorem exists_pick {rest : List α} {d : ℕ} (hd : d < rest.length) :
    ∃ b rest', pick rest d = some (b, rest') ∧ rest[d]? = some b := by
  cases rest with
  | nil => cases hd
  | cons a rest =>
    cases d with
    | zero => exact ⟨a, rest, rfl, rfl⟩
    | succ d =>
      have hd : d < rest.length := Nat.lt_of_succ_lt_succ hd
      have hget : rest[d]? = some rest[d] := List.getElem?_eq_getElem hd
      refine ⟨rest[d], rest.set d a, ?_, hget⟩
      rw [pick, hget]
      rfl

/-- No entry is lost or repeated. -/
theorem pick_perm {rest rest' : List α} {d : ℕ} {b : α} (h : pick rest d = some (b, rest')) :
    (b :: rest').Perm rest := by
  cases rest with
  | nil => cases h
  | cons a rest =>
    cases d with
    | zero =>
      obtain ⟨rfl, rfl⟩ := Prod.mk.inj (Option.some.inj h)
      exact List.Perm.refl _
    | succ d =>
      obtain ⟨b, hb, h⟩ := Option.map_eq_some_iff.mp h
      obtain ⟨rfl, rfl⟩ := Prod.mk.inj h
      obtain ⟨hd, rfl⟩ := List.getElem?_eq_some_iff.mp hb
      have hset : (rest.set d a).Perm (a :: rest.eraseIdx d) := List.set_perm_cons_eraseIdx hd a
      have herase : (rest[d] :: rest.eraseIdx d).Perm rest := List.getElem_cons_eraseIdx_perm hd
      calc (rest[d] :: rest.set d a).Perm (rest[d] :: a :: rest.eraseIdx d) := hset.cons _
        _ |>.Perm (a :: rest[d] :: rest.eraseIdx d) := List.Perm.swap ..
        _ |>.Perm (a :: rest) := herase.cons a

/-! ## All turns -/

/-- What the draws of the turns from `i` on deal, in order, and what is left.  A draw that is
out of range ends the game. -/
def deal : ℕ → List α → List ℕ → List α × List α
  | _, rest, [] => ([], rest)
  | i, rest, j :: js =>
    match pick rest (j - i) with
    | none => ([], rest)
    | some (b, rest') => (b :: (deal (i + 1) rest' js).1, (deal (i + 1) rest' js).2)

theorem deal_cons {rest rest' : List α} {j : ℕ} {b : α} (h : pick rest (j - i) = some (b, rest'))
    (js : List ℕ) : deal i rest (j :: js)
      = (b :: (deal (i + 1) rest' js).1, (deal (i + 1) rest' js).2) := by
  rw [deal, h]

/-- **Nothing is lost or repeated.** -/
theorem deal_perm (i : ℕ) (rest : List α) (js : List ℕ) :
    ((deal i rest js).1 ++ (deal i rest js).2).Perm rest := by
  induction js generalizing i rest with
  | nil => exact List.Perm.refl _
  | cons j js ih =>
    rw [deal]
    split
    · exact List.Perm.refl _
    · rename_i b rest' hpick
      exact ((ih (i + 1) rest').cons b).trans (pick_perm hpick)

/-- A draw in range deals an entry and leaves one entry less. -/
theorem exists_pick_of_isDraws {rest : List α} {j : ℕ} {js : List ℕ}
    (hdraws : IsDraws (i + rest.length) i (j :: js)) :
    ∃ b rest', pick rest (j - i) = some (b, rest') ∧ rest[j - i]? = some b ∧
      IsDraws (i + 1 + rest'.length) (i + 1) js := by
  obtain ⟨hj, hjs⟩ := isDraws_cons.mp hdraws
  have hlt : j - i < rest.length := by omega
  obtain ⟨b, rest', hpick, hget⟩ := exists_pick hlt
  refine ⟨b, rest', hpick, hget, ?_⟩
  have hlength := (pick_perm hpick).length_eq
  rw [List.length_cons] at hlength
  rwa [show i + 1 + rest'.length = i + rest.length by omega]

theorem length_deal {rest : List α} {js : List ℕ} (hdraws : IsDraws (i + rest.length) i js) :
    (deal i rest js).1.length = js.length := by
  induction js generalizing i rest with
  | nil => rfl
  | cons j js ih =>
    obtain ⟨b, rest', hpick, -, hjs⟩ := exists_pick_of_isDraws hdraws
    rw [deal_cons hpick, List.length_cons, List.length_cons, ih hjs]

/-- **Draws that deal the same entries are the same.**  Distinct entries have one place each,
so the first entry gives the first draw, and the rest is dealt from the same list. -/
theorem deal_inj {rest : List α} (hrest : rest.Nodup) {js js' : List ℕ}
    (hdraws : IsDraws (i + rest.length) i js) (hdraws' : IsDraws (i + rest.length) i js')
    (h : (deal i rest js).1 = (deal i rest js').1) : js = js' := by
  have hlength : js.length = js'.length := by
    rw [← length_deal hdraws, ← length_deal hdraws', h]
  induction js generalizing i rest js' with
  | nil => exact (List.length_eq_zero_iff.mp hlength.symm).symm
  | cons j js ih =>
    obtain _ | ⟨j', js'⟩ := js'
    · cases hlength
    obtain ⟨b, left, hpick, hget, hjs⟩ := exists_pick_of_isDraws hdraws
    obtain ⟨b', left', hpick', hget', hjs'⟩ := exists_pick_of_isDraws hdraws'
    rw [deal_cons hpick, deal_cons hpick'] at h
    obtain ⟨rfl, htail⟩ := List.cons.inj h
    have hlt : j - i < rest.length := (List.getElem?_eq_some_iff.mp hget).1
    have hoffset : j - i = j' - i :=
      (List.getElem?_inj hlt hrest).mp (hget.trans hget'.symm)
    have hj := (isDraws_cons.mp hdraws).1
    have hj' := (isDraws_cons.mp hdraws').1
    obtain rfl : j = j' := by omega
    obtain ⟨-, rfl⟩ := Prod.mk.inj (Option.some.inj (hpick.symm.trans hpick'))
    have hleft : left.Nodup := (List.nodup_cons.mp ((pick_perm hpick).nodup_iff.mpr hrest)).2
    rw [ih hleft hjs hjs' htail (Nat.succ.inj hlength)]

/-- **Every selection can be drawn.** -/
theorem exists_deal {rest sel : List α} (hsel : sel.Nodup) (hmem : ∀ a ∈ sel, a ∈ rest) :
    ∃ js, js.length = sel.length ∧ IsDraws (i + rest.length) i js ∧ (deal i rest js).1 = sel := by
  induction sel generalizing i rest with
  | nil => exact ⟨[], rfl, isDraws_nil, rfl⟩
  | cons b sel ih =>
    obtain ⟨hb, hsel⟩ := List.nodup_cons.mp hsel
    obtain ⟨d, hd, hget⟩ := List.mem_iff_getElem.mp (hmem b (List.mem_cons_self ..))
    obtain ⟨b', left, hpick, hget'⟩ := exists_pick hd
    obtain rfl : b = b' := by
      rw [List.getElem?_eq_getElem hd, hget] at hget'
      exact Option.some.inj hget'
    have hperm := pick_perm hpick
    have hlength := hperm.length_eq
    rw [List.length_cons] at hlength
    obtain ⟨js, hjs, hdraws, hdeal⟩ := ih (i := i + 1) hsel fun a ha => by
      have hab := hperm.mem_iff.mpr (hmem a (List.mem_cons_of_mem _ ha))
      rcases List.mem_cons.mp hab with rfl | ha'
      · exact absurd ha hb
      · exact ha'
    refine ⟨(i + d) :: js, ?_, ?_, ?_⟩
    · rw [List.length_cons, List.length_cons, hjs]
    · rw [isDraws_cons]
      refine ⟨by omega, ?_⟩
      rwa [show i + rest.length = i + 1 + left.length by omega]
    · rw [deal_cons (by rwa [Nat.add_sub_cancel_left]), hdeal]

/-! ## Selections and permutations -/

/-- **Ordered selections.**  The draws of `k` turns correspond one to one to the lists of `k`
distinct entries. -/
theorem bijOn_deal {items : List α} (hitems : items.Nodup) (k : ℕ) :
    Set.BijOn (fun js => (deal 0 items js).1) (draws items.length k)
      {sel | sel.length = k ∧ sel.Nodup ∧ ∀ a ∈ sel, a ∈ items} := by
  have hrange : ∀ {js}, IsDraws items.length 0 js → IsDraws (0 + items.length) 0 js := by
    intro js h
    rwa [Nat.zero_add]
  refine ⟨?_, ?_, ?_⟩
  · rintro js ⟨hlength, hdraws⟩
    have hperm := deal_perm 0 items js
    refine ⟨(length_deal (hrange hdraws)).trans hlength, ?_, ?_⟩
    · exact (List.nodup_append.mp (hperm.nodup_iff.mpr hitems)).1
    · exact fun a ha => hperm.mem_iff.mp (List.mem_append_left _ ha)
  · rintro js ⟨-, hdraws⟩ js' ⟨-, hdraws'⟩ h
    exact deal_inj hitems (hrange hdraws) (hrange hdraws') h
  · rintro sel ⟨hlength, hsel, hmem⟩
    obtain ⟨js, hjs, hdraws, hdeal⟩ := exists_deal (i := 0) hsel hmem
    rw [Nat.zero_add] at hdraws
    exact ⟨js, ⟨hjs.trans hlength, hdraws⟩, hdeal⟩

/-- **Permutations.**  The draws of all turns but the last, in which there is no choice,
correspond one to one to the permutations. -/
theorem bijOn_shuffle {items : List α} (hitems : items.Nodup) :
    Set.BijOn (fun js => (deal 0 items js).1 ++ (deal 0 items js).2)
      (draws items.length (items.length - 1)) {sel | sel.Perm items} := by
  obtain ⟨hmaps, hinj, hsurj⟩ := bijOn_deal hitems (items.length - 1)
  refine ⟨?_, ?_, ?_⟩
  · exact fun js _ => deal_perm 0 items js
  · intro js hjs js' hjs' h
    apply hinj hjs hjs'
    have hlength := (hmaps hjs).1.trans (hmaps hjs').1.symm
    exact (List.append_inj h hlength).1
  · intro sel hsel
    -- all entries but the last are dealt
    have hlength := hsel.length_eq
    have hprefix : sel.take (items.length - 1)
        ∈ {sel | sel.length = items.length - 1 ∧ sel.Nodup ∧ ∀ a ∈ sel, a ∈ items} := by
      refine ⟨?_, ?_, ?_⟩
      · rw [List.length_take, hlength]
        omega
      · exact (hsel.nodup_iff.mpr hitems).sublist (List.take_sublist ..)
      · exact fun a ha => hsel.mem_iff.mp (List.mem_of_mem_take ha)
    obtain ⟨js, hjs, hdeal⟩ := hsurj hprefix
    refine ⟨js, hjs, ?_⟩
    have hdeal : (deal 0 items js).1 = sel.take (items.length - 1) := hdeal
    have hperm := (deal_perm 0 items js).trans hsel.symm
    rw [hdeal] at hperm
    have hlast : ((deal 0 items js).2).Perm (sel.drop (items.length - 1)) := by
      apply (List.perm_append_left_iff _).mp
      rwa [List.take_append_drop]
    have hshort : (sel.drop (items.length - 1)).length ≤ 1 := by
      rw [List.length_drop, hlength]
      omega
    show (deal 0 items js).1 ++ (deal 0 items js).2 = sel
    rw [hdeal]
    nth_rewrite 2 [← List.take_append_drop (items.length - 1) sel]
    congr 1
    match hrest : sel.drop (items.length - 1), hlast, hshort with
    | [], hlast, _ => exact List.perm_nil.mp hlast
    | [a], hlast, _ => exact List.perm_singleton.mp hlast

end Draws
