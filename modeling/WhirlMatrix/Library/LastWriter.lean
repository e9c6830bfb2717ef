/-
# Last writer wins, and majorities

A register keeps the value with the largest stamp of those that were offered to it.  The
stamps are the elements of a linear order, and a value carries its stamp.

* `offer` : a register takes a value exactly when its stamp is larger;
* `rank_offer` : so the stamp of a register is a maximum, whatever the order of the offers;
* `rank_eq_of_offered` : registers to which the same values were offered have the same stamp;
* `exists_common` : two majorities of the same peers have a peer in common.
-/
import Mathlib.Data.Fintype.Card
import Mathlib.Order.WithBot

namespace LastWriter

/-! ## Registers -/

section

variable {α τ : Type*} [LinearOrder τ] (stamp : α → τ)

/-- The stamp of what a register holds. -/
def rank (register : Option α) : WithBot τ :=
  match register with
  | none => ⊥
  | some a => (stamp a : τ)

/-- A value is offered to a register. -/
def offer (register : Option α) (a : α) : Option α :=
  match register with
  | none => some a
  | some b => if stamp b < stamp a then some a else some b

/-- The first of the values with the largest stamp. -/
def freshest (values : List α) : Option α := values.foldl (offer stamp) none

variable {stamp} {register register' : Option α} {a : α} {values : List α}

omit [LinearOrder τ] in
@[simp] theorem rank_none : rank stamp none = ⊥ := rfl

omit [LinearOrder τ] in
theorem rank_some_inj {b : α} : rank stamp (some a) = rank stamp (some b) ↔ stamp a = stamp b :=
  WithBot.coe_inj

theorem rank_some_le {b : α} : rank stamp (some a) ≤ rank stamp (some b) ↔ stamp a ≤ stamp b :=
  WithBot.coe_le_coe

theorem rank_some_lt {b : α} : rank stamp (some a) < rank stamp (some b) ↔ stamp a < stamp b :=
  WithBot.coe_lt_coe

theorem rank_none_lt (a : α) : rank stamp none < rank stamp (some a) := WithBot.bot_lt_coe _

/-- An empty register is older than any value. -/
theorem not_rank_some_le_none (a : α) : ¬ rank stamp (some a) ≤ rank stamp none :=
  not_le.mpr (rank_none_lt a)

variable (stamp) in
/-- An offer is taken or not. -/
theorem offer_eq_or (register : Option α) (a : α) :
    offer stamp register a = register ∨ offer stamp register a = some a := by
  cases register with
  | none => exact Or.inr rfl
  | some b =>
    by_cases hlt : stamp b < stamp a
    · exact Or.inr (if_pos hlt)
    · exact Or.inl (if_neg hlt)

theorem rank_offer (register : Option α) (a : α) :
    rank stamp (offer stamp register a) = max (rank stamp register) (rank stamp (some a)) := by
  cases register with
  | none => exact (max_eq_right bot_le).symm
  | some b =>
    rw [offer]
    by_cases hlt : stamp b < stamp a
    · rw [if_pos hlt, max_eq_right (rank_some_le.mpr hlt.le)]
    · rw [if_neg hlt, max_eq_left (rank_some_le.mpr (not_lt.mp hlt))]

theorem rank_le_offer (register : Option α) (a : α) :
    rank stamp register ≤ rank stamp (offer stamp register a) := by
  rw [rank_offer]
  exact le_max_left _ _

/-- What a register holds after some offers was held at first or offered. -/
theorem mem_of_foldl_offer (h : values.foldl (offer stamp) register = some a) :
    register = some a ∨ a ∈ values := by
  induction values generalizing register with
  | nil => exact Or.inl h
  | cons b values ih =>
    rcases ih h with hb | hmem
    · rcases offer_eq_or stamp register b with heq | heq
      · rw [heq] at hb
        exact Or.inl hb
      · rw [heq] at hb
        exact Or.inr (List.mem_cons.mpr (Or.inl (Option.some.inj hb).symm))
    · exact Or.inr (List.mem_cons_of_mem b hmem)

theorem rank_le_foldl_offer (register : Option α) (values : List α) :
    rank stamp register ≤ rank stamp (values.foldl (offer stamp) register) := by
  induction values generalizing register with
  | nil => exact le_refl _
  | cons b values ih => exact (rank_le_offer register b).trans (ih _)

/-- No value that was offered has a larger stamp. -/
theorem rank_some_le_foldl_offer (register : Option α) (h : a ∈ values) :
    rank stamp (some a) ≤ rank stamp (values.foldl (offer stamp) register) := by
  induction values generalizing register with
  | nil => exact absurd h List.not_mem_nil
  | cons b values ih =>
    rcases List.mem_cons.mp h with rfl | h
    · have hoffer : rank stamp (some a) ≤ rank stamp (offer stamp register a) := by
        rw [rank_offer]
        exact le_max_right _ _
      exact hoffer.trans (rank_le_foldl_offer _ values)
    · exact ih _ h

/-- No value is fresher than the freshest one. -/
theorem rank_some_le_freshest (h : a ∈ values) :
    rank stamp (some a) ≤ rank stamp (freshest stamp values) :=
  rank_some_le_foldl_offer none h

theorem mem_of_freshest (h : freshest stamp values = some a) : a ∈ values := by
  rcases mem_of_foldl_offer h with hnone | hmem
  · cases hnone
  · exact hmem

/-- **The freshest value** is one of the values, and none of them is fresher. -/
theorem exists_freshest (h : values ≠ []) : ∃ a ∈ values, freshest stamp values = some a ∧
    ∀ b ∈ values, stamp b ≤ stamp a := by
  cases hfreshest : freshest stamp values with
  | none =>
    obtain ⟨b, hb⟩ := List.exists_mem_of_ne_nil _ h
    have hle : rank stamp (some b) ≤ rank stamp (freshest stamp values) := rank_some_le_freshest hb
    rw [hfreshest] at hle
    exact absurd hle (not_rank_some_le_none b)
  | some a =>
    refine ⟨a, mem_of_freshest hfreshest, rfl, fun b hb => ?_⟩
    have hle : rank stamp (some b) ≤ rank stamp (freshest stamp values) := rank_some_le_freshest hb
    rw [hfreshest] at hle
    exact rank_some_le.mp hle

/-- Registers that hold some of the values, and to which all of them were offered. -/
theorem rank_eq_of_offered (hmem : ∀ a ∈ register, a ∈ values)
    (hall : ∀ a ∈ values, rank stamp (some a) ≤ rank stamp register)
    (hmem' : ∀ a ∈ register', a ∈ values)
    (hall' : ∀ a ∈ values, rank stamp (some a) ≤ rank stamp register') :
    rank stamp register = rank stamp register' := by
  have hle : ∀ {r r' : Option α}, (∀ a ∈ r, a ∈ values) →
      (∀ a ∈ values, rank stamp (some a) ≤ rank stamp r') → rank stamp r ≤ rank stamp r' := by
    intro r r' hr hr'
    cases r with
    | none => exact bot_le
    | some a => exact hr' a (hr a rfl)
  exact le_antisymm (hle hmem hall') (hle hmem' hall)

/-- They hold the same when no two of the values have the same stamp. -/
theorem eq_of_rank_eq (hinj : ∀ a ∈ values, ∀ b ∈ values, stamp a = stamp b → a = b)
    (hmem : ∀ a ∈ register, a ∈ values) (hmem' : ∀ a ∈ register', a ∈ values)
    (h : rank stamp register = rank stamp register') : register = register' := by
  cases register with
  | none =>
    cases register' with
    | none => rfl
    | some b => exact absurd h (rank_none_lt b).ne
  | some a =>
    cases register' with
    | none => exact absurd h (rank_none_lt a).ne'
    | some b => exact congrArg some (hinj a (hmem a rfl) b (hmem' b rfl) (rank_some_inj.mp h))

end

/-! ## Majorities -/

/-- **Two majorities have a peer in common.** -/
theorem exists_common {P : Type*} [Fintype P] {peers peers' : List P} (hpeers : peers.Nodup)
    (hpeers' : peers'.Nodup) (hlength : Fintype.card P < peers.length + peers'.length) :
    ∃ peer, peer ∈ peers ∧ peer ∈ peers' := by
  classical
  have hcard : (Finset.univ : Finset P).card < peers.toFinset.card + peers'.toFinset.card := by
    rw [Finset.card_univ, List.toFinset_card_of_nodup hpeers, List.toFinset_card_of_nodup hpeers']
    exact hlength
  obtain ⟨peer, hpeer⟩ := Finset.inter_nonempty_of_card_lt_card_add_card
    (Finset.subset_univ _) (Finset.subset_univ _) hcard
  rw [Finset.mem_inter, List.mem_toFinset, List.mem_toFinset] at hpeer
  exact ⟨peer, hpeer⟩

end LastWriter
