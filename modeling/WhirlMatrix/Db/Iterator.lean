/-
# Iterators over snapshots

`Iterator` of `matrix/db`: a flag and a position in the sorted entries of a snapshot.  A
position is the number of entries before it, and the one after the last entry is the end.
`Move` only delays operations, and is left out.

An iterator that is valid divides the entries into those before its position, the one at
it, and those after it.  Every operation is described by what it does to this division.
-/
import WhirlMatrix.Library.Cursor
import WhirlMatrix.Db.Isolation
import Mathlib.Data.List.TakeWhile

namespace Whirl.Db

variable {Key Value : Type} [Ord Key] [Std.TransOrd Key]

/-- `Iterator`. -/
structure Iterator (Key Value : Type) [Ord Key] [Std.TransOrd Key] where
  snapshot : Snapshot Key Value
  valid : Bool := false
  /-- It points nowhere before the first seek. -/
  it : Option ℕ := none

namespace Iterator

/-! ## Operations -/

/-- `entries_`, in their order. -/
def entries (iter : Iterator Key Value) : List (Key × Value) := iter.snapshot.entries.toList

/-- `EnsureValid`. -/
def ensureValid (iter : Iterator Key Value) : Outcome Unit := verify iter.valid "Invalid iterator"

/-- `*it_`; undefined at the end. -/
def deref (iter : Iterator Key Value) : Outcome (Key × Value) :=
  match iter.it.bind fun position => iter.entries[position]? with
  | none => .error .undefined
  | some entry => .ok entry

/-- `Key`. -/
def key (iter : Iterator Key Value) : Outcome Key := do
  iter.ensureValid
  let entry ← iter.deref
  return entry.1

/-- `Value`. -/
def value (iter : Iterator Key Value) : Outcome Value := do
  iter.ensureValid
  let entry ← iter.deref
  return entry.2

/-- `SeekToFirst`. -/
def seekToFirst (iter : Iterator Key Value) : Iterator Key Value :=
  if iter.snapshot.entries.isEmpty then
    { iter with valid := false }
  else
    { iter with valid := true, it := some 0 }

/-- `SeekToLast`. -/
def seekToLast (iter : Iterator Key Value) : Iterator Key Value :=
  if iter.snapshot.entries.isEmpty then
    { iter with valid := false }
  else
    { iter with valid := true, it := some (iter.entries.length - 1) }

/-- `lower_bound`: the first entry that is not before the target. -/
def lowerBound (iter : Iterator Key Value) (target : Key) : ℕ :=
  (iter.entries.takeWhile fun entry => compare entry.1 target == .lt).length

/-- `Seek`. -/
def seek (iter : Iterator Key Value) (target : Key) : Iterator Key Value :=
  let position := iter.lowerBound target
  if position ≠ iter.entries.length then
    { iter with valid := true, it := some position }
  else
    { iter with valid := false, it := some position }

/-- `Next`; the increment is undefined at the end. -/
def next (iter : Iterator Key Value) : Outcome (Iterator Key Value) := do
  iter.ensureValid
  match iter.it with
  | none => .error .undefined
  | some position =>
    if position ≥ iter.entries.length then
      .error .undefined
    else if position + 1 ≠ iter.entries.length then
      return { iter with it := some (position + 1) }
    else
      return { iter with valid := false, it := some (position + 1) }

/-- `Prev`. -/
def prev (iter : Iterator Key Value) : Outcome (Iterator Key Value) := do
  iter.ensureValid
  match iter.it with
  | none => .error .undefined
  | some position =>
    if position ≠ 0 then
      return { iter with it := some (position - 1) }
    else
      return { iter with valid := false }

/-- What a turn of the loop of `PrintSnapshot` prints. -/
def read (iter : Iterator Key Value) : Outcome (Key × Value) := do
  let key ← iter.key
  let value ← iter.value
  return (key, value)

/-- The loop of `PrintSnapshot`, with `Next` or with `Prev`. -/
def scan (move : Iterator Key Value → Outcome (Iterator Key Value)) (tests : ℕ)
    (iter : Iterator Key Value) : Outcome (List (Key × Value) × Iterator Key Value) :=
  Cursor.scan .diverges valid read move tests iter []

end Iterator

/-- `MakeIterator`. -/
def Snapshot.makeIterator (snapshot : Snapshot Key Value) : Iterator Key Value :=
  Iterator.seekToFirst { snapshot := snapshot }

namespace Iterator

variable {iter iter' : Iterator Key Value} {before after : List (Key × Value)}
  {entry entry' : Key × Value}

/-! ## What a valid iterator points at -/

/-- The iterator points at an entry, and divides the others. -/
structure IsAt (iter : Iterator Key Value) (before : List (Key × Value)) (entry : Key × Value)
    (after : List (Key × Value)) : Prop where
  valid : iter.valid = true
  it : iter.it = some before.length
  entries : iter.entries = before ++ entry :: after

/-- There is one iterator for each place. -/
theorem IsAt.eq (h : iter.IsAt before entry after) (h' : iter'.IsAt before entry after)
    (hsnapshot : iter.snapshot = iter'.snapshot) : iter = iter' := by
  obtain ⟨snapshot, valid, it⟩ := iter
  obtain ⟨snapshot', valid', it'⟩ := iter'
  obtain rfl : snapshot = snapshot' := hsnapshot
  obtain rfl : valid = valid' := h.valid.trans h'.valid.symm
  obtain rfl : it = it' := h.it.trans h'.it.symm
  rfl

theorem ensureValid_of_valid (h : iter.valid = true) : iter.ensureValid = .ok () := by
  rw [ensureValid, h]
  rfl

/-- The entry at the position is the one in the middle. -/
theorem IsAt.deref (h : iter.IsAt before entry after) : iter.deref = .ok entry := by
  have hget : (before ++ entry :: after)[before.length]? = some entry := by
    rw [List.getElem?_append_right (Nat.le_refl _), Nat.sub_self]
    rfl
  rw [Iterator.deref, h.it, h.entries, Option.bind_some, hget]

theorem IsAt.key (h : iter.IsAt before entry after) : iter.key = .ok entry.1 := by
  rw [Iterator.key, ensureValid_of_valid h.valid, h.deref]
  rfl

theorem IsAt.value (h : iter.IsAt before entry after) : iter.value = .ok entry.2 := by
  rw [Iterator.value, ensureValid_of_valid h.valid, h.deref]
  rfl

theorem IsAt.read (h : iter.IsAt before entry after) : iter.read = .ok entry := by
  rw [Iterator.read, h.key, h.value]
  rfl

/-- An iterator that is invalid points at nothing. -/
theorem key_of_not_valid (h : iter.valid = false) :
    iter.key = .error (.panic "Invalid iterator") := by
  rw [Iterator.key, ensureValid, h]
  rfl

/-! ## What the moves do -/

theorem IsAt.next_cons (h : iter.IsAt before entry (entry' :: after)) :
    ∃ iter', iter.next = .ok iter' ∧ iter'.snapshot = iter.snapshot ∧
      iter'.IsAt (before ++ [entry]) entry' after := by
  have hlength : iter.entries.length = before.length + 1 + (after.length + 1) := by
    rw [h.entries, List.length_append, List.length_cons, List.length_cons]
    omega
  refine ⟨{ iter with it := some (before.length + 1) }, ?_, rfl, h.valid, ?_, ?_⟩
  · rw [next, ensureValid_of_valid h.valid, h.it, hlength, Outcome.ok_bind]
    dsimp only
    rw [if_neg (by omega), if_pos (by omega)]
    rfl
  · rw [List.length_append]
    rfl
  · show iter.entries = _
    rw [h.entries, List.append_assoc]
    rfl

theorem IsAt.next_nil (h : iter.IsAt before entry []) :
    ∃ iter', iter.next = .ok iter' ∧ iter'.snapshot = iter.snapshot ∧ iter'.valid = false := by
  have hlength : iter.entries.length = before.length + 1 := by
    rw [h.entries, List.length_append]
    rfl
  refine ⟨{ iter with valid := false, it := some (before.length + 1) }, ?_, rfl, rfl⟩
  rw [next, ensureValid_of_valid h.valid, h.it, hlength, Outcome.ok_bind]
  dsimp only
  rw [if_neg (by omega), if_neg (by omega)]
  rfl

theorem IsAt.prev_concat (h : iter.IsAt (before ++ [entry']) entry after) :
    ∃ iter', iter.prev = .ok iter' ∧ iter'.snapshot = iter.snapshot ∧
      iter'.IsAt before entry' (entry :: after) := by
  have hposition : (before ++ [entry']).length = before.length + 1 := List.length_append
  refine ⟨{ iter with it := some before.length }, ?_, rfl, h.valid, rfl, ?_⟩
  · rw [prev, ensureValid_of_valid h.valid, h.it, hposition, Outcome.ok_bind]
    rfl
  · show iter.entries = _
    rw [h.entries, List.append_assoc]
    rfl

theorem IsAt.prev_nil (h : iter.IsAt [] entry after) :
    ∃ iter', iter.prev = .ok iter' ∧ iter'.snapshot = iter.snapshot ∧ iter'.valid = false := by
  refine ⟨{ iter with valid := false }, ?_, rfl, rfl⟩
  rw [prev, ensureValid_of_valid h.valid, h.it]
  rfl

/-! ## What the seeks do -/

@[simp] theorem snapshot_seekToFirst (iter : Iterator Key Value) :
    iter.seekToFirst.snapshot = iter.snapshot := by
  unfold seekToFirst
  split <;> rfl

@[simp] theorem snapshot_seekToLast (iter : Iterator Key Value) :
    iter.seekToLast.snapshot = iter.snapshot := by
  unfold seekToLast
  split <;> rfl

@[simp] theorem snapshot_seek (iter : Iterator Key Value) (target : Key) :
    (iter.seek target).snapshot = iter.snapshot := by
  unfold seek
  dsimp only
  split <;> rfl

theorem isEmpty_entries_iff : iter.snapshot.entries.isEmpty = true ↔ iter.entries = [] := by
  rw [Std.ExtTreeMap.isEmpty_iff, entries, Std.ExtTreeMap.toList_eq_nil_iff]

theorem seekToFirst_of_nil (h : iter.entries = []) :
    iter.seekToFirst = { iter with valid := false } :=
  if_pos (isEmpty_entries_iff.mpr h)

theorem seekToLast_of_nil (h : iter.entries = []) :
    iter.seekToLast = { iter with valid := false } :=
  if_pos (isEmpty_entries_iff.mpr h)

theorem isAt_seekToFirst (h : iter.entries = entry :: after) :
    iter.seekToFirst.IsAt [] entry after := by
  have hne : ¬ iter.snapshot.entries.isEmpty = true := by
    rw [isEmpty_entries_iff, h]
    exact List.cons_ne_nil entry after
  rw [seekToFirst, if_neg hne]
  exact ⟨rfl, rfl, h⟩

theorem isAt_seekToLast (h : iter.entries = before ++ [entry]) :
    iter.seekToLast.IsAt before entry [] := by
  have hne : ¬ iter.snapshot.entries.isEmpty = true := by
    rw [isEmpty_entries_iff, h]
    exact List.append_ne_nil_of_right_ne_nil before (List.cons_ne_nil entry [])
  have hlength : iter.entries.length - 1 = before.length := by
    rw [h, List.length_append]
    rfl
  rw [seekToLast, if_neg hne, hlength]
  exact ⟨rfl, rfl, h⟩

/-- The first entry that is not before the target, if there is one, divides the entries. -/
theorem seek_cases (iter : Iterator Key Value) (target : Key) :
    (∃ before entry after, (iter.seek target).IsAt before entry after ∧
        (∀ entry' ∈ before, compare entry'.1 target = .lt) ∧
          (compare entry.1 target).isGE = true) ∨
      (iter.seek target).valid = false ∧ ∀ entry ∈ iter.entries, compare entry.1 target = .lt := by
  let isBefore : Key × Value → Bool := fun entry => compare entry.1 target == .lt
  have hsplit : iter.entries.takeWhile isBefore ++ iter.entries.dropWhile isBefore = iter.entries :=
    List.takeWhile_append_dropWhile
  have hbefore : ∀ entry ∈ iter.entries.takeWhile isBefore, compare entry.1 target = .lt := by
    intro entry hentry
    have hlt : isBefore entry = true := List.mem_takeWhile_imp hentry
    exact eq_of_beq hlt
  have hfirst := List.head?_dropWhile_not isBefore iter.entries
  cases hafter : iter.entries.dropWhile isBefore with
  | nil =>
    right
    rw [hafter, List.append_nil] at hsplit
    have hposition : iter.lowerBound target = iter.entries.length :=
      congrArg List.length hsplit
    refine ⟨?_, fun entry hentry => hbefore entry (hsplit.symm ▸ hentry)⟩
    rw [seek, if_neg (not_not_intro hposition)]
  | cons entry after =>
    left
    rw [hafter] at hsplit hfirst
    have hlength : iter.entries.length
        = (iter.entries.takeWhile isBefore).length + (after.length + 1) := by
      rw [← congrArg List.length hsplit, List.length_append]
      rfl
    have hposition : iter.lowerBound target ≠ iter.entries.length := by
      show (iter.entries.takeWhile isBefore).length ≠ _
      omega
    refine ⟨_, entry, after, ?_, hbefore, ?_⟩
    · rw [seek, if_pos hposition]
      exact ⟨rfl, rfl, hsplit.symm⟩
    · have hnot : isBefore entry = false := by simpa using hfirst
      exact Ordering.isGE_iff_ne_lt.mpr (ne_of_beq_false hnot)

/-! ## What is promised -/

/-- All entries of a snapshot, each once, in ascending order of their keys. -/
structure Lists (snapshot : Snapshot Key Value) (entries : List (Key × Value)) : Prop where
  ascending : entries.Pairwise fun entry entry' => compare entry.1 entry'.1 = .lt
  tryGet : ∀ key value, snapshot.tryGet key = some value ↔
    ∃ key', compare key key' = .eq ∧ (key', value) ∈ entries

/-- The entry with the least key that is not less than the target. -/
structure IsLowerBound (entries : List (Key × Value)) (target : Key) (entry : Key × Value) :
    Prop where
  mem : entry ∈ entries
  ge : (compare entry.1 target).isGE = true
  le : ∀ entry' ∈ entries, (compare entry'.1 target).isGE = true →
    (compare entry.1 entry'.1).isLE = true

/-- An iterator is a cursor over the sorted entries of a snapshot. -/
structure IsCursor (iter : Iterator Key Value) (snapshot : Snapshot Key Value)
    (entries : List (Key × Value)) : Prop where
  valid_iff : iter.valid = true ↔ ∃ key value, iter.key = .ok key ∧ iter.value = .ok value
  tryGet : ∀ key value, iter.key = .ok key → iter.value = .ok value →
    snapshot.tryGet key = some value
  forward : ∃ tests iter', iter.seekToFirst.scan next tests = .ok (entries, iter') ∧
    iter'.valid = false
  backward : ∃ tests iter', iter.seekToLast.scan prev tests = .ok (entries.reverse, iter') ∧
    iter'.valid = false
  seek : ∀ target, (∃ entry, (iter.seek target).valid = true ∧
      (iter.seek target).read = .ok entry ∧ IsLowerBound entries target entry) ∨
    (iter.seek target).valid = false ∧ ∀ entry ∈ entries, compare entry.1 target = .lt
  /-- `Next` and `Prev` return. -/
  moves : iter.valid = true → (∃ iter', iter.next = .ok iter') ∧ ∃ iter', iter.prev = .ok iter'
  next_prev : ∀ iter', iter.next = .ok iter' → iter'.valid = true → iter'.prev = .ok iter
  prev_next : ∀ iter', iter.prev = .ok iter' → iter'.valid = true → iter'.next = .ok iter

/-! ## Every iterator is a cursor -/

theorem lists_entries (iter : Iterator Key Value) : Lists iter.snapshot iter.entries where
  ascending := Std.ExtTreeMap.ordered_keys_toList
  tryGet _ _ := Std.ExtTreeMap.getElem?_eq_some_iff_exists_compare_eq_eq_and_mem_toList

/-- What the iterator points at is found in the snapshot. -/
theorem IsAt.tryGet (h : iter.IsAt before entry after) :
    iter.snapshot.tryGet entry.1 = some entry.2 := by
  have hmem : entry ∈ iter.entries := by
    rw [h.entries]
    simp
  exact ((lists_entries iter).tryGet entry.1 entry.2).mpr ⟨entry.1, Std.ReflCmp.compare_self, hmem⟩

/-- What `Next` has before it: the entries from the position on. -/
inductive Ahead (iter : Iterator Key Value) : List (Key × Value) → Prop
  | off (h : iter.valid = false) : Ahead iter []
  | on {before after : List (Key × Value)} {entry : Key × Value}
      (h : iter.IsAt before entry after) : Ahead iter (entry :: after)

/-- What `Prev` has before it. -/
inductive Behind (iter : Iterator Key Value) : List (Key × Value) → Prop
  | off (h : iter.valid = false) : Behind iter []
  | on {before after : List (Key × Value)} {entry : Key × Value}
      (h : iter.IsAt before entry after) : Behind iter (entry :: before.reverse)

theorem visits_next : Cursor.Visits (S := Iterator Key Value) valid read next Ahead where
  done iter h := by
    cases h with
    | off h => exact h
  valid iter entry left h := by
    cases h with
    | on h => exact h.valid
  read iter entry left h := by
    cases h with
    | on h => exact h.read
  move iter entry left h := by
    cases h with
    | on h =>
      cases left with
      | nil =>
        obtain ⟨iter', hnext, -, hvalid⟩ := h.next_nil
        exact ⟨iter', hnext, Ahead.off hvalid⟩
      | cons entry' left =>
        obtain ⟨iter', hnext, -, hat⟩ := h.next_cons
        exact ⟨iter', hnext, Ahead.on hat⟩

theorem visits_prev : Cursor.Visits (S := Iterator Key Value) valid read prev Behind where
  done iter h := by
    cases h with
    | off h => exact h
  valid iter entry left h := by
    cases h with
    | on h => exact h.valid
  read iter entry left h := by
    cases h with
    | on h => exact h.read
  move iter entry left h := by
    cases h with
    | @on before after _ h =>
      rcases List.eq_nil_or_concat' before with rfl | ⟨before, entry', rfl⟩
      · obtain ⟨iter', hprev, -, hvalid⟩ := h.prev_nil
        exact ⟨iter', hprev, Behind.off hvalid⟩
      · obtain ⟨iter', hprev, -, hat⟩ := h.prev_concat
        rw [List.reverse_append]
        exact ⟨iter', hprev, Behind.on hat⟩

/-- Where an iterator can be: it is invalid, or it points at an entry. -/
def Placed (iter : Iterator Key Value) : Prop :=
  iter.valid = true → ∃ before entry after, iter.IsAt before entry after

theorem placed_of_not_valid (h : iter.valid = false) : iter.Placed := by
  intro hvalid
  rw [h] at hvalid
  cases hvalid

theorem IsAt.placed (h : iter.IsAt before entry after) : iter.Placed :=
  fun _ => ⟨before, entry, after, h⟩

theorem Placed.valid_iff (h : iter.Placed) :
    iter.valid = true ↔ ∃ key value, iter.key = .ok key ∧ iter.value = .ok value := by
  constructor
  · intro hvalid
    obtain ⟨before, entry, after, hat⟩ := h hvalid
    exact ⟨entry.1, entry.2, hat.key, hat.value⟩
  · rintro ⟨key, value, hkey, -⟩
    by_contra hvalid
    rw [key_of_not_valid (Bool.not_eq_true _ ▸ hvalid)] at hkey
    cases hkey

/-- From the first entry on, `Next` visits all of them. -/
theorem ahead_seekToFirst (iter : Iterator Key Value) : iter.seekToFirst.Ahead iter.entries := by
  cases hentries : iter.entries with
  | nil =>
    rw [seekToFirst_of_nil hentries]
    exact Ahead.off rfl
  | cons entry after => exact Ahead.on (isAt_seekToFirst hentries)

/-- From the last entry on, `Prev` visits all of them. -/
theorem behind_seekToLast (iter : Iterator Key Value) :
    iter.seekToLast.Behind iter.entries.reverse := by
  rcases List.eq_nil_or_concat' iter.entries with hentries | ⟨before, entry, hentries⟩
  · rw [seekToLast_of_nil hentries, hentries]
    exact Behind.off rfl
  · rw [hentries, List.reverse_append]
    exact Behind.on (isAt_seekToLast hentries)

/-- The entry at which a seek stops is the least that it may stop at. -/
theorem IsAt.isLowerBound (h : iter.IsAt before entry after) {target : Key}
    (hbefore : ∀ entry' ∈ before, compare entry'.1 target = .lt)
    (hge : (compare entry.1 target).isGE = true) : IsLowerBound iter.entries target entry := by
  refine ⟨?_, hge, ?_⟩
  · rw [h.entries]
    simp
  · intro entry' hentry' hge'
    have hascending := (lists_entries iter).ascending
    rw [h.entries] at hentry' hascending
    rcases List.mem_append.mp hentry' with hentry' | hentry'
    · rw [hbefore entry' hentry'] at hge'
      cases hge'
    · rcases List.mem_cons.mp hentry' with rfl | hentry'
      · exact Std.ReflCmp.isLE_rfl
      · have hlt := (List.pairwise_cons.mp (List.pairwise_append.mp hascending).2.1).1 entry' hentry'
        exact Ordering.isLE_of_eq_lt hlt

/-- A step forward that stays within the entries is undone by a step back. -/
theorem IsAt.prev_of_next (h : iter.IsAt before entry after) (hnext : iter.next = .ok iter')
    (hvalid : iter'.valid = true) : iter'.prev = .ok iter := by
  cases after with
  | nil =>
    obtain ⟨there, hnext', -, hinvalid⟩ := h.next_nil
    obtain rfl := Except.ok.inj (hnext.symm.trans hnext')
    rw [hinvalid] at hvalid
    cases hvalid
  | cons entry' after =>
    obtain ⟨there, hnext', hsnapshot, hat⟩ := h.next_cons
    obtain rfl := Except.ok.inj (hnext.symm.trans hnext')
    obtain ⟨back, hprev, hsnapshot', hat'⟩ := hat.prev_concat
    rw [hprev, hat'.eq h (hsnapshot'.trans hsnapshot)]

theorem IsAt.next_of_prev (h : iter.IsAt before entry after) (hprev : iter.prev = .ok iter')
    (hvalid : iter'.valid = true) : iter'.next = .ok iter := by
  rcases List.eq_nil_or_concat' before with rfl | ⟨before, entry', rfl⟩
  · obtain ⟨there, hprev', -, hinvalid⟩ := h.prev_nil
    obtain rfl := Except.ok.inj (hprev.symm.trans hprev')
    rw [hinvalid] at hvalid
    cases hvalid
  · obtain ⟨there, hprev', hsnapshot, hat⟩ := h.prev_concat
    obtain rfl := Except.ok.inj (hprev.symm.trans hprev')
    obtain ⟨back, hnext, hsnapshot', hat'⟩ := hat.next_cons
    rw [hnext, hat'.eq h (hsnapshot'.trans hsnapshot)]

/-- A move can be made while the iterator is valid, and leads to a place again. -/
theorem IsAt.exists_next (h : iter.IsAt before entry after) :
    ∃ iter', iter.next = .ok iter' ∧ iter'.snapshot = iter.snapshot ∧ iter'.Placed := by
  cases after with
  | nil =>
    obtain ⟨iter', hnext, hsnapshot, hinvalid⟩ := h.next_nil
    exact ⟨iter', hnext, hsnapshot, placed_of_not_valid hinvalid⟩
  | cons entry' after =>
    obtain ⟨iter', hnext, hsnapshot, hat⟩ := h.next_cons
    exact ⟨iter', hnext, hsnapshot, hat.placed⟩

theorem IsAt.exists_prev (h : iter.IsAt before entry after) :
    ∃ iter', iter.prev = .ok iter' ∧ iter'.snapshot = iter.snapshot ∧ iter'.Placed := by
  rcases List.eq_nil_or_concat' before with rfl | ⟨before, entry', rfl⟩
  · obtain ⟨iter', hprev, hsnapshot, hinvalid⟩ := h.prev_nil
    exact ⟨iter', hprev, hsnapshot, placed_of_not_valid hinvalid⟩
  · obtain ⟨iter', hprev, hsnapshot, hat⟩ := h.prev_concat
    exact ⟨iter', hprev, hsnapshot, hat.placed⟩

/-- Wherever an iterator is, it is a cursor over the entries of its snapshot. -/
theorem Placed.isCursor (h : iter.Placed) : iter.IsCursor iter.snapshot iter.entries where
  valid_iff := h.valid_iff
  tryGet key value hkey hvalue := by
    obtain ⟨before, entry, after, hat⟩ := h (h.valid_iff.mpr ⟨key, value, hkey, hvalue⟩)
    obtain rfl := Except.ok.inj (hat.key.symm.trans hkey)
    obtain rfl := Except.ok.inj (hat.value.symm.trans hvalue)
    exact hat.tryGet
  forward := ⟨_, visits_next.scan (ahead_seekToFirst iter) []⟩
  backward := ⟨_, visits_prev.scan (behind_seekToLast iter) []⟩
  seek target := by
    rcases iter.seek_cases target with ⟨before, entry, after, hat, hbefore, hge⟩ | hinvalid
    · have hentries : (iter.seek target).entries = iter.entries := by
        rw [entries, snapshot_seek, entries]
      exact Or.inl ⟨entry, hat.valid, hat.read, hentries ▸ hat.isLowerBound hbefore hge⟩
    · exact Or.inr hinvalid
  moves hvalid := by
    obtain ⟨before, entry, after, hat⟩ := h hvalid
    obtain ⟨iter', hnext, -⟩ := hat.exists_next
    obtain ⟨iter'', hprev, -⟩ := hat.exists_prev
    exact ⟨⟨iter', hnext⟩, iter'', hprev⟩
  next_prev iter' hnext hvalid := by
    obtain ⟨_, hensure, -⟩ := Outcome.bind_eq_ok.mp hnext
    obtain ⟨before, entry, after, hat⟩ := h (Outcome.verify_eq_ok.mp hensure)
    exact hat.prev_of_next hnext hvalid
  prev_next iter' hprev hvalid := by
    obtain ⟨_, hensure, -⟩ := Outcome.bind_eq_ok.mp hprev
    obtain ⟨before, entry, after, hat⟩ := h (Outcome.verify_eq_ok.mp hensure)
    exact hat.next_of_prev hprev hvalid

theorem placed_seekToFirst (iter : Iterator Key Value) : iter.seekToFirst.Placed := by
  cases hentries : iter.entries with
  | nil =>
    rw [seekToFirst_of_nil hentries]
    exact placed_of_not_valid rfl
  | cons entry after => exact (isAt_seekToFirst hentries).placed

theorem placed_seekToLast (iter : Iterator Key Value) : iter.seekToLast.Placed := by
  rcases List.eq_nil_or_concat' iter.entries with hentries | ⟨before, entry, hentries⟩
  · rw [seekToLast_of_nil hentries]
    exact placed_of_not_valid rfl
  · exact (isAt_seekToLast hentries).placed

theorem placed_seek (iter : Iterator Key Value) (target : Key) : (iter.seek target).Placed := by
  rcases iter.seek_cases target with ⟨before, entry, after, hat, -⟩ | ⟨hinvalid, -⟩
  · exact hat.placed
  · exact placed_of_not_valid hinvalid

end Iterator

/-! ## Iterators of a running node -/

/-- A fiber with an iterator, on a node whose fibers go on. -/
structure Reader (L : Libraries Key Value) where
  node : Node L
  iter : Iterator Key Value

/-- What happens next. -/
inductive Reader.Action (Key Value : Type) where
  | seekToFirst
  | seekToLast
  | seek (target : Key)
  | next
  | prev
  /-- A piece of a call of any fiber to the database. -/
  | call (action : Db.Action Key Value)

namespace Reader

variable {L : Libraries Key Value} {reader reader' : Reader L} {snapshot : Snapshot Key Value}

/-- One action.  `Next` and `Prev` fail on an iterator that is not valid. -/
def execute (reader : Reader L) : Reader.Action Key Value → Outcome (Reader L)
  | .seekToFirst => .ok { reader with iter := reader.iter.seekToFirst }
  | .seekToLast => .ok { reader with iter := reader.iter.seekToLast }
  | .seek target => .ok { reader with iter := reader.iter.seek target }
  | .next => do
    let iter ← reader.iter.next
    return { reader with iter := iter }
  | .prev => do
    let iter ← reader.iter.prev
    return { reader with iter := iter }
  | .call action => do
    let node ← reader.node.execute action
    return { reader with node := node }

/-- The other fibers make calls, and the node does not crash. -/
def Permitted (_ : Reader L) : Reader.Action Key Value → Prop
  | .call action => action.isCall = true
  | _ => True

instance (reader : Reader L) : ∀ action, Decidable (Permitted reader action)
  | .call action => inferInstanceAs (Decidable (action.isCall = true))
  | .seekToFirst => isTrue trivial
  | .seekToLast => isTrue trivial
  | .seek _ => isTrue trivial
  | .next => isTrue trivial
  | .prev => isTrue trivial

/-- The iterator is one over the snapshot, and points at an entry while it is valid. -/
structure Reads (reader : Reader L) (snapshot : Snapshot Key Value) : Prop where
  snapshot : reader.iter.snapshot = snapshot
  placed : reader.iter.Placed

theorem Reads.execute (h : reader.Reads snapshot) {action : Reader.Action Key Value}
    (hexecute : reader.execute action = .ok reader') : reader'.Reads snapshot := by
  cases action with
  | seekToFirst =>
    obtain rfl := Except.ok.inj hexecute
    exact ⟨(reader.iter.snapshot_seekToFirst).trans h.snapshot, reader.iter.placed_seekToFirst⟩
  | seekToLast =>
    obtain rfl := Except.ok.inj hexecute
    exact ⟨(reader.iter.snapshot_seekToLast).trans h.snapshot, reader.iter.placed_seekToLast⟩
  | seek target =>
    obtain rfl := Except.ok.inj hexecute
    exact ⟨(reader.iter.snapshot_seek target).trans h.snapshot, reader.iter.placed_seek target⟩
  | next =>
    obtain ⟨iter, hnext, hexecute⟩ := Outcome.bind_eq_ok.mp hexecute
    obtain rfl := Outcome.pure_eq_ok.mp hexecute
    obtain ⟨_, hensure, -⟩ := Outcome.bind_eq_ok.mp hnext
    obtain ⟨before, entry, after, hat⟩ := h.placed (Outcome.verify_eq_ok.mp hensure)
    obtain ⟨iter', hnext', hsnapshot, hplaced⟩ := hat.exists_next
    obtain rfl := Except.ok.inj (hnext.symm.trans hnext')
    exact ⟨hsnapshot.trans h.snapshot, hplaced⟩
  | prev =>
    obtain ⟨iter, hprev, hexecute⟩ := Outcome.bind_eq_ok.mp hexecute
    obtain rfl := Outcome.pure_eq_ok.mp hexecute
    obtain ⟨_, hensure, -⟩ := Outcome.bind_eq_ok.mp hprev
    obtain ⟨before, entry, after, hat⟩ := h.placed (Outcome.verify_eq_ok.mp hensure)
    obtain ⟨iter', hprev', hsnapshot, hplaced⟩ := hat.exists_prev
    obtain rfl := Except.ok.inj (hprev.symm.trans hprev')
    exact ⟨hsnapshot.trans h.snapshot, hplaced⟩
  | call action =>
    obtain ⟨node, -, hexecute⟩ := Outcome.bind_eq_ok.mp hexecute
    obtain rfl := Outcome.pure_eq_ok.mp hexecute
    exact ⟨h.snapshot, h.placed⟩

/-- **The iterator is a cursor over the sorted snapshot**, after any moves and whatever the
fibers of the node do to the database. -/
theorem isCursor_of_reaches {node : Node L}
    (h : Runs.Reaches execute Permitted ⟨node, snapshot.makeIterator⟩ reader) :
    ∃ entries, Iterator.Lists snapshot entries ∧ reader.iter.IsCursor snapshot entries := by
  have hreads : reader.Reads snapshot := by
    apply h.invariant (I := fun reader => reader.Reads snapshot)
    · exact ⟨Iterator.snapshot_seekToFirst _, Iterator.placed_seekToFirst _⟩
    · exact fun _ _ _ hreads _ hexecute => hreads.execute hexecute
  obtain ⟨hsnapshot, hplaced⟩ := hreads
  refine ⟨reader.iter.entries, ?_, ?_⟩
  · exact hsnapshot ▸ reader.iter.lists_entries
  · exact hsnapshot ▸ hplaced.isCursor

/-- A snapshot with two entries. -/
def twoEntries : Snapshot ℕ ℕ := ⟨(∅ : Entries ℕ ℕ).insert 2 20 |>.insert 1 10, 2⟩

/-- The iterator goes to the last entry and back to the first one, while another fiber
deletes the last one from the database. -/
def movingRun : List (Reader.Action ℕ ℕ) :=
  [.seek 2, .call (.delete 2), .call (.lock 0), .prev, .call .append, .call .finish, .next]

/-- The node and the iterator after this. -/
def movedReader : Reader recordLog :=
  (Runs.exec execute Permitted ⟨Node.openedNode, twoEntries.makeIterator⟩ movingRun).getD
    ⟨{}, twoEntries.makeIterator⟩

/-- **An example of a cursor.** -/
theorem isCursor_of_reaches_movedReader :
    movedReader.iter.key = .ok 2 ∧ ∃ entries, Iterator.Lists twoEntries entries ∧
      movedReader.iter.IsCursor twoEntries entries := by
  have hrun : Runs.exec execute Permitted ⟨Node.openedNode, twoEntries.makeIterator⟩ movingRun
      = some movedReader := rfl
  exact ⟨rfl, isCursor_of_reaches (Runs.reaches_of_exec hrun)⟩

end Reader

end Whirl.Db
