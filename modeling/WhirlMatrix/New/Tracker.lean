/-
# Global allocations

`new/new.cpp` and `new/tracker.hpp`: what is allocated outside the heaps of the processes enters
a checksum, which tells whether two simulations leave the same allocations behind, and from its
activation on a tracker, which reports the allocations that have not been freed.  The records of
the tracker lie in an array and are recycled.

`live`, `tracked` and `mostTracked` are proof-only: the allocations that have not been freed,
those of them that were made since the activation, and how many these were at most.
-/
import WhirlMatrix.Library.Recycling
import WhirlMatrix.Library.Runs
import WhirlMatrix.Time
import Mathlib.Data.List.Nodup
import Mathlib.Logic.Function.Basic

namespace Whirl

/-! ## The tracker -/

/-- `AllocRecord`. -/
structure AllocRecord where
  address : UInt64
  size : ℕ
  id : ℕ
  deriving DecidableEq, Repr

/-- An allocation: its address and its size. -/
def AllocRecord.alloc (record : AllocRecord) : UInt64 × ℕ := (record.address, record.size)

/-- `GlobalAllocTracker`; the intrusive lists hold positions in the array.  `next_id_` is a
`size_t`, which is exact here in fewer than 2^64 actions. -/
structure GlobalAllocTracker where
  active : Bool := false
  pool : ℕ → AllocRecord := fun _ => ⟨0, 0, 0⟩
  nextIndex : ℕ := 0
  nextId : ℕ := 0
  freeList : List ℕ := []
  allocs : List ℕ := []

namespace GlobalAllocTracker

/-- `kAllocLimit`. -/
def kAllocLimit : ℕ := 100500

/-- `GetRecord`; the bound of the array is not checked. -/
def getRecord (tracker : GlobalAllocTracker) : Outcome (ℕ × GlobalAllocTracker) :=
  match tracker.freeList with
  | i :: rest => .ok (i, { tracker with freeList := rest })
  | [] =>
    if tracker.nextIndex < kAllocLimit then
      .ok (tracker.nextIndex, { tracker with nextIndex := tracker.nextIndex + 1 })
    else
      .error .undefined

/-- `Allocate`. -/
def allocate (tracker : GlobalAllocTracker) (address : UInt64) (size : ℕ) :
    Outcome (ℕ × GlobalAllocTracker) :=
  if !tracker.active then
    .ok (0, tracker)
  else do
    let (alloc, tracker) ← tracker.getRecord
    let id := tracker.nextId + 1
    return (id, { tracker with
      pool := Function.update tracker.pool alloc ⟨address, size, id⟩
      nextId := id
      allocs := tracker.allocs ++ [alloc] })

/-- `Deallocate`: the first record with the address. -/
def deallocate (tracker : GlobalAllocTracker) (address : UInt64) : GlobalAllocTracker :=
  if !tracker.active then
    tracker
  else
    match tracker.allocs.find? fun alloc => (tracker.pool alloc).address == address with
    | some alloc => { tracker with
        allocs := tracker.allocs.erase alloc
        freeList := tracker.freeList ++ [alloc] }
    | none => tracker

/-- What `PrintReport` prints. -/
def report (tracker : GlobalAllocTracker) : List AllocRecord := tracker.allocs.map tracker.pool

/-- Finding a record gives out no identifier. -/
theorem nextId_of_getRecord {tracker tracker' : GlobalAllocTracker} {alloc : ℕ}
    (h : tracker.getRecord = .ok (alloc, tracker')) : tracker'.nextId = tracker.nextId := by
  rw [getRecord] at h
  split at h
  · obtain ⟨-, rfl⟩ := Prod.mk.inj (Except.ok.inj h)
    rfl
  · split at h
    · obtain ⟨-, rfl⟩ := Prod.mk.inj (Except.ok.inj h)
      rfl
    · cases h

/-- Neither does a deallocation. -/
theorem nextId_deallocate (tracker : GlobalAllocTracker) (address : UInt64) :
    (tracker.deallocate address).nextId = tracker.nextId := by
  rw [deallocate]
  split
  · rfl
  · split <;> rfl

/-- A free record is written, and the other ones stay as they are. -/
theorem map_update (pool : ℕ → AllocRecord) {allocs : List ℕ} {i : ℕ}
    (hi : i ∉ allocs) (record : AllocRecord) :
    (allocs ++ [i]).map (Function.update pool i record) = allocs.map pool ++ [record] := by
  rw [List.map_append]
  congr 1
  · apply List.map_congr_left
    intro j hj
    apply Function.update_of_ne
    rintro rfl
    exact hi hj
  · rw [List.map_singleton, Function.update_self]

end GlobalAllocTracker

/-! ## The global allocator -/

/-- The state of `new.cpp`. -/
structure GlobalAllocs where
  checksum : UInt64 := 0
  tracker : GlobalAllocTracker := {}
  live : List (UInt64 × ℕ) := []
  tracked : List (UInt64 × ℕ) := []
  mostTracked : ℕ := 0

namespace GlobalAllocs

/-- What happens outside the heaps. -/
inductive Action where
  /-- `ActivateAllocsTracker`. -/
  | activate
  /-- `AllocateGlobal`; `malloc` returns the address. -/
  | allocate (address : UInt64) (size : ℕ)
  /-- `FreeGlobal`. -/
  | free (address : UInt64)
  deriving DecidableEq, Repr

/-- One action. -/
def execute (g : GlobalAllocs) : Action → Outcome GlobalAllocs
  | .activate => .ok { g with tracker := { g.tracker with active := true } }
  | .allocate address size => do
    let (_, tracker) ← g.tracker.allocate address size
    let tracked := if g.tracker.active then g.tracked ++ [(address, size)] else g.tracked
    return { g with
      checksum := g.checksum ^^^ address
      tracker := tracker
      live := g.live ++ [(address, size)]
      tracked := tracked
      mostTracked := max g.mostTracked tracked.length }
  | .free address => .ok { g with
      checksum := g.checksum ^^^ address
      tracker := g.tracker.deallocate address
      live := g.live.filter fun alloc => alloc.1 ≠ address
      tracked := g.tracked.filter fun alloc => alloc.1 ≠ address }

/-- `malloc` returns an address that is not in use, and what is freed is live or the null
pointer. -/
def Allowed (g : GlobalAllocs) : Action → Prop
  | .activate => True
  | .allocate address _ => address ≠ 0 ∧ address ∉ g.live.map Prod.fst
  | .free address => address = 0 ∨ address ∈ g.live.map Prod.fst

instance (g : GlobalAllocs) (action : Action) : Decidable (Allowed g action) :=
  match action with
  | .activate => .isTrue trivial
  | .allocate address _ => inferInstanceAs (Decidable (address ≠ 0 ∧ address ∉ g.live.map Prod.fst))
  | .free address => inferInstanceAs (Decidable (address = 0 ∨ address ∈ g.live.map Prod.fst))

/-! ## Checksums -/

/-- All addresses in one number. -/
def checksumOf (addresses : List UInt64) : UInt64 := addresses.foldr (· ^^^ ·) 0

/-- The order of the addresses does not matter. -/
theorem checksumOf_perm {addresses addresses' : List UInt64} (h : addresses.Perm addresses') :
    checksumOf addresses = checksumOf addresses' := by
  have : LeftCommutative (α := UInt64) (β := UInt64) (· ^^^ ·) := by
    constructor
    intro a b c
    show a ^^^ (b ^^^ c) = b ^^^ (a ^^^ c)
    rw [← UInt64.xor_assoc, UInt64.xor_comm a b, UInt64.xor_assoc]
  exact h.foldr_eq 0

theorem checksumOf_cons (address : UInt64) (addresses : List UInt64) :
    checksumOf (address :: addresses) = address ^^^ checksumOf addresses := rfl

/-- An address that enters a second time leaves. -/
theorem checksumOf_cons_xor (address : UInt64) (addresses : List UInt64) :
    checksumOf (address :: addresses) ^^^ address = checksumOf addresses := by
  rw [checksumOf_cons, UInt64.xor_comm, ← UInt64.xor_assoc, UInt64.xor_self, UInt64.zero_xor]

/-! ## The invariant -/

variable {g g' : GlobalAllocs} {address : UInt64} {size : ℕ}

/-- The tracker knows the allocations since its activation, and the checksum knows all. -/
structure Exact (g : GlobalAllocs) : Prop where
  checksum : g.checksum = checksumOf (g.live.map Prod.fst)
  live : (g.live.map Prod.fst).Nodup
  nonnull : 0 ∉ g.live.map Prod.fst
  tracked : g.tracked.Sublist g.live
  report : g.tracker.report.map AllocRecord.alloc = g.tracked
  ids : (g.tracker.report.map AllocRecord.id).Pairwise (· < ·)
  nextId : ∀ record ∈ g.tracker.report, record.id ≤ g.tracker.nextId
  balanced : Recycling.Balanced (List.range g.tracker.nextIndex) g.tracker.freeList
    g.tracker.allocs g.mostTracked
  nextIndex : g.tracker.nextIndex ≤ GlobalAllocTracker.kAllocLimit
  inactive : g.tracker.active = false → g.tracked = []

theorem exact_start : Exact {} where
  checksum := rfl
  live := List.nodup_nil
  nonnull := List.not_mem_nil
  tracked := List.Sublist.refl _
  report := rfl
  ids := List.Pairwise.nil
  nextId _ h := absurd h List.not_mem_nil
  balanced := Recycling.balanced_nil
  nextIndex := Nat.zero_le _
  inactive _ := rfl

theorem Exact.length_allocs (h : g.Exact) : g.tracker.allocs.length = g.tracked.length := by
  rw [← h.report, List.length_map, GlobalAllocTracker.report, List.length_map]

/-- No position is in a list twice, nor in both. -/
theorem Exact.nodup (h : g.Exact) : (g.tracker.freeList ++ g.tracker.allocs).Nodup :=
  h.balanced.nodup List.nodup_range

/-! ## Steps -/

/-- The record that `GetRecord` finds, unless the array is full. -/
theorem Exact.getRecord (h : g.Exact) :
    g.tracked.length = GlobalAllocTracker.kAllocLimit ∧ g.tracker.getRecord = .error .undefined ∨
      ∃ i freeList nextIndex, g.tracker.getRecord = .ok (i, { g.tracker with
          freeList := freeList
          nextIndex := nextIndex }) ∧ i ∉ g.tracker.allocs ∧
        nextIndex ≤ GlobalAllocTracker.kAllocLimit ∧
        Recycling.Balanced (List.range nextIndex) freeList (g.tracker.allocs ++ [i])
          (max g.mostTracked (g.tracker.allocs.length + 1)) := by
  have hbalanced := h.balanced
  have hnodup := h.nodup
  rw [GlobalAllocTracker.getRecord]
  cases hfree : g.tracker.freeList with
  | cons i rest =>
    rw [hfree] at hbalanced hnodup
    refine Or.inr ⟨i, rest, g.tracker.nextIndex, rfl, ?_, h.nextIndex, ?_⟩
    · exact fun hi => (List.nodup_cons.mp hnodup).1 (List.mem_append_right _ hi)
    · exact hbalanced.take (List.perm_append_singleton i rest).symm
  | nil =>
    rw [hfree] at hbalanced
    have hlength := hbalanced.length_eq
    have hmost := hbalanced.most
    rw [List.length_range] at hmost
    rw [List.length_nil, Nat.zero_add, h.length_allocs] at hlength
    have hle := h.nextIndex
    dsimp only
    split
    · rename_i hlt
      refine Or.inr ⟨g.tracker.nextIndex, [], g.tracker.nextIndex + 1, ?_, ?_, hlt, ?_⟩
      · rw [← hfree]
      · intro hi
        have hmem := hbalanced.owned.mem_iff.mpr (List.mem_append_right _ hi)
        exact Nat.lt_irrefl _ (List.mem_range.mp hmem)
      · rw [List.range_succ]
        exact hbalanced.make g.tracker.nextIndex
    · exact Or.inl ⟨by omega, rfl⟩

/-- An allocation joins those that are live. -/
theorem Exact.live_append (h : g.Exact) (hallowed : Allowed g (.allocate address size)) :
    g.checksum ^^^ address = checksumOf ((g.live ++ [(address, size)]).map Prod.fst) ∧
      ((g.live ++ [(address, size)]).map Prod.fst).Nodup ∧
      0 ∉ (g.live ++ [(address, size)]).map Prod.fst := by
  obtain ⟨hnonnull, hnew⟩ := hallowed
  refine ⟨?_, ?_, ?_⟩
  · rw [List.map_append, checksumOf_perm (List.perm_append_comm), h.checksum]
    exact UInt64.xor_comm _ _
  · rw [List.map_append, List.nodup_append]
    refine ⟨h.live, List.nodup_singleton _, ?_⟩
    rintro other hother _ haddress rfl
    obtain rfl : other = address := List.mem_singleton.mp haddress
    exact hnew hother
  · rw [List.map_append, List.mem_append]
    rintro (hmem | hmem)
    · exact h.nonnull hmem
    · exact hnonnull (List.mem_singleton.mp hmem).symm

/-- While the tracker is not active, it does not notice an allocation. -/
theorem Exact.allocate_inactive (h : g.Exact) (hallowed : Allowed g (.allocate address size))
    (hactive : g.tracker.active = false) :
    ∃ g', g.execute (.allocate address size) = .ok g' ∧ g'.Exact := by
  obtain ⟨hchecksum, hlive, hzero⟩ := h.live_append hallowed
  refine ⟨{ g with
    checksum := g.checksum ^^^ address
    live := g.live ++ [(address, size)]
    mostTracked := max g.mostTracked g.tracked.length }, ?_, ?_⟩
  · rw [execute, GlobalAllocTracker.allocate, hactive]
    rfl
  · have hmost : max g.mostTracked g.tracked.length = g.mostTracked := by
      have hlength := h.balanced.length_eq
      rw [h.length_allocs] at hlength
      omega
    refine { h with
      checksum := hchecksum
      live := hlive
      nonnull := hzero
      tracked := h.tracked.trans (List.sublist_append_left _ _)
      balanced := ?_ }
    show Recycling.Balanced _ _ _ (max g.mostTracked g.tracked.length)
    rw [hmost]
    exact h.balanced

/-- The active tracker writes an allocation to a free record. -/
theorem Exact.allocate_active (h : g.Exact) (hallowed : Allowed g (.allocate address size))
    (hactive : g.tracker.active = true) :
    g.tracked.length = GlobalAllocTracker.kAllocLimit ∧
        g.execute (.allocate address size) = .error .undefined ∨
      ∃ g', g.execute (.allocate address size) = .ok g' ∧ g'.Exact := by
  obtain ⟨hchecksum, hlive, hzero⟩ := h.live_append hallowed
  obtain ⟨hfull, hrecord⟩ | ⟨i, freeList, nextIndex, hrecord, hi, hle, hbalanced⟩ := h.getRecord
  · left
    refine ⟨hfull, ?_⟩
    rw [execute, GlobalAllocTracker.allocate, hactive, hrecord]
    rfl
  · right
    -- The record goes where the free list or the next unused index says.
    have hrun : g.execute (.allocate address size) = .ok { g with
        checksum := g.checksum ^^^ address
        tracker := { g.tracker with
          freeList := freeList
          nextIndex := nextIndex
          pool := Function.update g.tracker.pool i ⟨address, size, g.tracker.nextId + 1⟩
          nextId := g.tracker.nextId + 1
          allocs := g.tracker.allocs ++ [i] }
        live := g.live ++ [(address, size)]
        tracked := g.tracked ++ [(address, size)]
        mostTracked := max g.mostTracked (g.tracked ++ [(address, size)]).length } := by
      rw [execute, GlobalAllocTracker.allocate, hactive, hrecord]
      rfl
    have hreport := GlobalAllocTracker.map_update g.tracker.pool hi
      ⟨address, size, g.tracker.nextId + 1⟩
    rw [← GlobalAllocTracker.report] at hreport
    refine ⟨_, hrun, ?_⟩
    constructor
    · exact hchecksum
    · exact hlive
    · exact hzero
    · exact h.tracked.append_right _
    · rw [GlobalAllocTracker.report, hreport, List.map_append, h.report]
      rfl
    -- The new id is larger than every id given out before.
    · rw [GlobalAllocTracker.report, hreport, List.map_append, List.pairwise_append]
      refine ⟨h.ids, List.pairwise_singleton _ _, ?_⟩
      intro id hid id' hid'
      obtain ⟨record, hrecord, rfl⟩ := List.mem_map.mp hid
      obtain rfl := List.mem_singleton.mp hid'
      exact Nat.lt_succ_of_le (h.nextId record hrecord)
    · intro record hrecord
      rw [GlobalAllocTracker.report, hreport] at hrecord
      rcases List.mem_append.mp hrecord with hrecord | hrecord
      · exact Nat.le_succ_of_le (h.nextId record hrecord)
      · have hlast := congrArg AllocRecord.id (List.mem_singleton.mp hrecord)
        exact Nat.le_of_eq hlast
    · show Recycling.Balanced (List.range nextIndex) freeList (g.tracker.allocs ++ [i])
        (max g.mostTracked (g.tracked ++ [(address, size)]).length)
      rw [List.length_append, ← h.length_allocs]
      exact hbalanced
    · exact hle
    · intro hinactive
      have hinactive : g.tracker.active = false := hinactive
      rw [hactive] at hinactive
      cases hinactive

/-- An allocation enters the tracker if it is active. -/
theorem Exact.allocate (h : g.Exact) (hallowed : Allowed g (.allocate address size)) :
    g.tracked.length = GlobalAllocTracker.kAllocLimit ∧
        g.execute (.allocate address size) = .error .undefined ∨
      ∃ g', g.execute (.allocate address size) = .ok g' ∧ g'.Exact := by
  cases hactive : g.tracker.active with
  | false => exact Or.inr (h.allocate_inactive hallowed hactive)
  | true => exact h.allocate_active hallowed hactive

/-- An address leaves a list of allocations. -/
theorem perm_filter {allocs : List (UInt64 × ℕ)} (hnodup : (allocs.map Prod.fst).Nodup)
    (hmem : address ∈ allocs.map Prod.fst) : (allocs.map Prod.fst).Perm
      (address :: (allocs.filter fun alloc => alloc.1 ≠ address).map Prod.fst) := by
  have hfilter : (allocs.filter fun alloc => alloc.1 ≠ address).map Prod.fst
      = (allocs.map Prod.fst).erase address := by
    rw [hnodup.erase_eq_filter, List.filter_map]
    congr 1
    apply List.filter_congr
    intro alloc _
    by_cases heq : alloc.1 = address
    · simp [heq]
    · simp [heq]
  rw [hfilter]
  exact List.perm_cons_erase hmem

/-- `Deallocate` of an active tracker removes the record of an address, if there is one. -/
theorem Exact.deallocate (h : g.Exact) (hactive : g.tracker.active = true) (address : UInt64) :
    ∃ freeList allocs, g.tracker.deallocate address = { g.tracker with
        freeList := freeList
        allocs := allocs } ∧ allocs.Sublist g.tracker.allocs ∧
      ((allocs.map g.tracker.pool).map AllocRecord.alloc
        = g.tracked.filter fun alloc => alloc.1 ≠ address) ∧
      Recycling.Balanced (List.range g.tracker.nextIndex) freeList allocs g.mostTracked := by
  have hreport : (g.tracker.allocs.map g.tracker.pool).map AllocRecord.alloc = g.tracked := h.report
  rw [GlobalAllocTracker.deallocate, if_neg (by simp [hactive])]
  cases hfind : g.tracker.allocs.find? fun alloc => (g.tracker.pool alloc).address == address with
  | none =>
    refine ⟨g.tracker.freeList, g.tracker.allocs, rfl, List.Sublist.refl _, ?_, h.balanced⟩
    rw [hreport, eq_comm, List.filter_eq_self]
    intro alloc halloc
    rw [← hreport, List.map_map] at halloc
    obtain ⟨i, hi, rfl⟩ := List.mem_map.mp halloc
    have hne := List.find?_eq_none.mp hfind i hi
    have hne : (g.tracker.pool i).address ≠ address := by simpa using hne
    exact decide_eq_true hne
  | some i =>
    have hi := List.mem_of_find?_eq_some hfind
    have haddress : (g.tracker.pool i).address = address := by
      have hfound := List.find?_some hfind
      simpa using hfound
    have hnodup : g.tracker.allocs.Nodup := (List.nodup_append.mp h.nodup).2.1
    -- no other record has the address
    have honly : ∀ j ∈ g.tracker.allocs, (g.tracker.pool j).address = address → j = i := by
      intro j hj heq
      have hinj : (g.tracker.allocs.map fun j => (g.tracker.pool j).address).Nodup := by
        have htracked := (h.tracked.map Prod.fst).nodup h.live
        rw [← hreport, List.map_map, List.map_map] at htracked
        exact htracked
      exact List.inj_on_of_nodup_map hinj hj hi (heq.trans haddress.symm)
    refine ⟨_, _, rfl, List.erase_sublist, ?_, h.balanced.giveBack (List.perm_cons_erase hi)⟩
    rw [hnodup.erase_eq_filter, ← hreport, List.map_map, List.map_map, List.filter_map]
    congr 1
    apply List.filter_congr
    intro j hj
    show (j != i) = decide ((g.tracker.pool j).address ≠ address)
    by_cases heq : j = i
    · rw [heq, haddress]
      simp
    · have hne : (g.tracker.pool j).address ≠ address := fun hsame => heq (honly j hj hsame)
      rw [bne_iff_ne.mpr heq, decide_eq_true hne]

/-- What is freed leaves the checksum and the tracker. -/
theorem Exact.free (h : g.Exact) (hallowed : Allowed g (.free address))
    (hrun : g.execute (.free address) = .ok g') : g'.Exact := by
  obtain rfl := Except.ok.inj hrun
  have hsub : (g.live.filter fun alloc => alloc.1 ≠ address).Sublist g.live := List.filter_sublist
  -- Freeing null changes nothing; any other address cancels itself in the checksum.
  have hchecksum : g.checksum ^^^ address
      = checksumOf ((g.live.filter fun alloc => alloc.1 ≠ address).map Prod.fst) := by
    rcases hallowed with rfl | hmem
    · have hall : g.live.filter (fun alloc => alloc.1 ≠ 0) = g.live := by
        rw [List.filter_eq_self]
        intro alloc halloc
        apply decide_eq_true
        intro hzero
        exact h.nonnull (hzero ▸ List.mem_map_of_mem halloc)
      rw [hall, UInt64.xor_zero, h.checksum]
    · rw [h.checksum, checksumOf_perm (perm_filter h.live hmem), checksumOf_cons_xor]
  have hlive := (hsub.map Prod.fst).nodup h.live
  have hzero : 0 ∉ (g.live.filter fun alloc => alloc.1 ≠ address).map Prod.fst :=
    fun hmem => h.nonnull ((hsub.map Prod.fst).subset hmem)
  have htracked := h.tracked.filter fun alloc => decide (alloc.1 ≠ address)
  cases hactive : g.tracker.active with
  | false =>
    have hnone := h.inactive hactive
    -- A tracker that is off looks at nothing, and it has tracked nothing.
    have hsame : g.tracker.deallocate address = g.tracker := by
      rw [GlobalAllocTracker.deallocate, hactive]
      rfl
    rw [hsame]
    refine { h with
      checksum := hchecksum
      live := hlive
      nonnull := hzero
      tracked := htracked
      report := ?_
      inactive := ?_ }
    · show g.tracker.report.map AllocRecord.alloc = g.tracked.filter _
      rw [h.report, hnone]
      rfl
    · intro _
      show g.tracked.filter _ = []
      rw [hnone]
      rfl
  | true =>
    obtain ⟨freeList, allocs, heq, hallocs, hreport, hbalanced⟩ := h.deallocate hactive address
    rw [heq]
    have hrecords : (allocs.map g.tracker.pool).Sublist g.tracker.report :=
      hallocs.map g.tracker.pool
    refine { h with
      checksum := hchecksum
      live := hlive
      nonnull := hzero
      tracked := htracked
      report := hreport
      ids := h.ids.sublist (hrecords.map AllocRecord.id)
      nextId := fun record hrecord => h.nextId record (hrecords.subset hrecord)
      balanced := hbalanced
      inactive := ?_ }
    intro hinactive
    have hinactive : g.tracker.active = false := hinactive
    rw [hactive] at hinactive
    cases hinactive

/-- **One action keeps the tracker exact.** -/
theorem Exact.execute (h : g.Exact) {action : Action} (hallowed : Allowed g action)
    (hrun : g.execute action = .ok g') : g'.Exact := by
  cases action with
  | activate =>
    obtain rfl := Except.ok.inj hrun
    exact { h with inactive := fun hinactive => Bool.noConfusion hinactive }
  | allocate address size =>
    obtain ⟨-, hfails⟩ | ⟨g'', hg'', h''⟩ := h.allocate hallowed
    · rw [hfails] at hrun
      cases hrun
    · obtain rfl := Except.ok.inj (hg''.symm.trans hrun)
      exact h''
  | free address => exact h.free hallowed hrun

/-- An action gives out one identifier at most. -/
theorem nextId_le_of_execute {action : Action} (hrun : g.execute action = .ok g') :
    g'.tracker.nextId ≤ g.tracker.nextId + 1 := by
  cases action with
  | activate =>
    obtain rfl := Except.ok.inj hrun
    exact Nat.le_succ _
  | allocate address size =>
    obtain ⟨⟨id, tracker⟩, htracker, hrun⟩ := Outcome.bind_eq_ok.mp hrun
    obtain rfl := Outcome.pure_eq_ok.mp hrun
    show tracker.nextId ≤ _
    rw [GlobalAllocTracker.allocate] at htracker
    split at htracker
    · obtain ⟨-, rfl⟩ := Prod.mk.inj (Except.ok.inj htracker)
      exact Nat.le_succ _
    · obtain ⟨⟨alloc, tracker'⟩, hrecord, htracker⟩ := Outcome.bind_eq_ok.mp htracker
      obtain ⟨-, rfl⟩ := Prod.mk.inj (Outcome.pure_eq_ok.mp htracker)
      exact Nat.le_of_eq (congrArg (· + 1) (GlobalAllocTracker.nextId_of_getRecord hrecord))
  | free address =>
    obtain rfl := Except.ok.inj hrun
    show (g.tracker.deallocate address).nextId ≤ _
    rw [GlobalAllocTracker.nextId_deallocate]
    exact Nat.le_succ _

/-- `next_id_` is exact in every run of fewer than 2^64 actions. -/
theorem nextId_mod_of_reachesIn {n : ℕ} (hrun : Runs.ReachesIn execute Allowed n {} g)
    (hfew : n < 2 ^ 64) : g.tracker.nextId % 2 ^ 64 = g.tracker.nextId := by
  apply hrun.counter_mod (f := fun g => g.tracker.nextId)
  · exact fun _ _ _ _ hrun => nextId_le_of_execute hrun
  · exact (Nat.zero_add n).symm ▸ hfew

/-- **The report is exact.**  In any run the checksum is that of the addresses that have not been
freed, the report lists the allocations that were made since the activation and have not been
freed, in the order in which they were made, and as many records are used as allocations were
tracked at a time.  The array overflows only if this many are tracked already. -/
theorem exact_of_reaches (hrun : Runs.Reaches execute Allowed {} g) :
    g.checksum = checksumOf (g.live.map Prod.fst) ∧
      g.tracker.report.map AllocRecord.alloc = g.tracked ∧
      (g.tracker.report.map AllocRecord.id).Pairwise (· < ·) ∧
      g.tracker.nextIndex = g.mostTracked ∧
      ∀ action, Allowed g action → (∃ g', g.execute action = .ok g') ∨
        g.tracked.length = GlobalAllocTracker.kAllocLimit ∧ g.execute action = .error .undefined := by
  have h : g.Exact := by
    apply hrun.invariant (I := Exact) exact_start
    intro g action g' h hallowed hstep
    exact h.execute hallowed hstep
  have hmost := h.balanced.most
  rw [List.length_range] at hmost
  refine ⟨h.checksum, h.report, h.ids, hmost, ?_⟩
  intro action hallowed
  cases action with
  | activate => exact Or.inl ⟨_, rfl⟩
  | allocate address size =>
    obtain hfull | ⟨g', hg', -⟩ := h.allocate hallowed
    · exact Or.inr hfull
    · exact Or.inl ⟨g', hg'⟩
  | free address => exact Or.inl ⟨_, rfl⟩

/-! ## A short run -/

/-- An allocation from before the activation is freed, and one record is used twice. -/
def leakRun : List Action :=
  [.allocate 64 8, .activate, .allocate 96 16, .allocate 128 24, .free 64, .free 96, .free 0,
    .allocate 64 32]

/-- **An example of a report.** -/
theorem exact_of_reaches_leakRun : ∃ g : GlobalAllocs, g.tracker.report = [⟨128, 24, 2⟩, ⟨64, 32, 3⟩] ∧
    g.tracker.report.map AllocRecord.alloc = g.tracked ∧
    g.checksum = checksumOf (g.live.map Prod.fst) ∧ g.tracker.nextIndex = g.mostTracked := by
  have hexec : (Runs.exec execute Allowed {} leakRun).map (fun g => g.tracker.report)
      = some [⟨128, 24, 2⟩, ⟨64, 32, 3⟩] := by
    decide +kernel
  obtain ⟨g, hg, hreport⟩ := Option.map_eq_some_iff.mp hexec
  obtain ⟨hchecksum, htracked, -, hmost, -⟩ := exact_of_reaches (Runs.reaches_of_exec hg)
  exact ⟨g, hreport, htracked, hchecksum, hmost⟩

end GlobalAllocs

end Whirl
