/-
# The sizes in the headers

The header of a block has 32 bits for the size of its span.  A request of more than
`2 ^ 31` bytes is accepted, but its span has `2 ^ 32` bytes, and the size that is stored is
0.  The blocks of all other requests have the right size in their headers as long as they
are live.
-/
import WhirlMatrix.Memory.Twins

namespace Whirl.Memory

open ByteMemory
open Lockstep (Agree)

/-! ## Rounding up to 32 bits -/

variable {bits : Bithacks}

/-- Requests of more than `2 ^ 31` bytes are rounded up to `2 ^ 32`. -/
theorem allocToPowerOf2_of_lt (hbits : bits.Spec) {bytes : ℕ} (hlt : 2 ^ 31 < bytes)
    (hle : bytes ≤ 2 ^ 32) : allocToPowerOf2 bits bytes = 2 ^ 32 := by
  obtain ⟨k, -, hk, heq⟩ := exists_allocToPowerOf2 hbits (m := 32) (by decide) (by decide) hle
  have hge : 2 ^ 31 < 2 ^ k := by
    rw [← heq]
    exact hlt.trans_le (le_allocToPowerOf2 hbits hle)
  have hk' : 31 < k := (Nat.pow_lt_pow_iff_right (by decide)).mp hge
  obtain rfl : k = 32 := by omega
  exact heq

/-- The size of the span fits into the header exactly for the smaller requests. -/
theorem allocToPowerOf2_lt_iff (hbits : bits.Spec) {bytes : ℕ} (h : bytes ≤ 2 ^ 32) :
    allocToPowerOf2 bits bytes < 2 ^ 32 ↔ bytes ≤ 2 ^ 31 := by
  constructor
  · intro hlt
    by_contra hgt
    rw [allocToPowerOf2_of_lt hbits (Nat.not_le.mp hgt) h] at hlt
    exact Nat.lt_irrefl _ hlt
  · exact fun hle => (isBlockSize_allocToPowerOf2 hbits hle).1.lt

namespace MemoryAllocator

variable {heap heap' : MemoryAllocator} {pool : Pool} {block : Block}

/-! ## Runs of one heap -/

/-- The offsets of an action that a heap permits. -/
theorem Represents.exists_shift (h : heap.Represents pool) {action : Action}
    (hpermitted : heap.Permitted action) :
    ∃ action', action = Action.shift heap.arena.start action' ∧ pool.Allowed action' := by
  cases action with
  | allocate bytes => exact ⟨.allocate bytes, rfl, trivial⟩
  | free addr =>
    obtain ⟨shifted, hmem, haddr⟩ := hpermitted
    rw [h.live] at hmem
    obtain ⟨block, hblock, rfl⟩ := List.mem_map.mp hmem
    rw [Block.shift_addr] at haddr
    exact ⟨.free block.addr, congrArg Action.free haddr.symm, block, hblock, rfl⟩
  | write addr byte =>
    obtain ⟨shifted, hmem, hle, hlt⟩ := hpermitted
    rw [h.live] at hmem
    obtain ⟨block, hblock, rfl⟩ := List.mem_map.mp hmem
    rw [Block.shift_addr] at hle
    rw [Block.shift_stop] at hlt
    refine ⟨.write (addr - heap.arena.start) byte, ?_, block, hblock, by omega, by omega⟩
    rw [Action.shift, Nat.add_sub_of_le (by omega)]
  | reset => exact ⟨.reset, rfl, trivial⟩

/-- One action of a heap is one of the pool that it represents. -/
theorem Represents.exists_execute (hbits : bits.Spec) (h : heap.Represents pool)
    (hvalid : pool.Valid) {action : Action} (hpermitted : heap.Permitted action)
    (hrun : heap.execute bits action = .ok heap') :
    ∃ action' pool', action = Action.shift heap.arena.start action' ∧ pool.Allowed action' ∧
      pool.execute bits action' = .ok pool' ∧ heap'.arena = heap.arena ∧
        heap'.Represents pool' ∧ pool'.Valid := by
  obtain ⟨action', rfl, hallowed⟩ := h.exists_shift hpermitted
  have hagree := h.execute hbits hvalid hallowed
  rw [hrun] at hagree
  obtain ⟨pool', hpool', harena, hrepresents⟩ := hagree.exists_of_ok
  exact ⟨action', pool', rfl, hallowed, hpool', harena, hrepresents,
    (hvalid.execute hbits hallowed hpool').1⟩

/-- A heap represents a pool all the time. -/
theorem exists_represents_of_reaches (hbits : bits.Spec)
    (h : ∃ pool : Pool, heap.Represents pool ∧ pool.Valid)
    (hrun : Runs.Reaches (execute bits) Permitted heap heap') :
    ∃ pool : Pool, heap'.Represents pool ∧ pool.Valid := by
  apply hrun.invariant (I := fun heap => ∃ pool : Pool, heap.Represents pool ∧ pool.Valid) h
  rintro heap action heap' ⟨pool, hrepresents, hvalid⟩ hpermitted hstep
  obtain ⟨_, pool', -, -, -, -, hrepresents', hvalid'⟩ :=
    hrepresents.exists_execute hbits hvalid hpermitted hstep
  exact ⟨pool', hrepresents', hvalid'⟩

/-! ## What a header says -/

/-- `GetSpan`: the first address of a span and its size. -/
def getSpan (heap : MemoryAllocator) (header : ℕ) : ℕ × ℕ :=
  (header + sizeOfBlockHeader, BlockHeader.size heap.mem header)

/-- The header of a block tells the size of its span, `Free` finds the class of this size,
and `GetSpan` covers the span. -/
structure RecordsSize (bits : Bithacks) (heap : MemoryAllocator) (block : Block) : Prop where
  size : BlockHeader.size heap.mem block.header = block.size
  allocClass : getAllocClass bits (BlockHeader.size heap.mem block.header)
    = getAllocClass bits block.size
  span : heap.getSpan block.header = (block.addr, block.size)

/-- The size in the header of a live block; what does not fit is cut off. -/
theorem Represents.size_of_live (h : heap.Represents pool) (hvalid : pool.Valid)
    (hlive : block ∈ heap.live) : BlockHeader.size heap.mem block.header = block.size % 2 ^ 32 := by
  rw [h.live] at hlive
  obtain ⟨unshifted, hmem, rfl⟩ := List.mem_map.mp hlive
  exact (h.headers unshifted (hvalid.live unshifted hmem)).size

/-- The header tells the size of the span if the size fits. -/
theorem recordsSize_iff
    (hsize : BlockHeader.size heap.mem block.header = block.size % 2 ^ 32) :
    heap.RecordsSize bits block ↔ block.size < 2 ^ 32 := by
  constructor
  · intro hrecords
    have hcut : block.size % 2 ^ 32 = block.size := hsize.symm.trans hrecords.size
    rw [← hcut]
    exact Nat.mod_lt _ (Nat.two_pow_pos 32)
  · intro hlt
    have hfull : BlockHeader.size heap.mem block.header = block.size :=
      hsize.trans (Nat.mod_eq_of_lt hlt)
    refine ⟨hfull, ?_, ?_⟩
    · rw [hfull]
    · rw [getSpan, hfull]
      rfl

/-! ## Allocations -/

/-- What an allocation changes: a block is cut when none of its class is free, and taken
from the free list otherwise.  It is left to the user to hold it. -/
theorem cases_of_allocate {pool' : Pool} {bytes offset : ℕ}
    (hrun : pool.allocate bits bytes = .ok (offset, pool')) :
    pool'.live = pool.live ∧
      ((pool.lists (classOf (allocToPowerOf2 bits bytes)) = [] ∧ pool'.lists = pool.lists ∧
          pool'.next = pool.next + (sizeOfBlockHeader + allocToPowerOf2 bits bytes)) ∨
        ∃ block rest, pool.lists (classOf (allocToPowerOf2 bits bytes)) = block :: rest ∧
          pool'.lists = Function.update pool.lists (classOf (allocToPowerOf2 bits bytes)) rest ∧
            pool'.next = pool.next) := by
  unfold Pool.allocate at hrun
  split at hrun
  · cases hrun
  split at hrun
  · rename_i hlist
    unfold Pool.cut at hrun
    split at hrun
    · cases hrun
    · obtain ⟨-, rfl⟩ := Prod.mk.inj (Except.ok.inj hrun)
      exact ⟨rfl, Or.inl ⟨hlist, rfl, Nat.add_assoc ..⟩⟩
  · rename_i block rest hlist
    obtain ⟨-, rfl⟩ := Prod.mk.inj (Except.ok.inj hrun)
    exact ⟨rfl, Or.inr ⟨block, rest, hlist, rfl, rfl⟩⟩

theorem Represents.agree_allocate (hbits : bits.Spec) (h : heap.Represents pool)
    (hvalid : pool.Valid) (bytes : ℕ) :
    Agree (Keeps heap.arena) (heap.execute bits (.allocate bytes))
      (pool.execute bits (.allocate bytes)) := by
  have hallowed : pool.Allowed (.allocate bytes) := trivial
  exact h.execute hbits hvalid hallowed

/-- The block that an allocation adds to the live ones was cut with the rounded size. -/
theorem Represents.exists_block (hbits : bits.Spec) (h : heap.Represents pool)
    (hvalid : pool.Valid) {bytes : ℕ} (hrun : heap.execute bits (.allocate bytes) = .ok heap') :
    ∃ block, heap'.live = block :: heap.live ∧ block ∈ heap'.handedOut ∧
      block.size = allocToPowerOf2 bits bytes := by
  have hagree := h.agree_allocate hbits hvalid bytes
  rw [hrun] at hagree
  obtain ⟨pool', hpool', harena, hrepresents⟩ := hagree.exists_of_ok
  obtain ⟨⟨offset, pool₁⟩, hallocate, hpool'⟩ := Outcome.bind_eq_ok.mp hpool'
  obtain rfl := Outcome.pure_eq_ok.mp hpool'
  obtain ⟨-, -, block, rfl, hsize, hfresh⟩ := hvalid.allocate hbits hallocate
  have hblock : Block.mk (locateBlockHeader block.addr) (allocToPowerOf2 bits bytes) = block := by
    rw [← hsize]
    rfl
  refine ⟨block.shift heap'.arena.start, ?_, ?_, hsize⟩
  · rw [hrepresents.live, List.map_cons, hblock, (cases_of_allocate hallocate).1, harena, ← h.live]
  · rw [hrepresents.handedOut]
    exact List.mem_map_of_mem hfresh.mem

/-- A request that is not too large fails only when there is no room for it. -/
theorem Represents.exists_heap (hbits : bits.Spec) (h : heap.Represents pool)
    (hvalid : pool.Valid) {bytes : ℕ} (hsmall : isAllocationTooLarge bytes = false)
    (hroom : heap.overflow (allocToPowerOf2 bits bytes) = false) :
    ∃ heap', heap.execute bits (.allocate bytes) = .ok heap' := by
  have hagree := h.agree_allocate hbits hvalid bytes
  have hallocate : ∃ result, pool.allocate bits bytes = .ok result := by
    rw [Pool.allocate, hsmall, if_neg Bool.false_ne_true]
    split
    · have hnext := h.next
      have hstop : heap.arena.stop = heap.arena.start + pool.size := by
        rw [← h.size]
        rfl
      rw [overflow, decide_eq_false_iff_not, hnext, hstop] at hroom
      rw [Pool.cut, if_neg (by omega)]
      exact ⟨_, rfl⟩
    · exact ⟨_, rfl⟩
  obtain ⟨result, hallocate⟩ := hallocate
  rw [Pool.execute, hallocate, Outcome.ok_bind] at hagree
  obtain ⟨heap', hheap', -⟩ := hagree.exists_of_ok_right
  exact ⟨heap', hheap'⟩

/-- **The header of a block records its true size exactly for requests of at most `2 ^ 31`
bytes.**  In every run from a `Reset`, with requests of any size, a request that is not too
large fails only for want of room, and the block that it gets was cut with the rounded size.
As long as the block is live, whatever happens, its header tells this size if and only if no
more than `2 ^ 31` bytes were requested. -/
theorem recordsSize_iff_of_reaches (hbits : bits.Spec) {heap₀ : MemoryAllocator}
    (hrun : Runs.Reaches (execute bits) Permitted heap₀.reset heap) {bytes : ℕ}
    (hsmall : isAllocationTooLarge bytes = false) :
    (heap.overflow (allocToPowerOf2 bits bytes) = false →
      ∃ heap', heap.execute bits (.allocate bytes) = .ok heap') ∧
    ∀ heap', heap.execute bits (.allocate bytes) = .ok heap' →
      ∃ block, heap'.live = block :: heap.live ∧ block ∈ heap'.handedOut ∧
        block.size = allocToPowerOf2 bits bytes ∧
          ∀ later, Runs.Reaches (execute bits) Permitted heap' later → block ∈ later.live →
            (later.RecordsSize bits block ↔ bytes ≤ 2 ^ 31) := by
  have hbytes : bytes ≤ 2 ^ 32 := by
    rw [isAllocationTooLarge, decide_eq_false_iff_not] at hsmall
    omega
  obtain ⟨pool, hrepresents, hvalid⟩ := exists_represents_of_reaches hbits
    ⟨_, represents_reset heap₀, Pool.valid_new _⟩ hrun
  refine ⟨hrepresents.exists_heap hbits hvalid hsmall, ?_⟩
  intro heap' hallocate
  obtain ⟨block, hlive, hhandedOut, hsize⟩ := hrepresents.exists_block hbits hvalid hallocate
  refine ⟨block, hlive, hhandedOut, hsize, ?_⟩
  intro later hlater hmem
  have hrun' : Runs.Reaches (execute bits) Permitted heap later :=
    (Runs.Reaches.refl.tail (.allocate bytes) trivial hallocate).trans hlater
  obtain ⟨pool', hrepresents', hvalid'⟩ :=
    exists_represents_of_reaches hbits ⟨pool, hrepresents, hvalid⟩ hrun'
  rw [recordsSize_iff (hrepresents'.size_of_live hvalid' hmem), hsize,
    allocToPowerOf2_lt_iff hbits hbytes]

instance (heap : MemoryAllocator) : ∀ action, Decidable (Permitted heap action)
  | .allocate _ => isTrue trivial
  | .free addr => inferInstanceAs (Decidable (heap.Allowed (.free addr)))
  | .write addr byte => inferInstanceAs (Decidable (heap.Allowed (.write addr byte)))
  | .reset => isTrue trivial

/-- A heap with a free block. -/
def freed : MemoryAllocator :=
  (Runs.exec (execute bithacks) Permitted constructed.reset
    [.allocate 24, .allocate 100, .free 4112]).getD constructed

/-- The free block is used again, and its header tells its size. -/
theorem recordsSize_iff_of_reaches_freed :
    ∃ heap' block, freed.execute bithacks (.allocate 20) = .ok heap' ∧
      heap'.live = block :: freed.live ∧ heap'.RecordsSize bithacks block := by
  have hrun : Runs.exec (execute bithacks) Permitted constructed.reset
      [.allocate 24, .allocate 100, .free 4112] = some freed := rfl
  have hsmall : isAllocationTooLarge 20 = false := by decide
  obtain ⟨hroom, hblock⟩ :=
    recordsSize_iff_of_reaches spec_bithacks (Runs.reaches_of_exec hrun) hsmall
  obtain ⟨heap', hheap'⟩ := hroom (by decide)
  obtain ⟨block, hlive, -, -, hlater⟩ := hblock heap' hheap'
  have hmem : block ∈ heap'.live := by
    rw [hlive]
    exact List.mem_cons_self ..
  exact ⟨heap', block, hheap', hlive, (hlater heap' Runs.Reaches.refl hmem).mpr (by decide)⟩

/-- A heap of eight gibibytes. -/
def wideHeap : MemoryAllocator :=
  reset {
    arena := { twoPages with
      size := 2 ^ 33
      pages := by decide
      fits := by decide }
    mem := fun _ => 0
    blockLists := fun _ => 0
    next := 0
    zfilled := 0 }

/-- A request of `2 ^ 31 + 1` bytes gets a span of `2 ^ 32` bytes, and a header with size 0. -/
theorem not_recordsSize_wideHeap :
    ∃ heap' block, wideHeap.execute bithacks (.allocate (2 ^ 31 + 1)) = .ok heap' ∧
      block ∈ heap'.live ∧ block.size = 2 ^ 32 ∧ BlockHeader.size heap'.mem block.header = 0 ∧
        ¬ heap'.RecordsSize bithacks block := by
  have hrounded : allocToPowerOf2 bithacks (2 ^ 31 + 1) = 2 ^ 32 :=
    allocToPowerOf2_of_lt spec_bithacks (by decide) (by decide)
  have hnew : wideHeap.Represents { size := wideHeap.arena.size } := represents_reset _
  have hroom : wideHeap.overflow (allocToPowerOf2 bithacks (2 ^ 31 + 1)) = false := by
    rw [hrounded]
    decide
  obtain ⟨heap', hheap'⟩ := hnew.exists_heap spec_bithacks (Pool.valid_new _) (by decide) hroom
  obtain ⟨block, hlive, -, hsize⟩ := hnew.exists_block spec_bithacks (Pool.valid_new _) hheap'
  have hpermitted : wideHeap.Permitted (.allocate (2 ^ 31 + 1)) := trivial
  obtain ⟨_, pool', -, -, -, -, hrepresents, hvalid⟩ :=
    hnew.exists_execute spec_bithacks (Pool.valid_new _) hpermitted hheap'
  have hmem : block ∈ heap'.live := by
    rw [hlive]
    exact List.mem_cons_self ..
  rw [hrounded] at hsize
  have hheader := hrepresents.size_of_live hvalid hmem
  refine ⟨heap', block, hheap', hmem, hsize, ?_, ?_⟩
  · rw [hheader, hsize, Nat.mod_self]
  · rw [recordsSize_iff hheader, hsize]
    exact Nat.lt_irrefl _

end MemoryAllocator

end Whirl.Memory
