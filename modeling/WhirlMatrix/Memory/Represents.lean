/-
# A heap is a pool in an arena

A heap represents a pool when it holds the blocks, the free lists and the bytes of the pool
at the start of its arena.  Every heap represents the new pool after a `Reset`, whatever its
memory holds, and each action has the same outcome for a heap and for the pool that it
represents.  The memory behind the frontier of the zeroes is never read: a block is cut
from what was filled before.
-/
import WhirlMatrix.Library.Lockstep
import WhirlMatrix.Memory.Contract
import WhirlMatrix.Memory.Pool

namespace Whirl.Memory

open ByteMemory
open Lockstep (Agree)

/-! ## Offsets and addresses -/

namespace Block

/-- The block of an arena that lies at an offset. -/
def shift (start : ℕ) (block : Block) : Block := ⟨start + block.header, block.size⟩

variable {start : ℕ} {block : Block}

theorem shift_addr : (block.shift start).addr = start + block.addr := Nat.add_assoc ..

theorem shift_stop : (block.shift start).stop = start + block.stop := by
  rw [stop, shift_addr, Nat.add_assoc]
  rfl

end Block

/-- The pointer that a link with an offset is stored as. -/
def Pool.pointer (start : ℕ) : Option ℕ → ℕ
  | none => 0
  | some offset => start + offset

/-- The action with addresses in place of offsets. -/
def MemoryAllocator.Action.shift (start : ℕ) : Action → Action
  | .allocate bytes => .allocate bytes
  | .free offset => .free (start + offset)
  | .write offset byte => .write (start + offset) byte
  | .reset => .reset

/-- What the header of a block holds; the field for the size has 32 bits. -/
structure HeaderIs (mem : Memory) (block : Block) (link : ℕ) : Prop where
  size : BlockHeader.size mem block.header = block.size % 2 ^ 32
  canary : BlockHeader.canary mem block.header = kCanary
  next : BlockHeader.next mem block.header = link

theorem HeaderIs.congr {mem mem' : Memory} {block : Block} {link : ℕ} (h : HeaderIs mem block link)
    (hsame : block.SameHeader mem mem') : HeaderIs mem' block link where
  size := (hsame.load (show 0 + 4 ≤ 16 by decide)).trans h.size
  canary := (hsame.load (by decide)).trans h.canary
  next := hsame.next.trans h.next

/-- The header that is written to a place where zeroes are. -/
theorem headerIs_writeBlockHeader {mem : Memory} {addr bytes : ℕ}
    (hzero : ∀ x, addr ≤ x → x < addr + sizeOfBlockHeader → mem x = 0) :
    HeaderIs (writeBlockHeader mem addr bytes).1 ⟨addr, bytes⟩ 0 where
  size := by
    show load (store (store mem addr 4 bytes) (addr + 4) 4 kCanary) addr 4 = bytes % 2 ^ 32
    have hwidth : 256 ^ 4 = 2 ^ 32 := by decide
    rw [load_store_of_disjoint (by omega), load_store_mod (Nat.le_refl 4), hwidth]
  canary := load_store_self (by decide)
  next := by
    have hheader : sizeOfBlockHeader = 16 := rfl
    show load (store (store mem addr 4 bytes) (addr + 4) 4 kCanary) (addr + 8) 8 = 0
    rw [load_store_of_disjoint (by omega), load_store_of_disjoint (by omega)]
    exact load_eq_zero fun x hle hlt => hzero x (by omega) (by omega)

/-! ## Representation -/

namespace MemoryAllocator

/-- The heap holds the pool at the start of its arena. -/
structure Represents (heap : MemoryAllocator) (pool : Pool) : Prop where
  size : heap.arena.size = pool.size
  next : heap.next = heap.arena.start + pool.next
  next_le : heap.next ≤ heap.zfilled
  zfilled_le : heap.zfilled ≤ heap.arena.stop
  pages : 4096 ∣ heap.zfilled - heap.arena.start
  zero : ∀ x, heap.next ≤ x → x < heap.zfilled → heap.mem x = 0
  handedOut : heap.handedOut = pool.blocks.map (Block.shift heap.arena.start)
  live : heap.live = pool.live.map (Block.shift heap.arena.start)
  heads : ∀ c, heap.blockLists c =
    Pool.pointer heap.arena.start ((pool.lists c).head?.map Block.header)
  headers : ∀ block ∈ pool.blocks, HeaderIs heap.mem (block.shift heap.arena.start)
    (Pool.pointer heap.arena.start (pool.links block.header))
  contents : ∀ block ∈ pool.blocks, ∀ x, block.addr ≤ x → x < block.stop →
    heap.mem (heap.arena.start + x) = pool.contents x

variable {bits : Bithacks} {heap heap' : MemoryAllocator} {pool pool' : Pool} {block : Block}

/-- **After `Reset`** every heap represents the new pool. -/
theorem represents_reset (heap : MemoryAllocator) :
    heap.reset.Represents { size := heap.arena.size } where
  size := rfl
  next := rfl
  next_le := Nat.le_refl _
  zfilled_le := Nat.le_add_right _ _
  pages := by
    show 4096 ∣ heap.arena.start - heap.arena.start
    rw [Nat.sub_self]
    exact Nat.dvd_zero 4096
  zero x hle hlt := absurd hlt (Nat.not_lt.mpr hle)
  handedOut := rfl
  live := rfl
  heads _ := rfl
  headers _ hblock := absurd hblock List.not_mem_nil
  contents _ hblock := absurd hblock List.not_mem_nil

/-- A block lies before the bump pointer. -/
theorem Represents.stop_le (h : heap.Represents pool) (hvalid : pool.Valid)
    (hblock : block ∈ pool.blocks) : heap.arena.start + block.stop ≤ heap.next := by
  rw [h.next]
  exact Nat.add_le_add_left (hvalid.stop_le block hblock) _

/-! ### Bytes of a span -/

/-- Only the span of a block changes. -/
theorem Represents.setSpan (h : heap.Represents pool) (hvalid : pool.Valid)
    (hblock : block ∈ pool.blocks) {mem contents : Memory}
    (hmem : ∀ x, x < heap.arena.start + block.addr ∨ heap.arena.start + block.stop ≤ x →
      mem x = heap.mem x)
    (hcontents : ∀ x, x < block.addr ∨ block.stop ≤ x → contents x = pool.contents x)
    (hspan : ∀ x, block.addr ≤ x → x < block.stop → mem (heap.arena.start + x) = contents x) :
    { heap with mem := mem }.Represents { pool with contents := contents } := by
  have haddr : block.addr = block.header + 16 := rfl
  refine { h with
    zero := fun x hle hlt => ?_
    headers := fun other hother => (h.headers other hother).congr fun x hle hlt => ?_
    contents := fun other hother x hle hlt => ?_ }
  · have hstop := h.stop_le hvalid hblock
    have hle : heap.next ≤ x := hle
    exact (hmem x (Or.inr (by omega))).trans (h.zero x hle hlt)
  · have hle : heap.arena.start + other.header ≤ x := hle
    have hlt : x < heap.arena.start + other.addr := by rwa [Block.shift_addr] at hlt
    have hother' : other.stop = other.addr + other.size := rfl
    refine hmem x ?_
    by_cases heq : other = block
    · rw [← heq]
      exact Or.inl hlt
    · rcases hvalid.disjoint hother hblock heq with hbefore | hafter
      · left; omega
      · right; omega
  · by_cases heq : other = block
    · subst heq
      exact hspan x hle hlt
    · have hother' : other.addr = other.header + 16 := rfl
      have hout : x < block.addr ∨ block.stop ≤ x := by
        rcases hvalid.disjoint hother hblock heq with hbefore | hafter
        · left; omega
        · right; omega
      show mem (heap.arena.start + x) = contents x
      rw [hmem _ (by omega), hcontents x hout]
      exact h.contents other hother x hle hlt

/-- The span of a block is filled with zeroes. -/
theorem Represents.fillSpan (h : heap.Represents pool) (hvalid : pool.Valid)
    (hblock : block ∈ pool.blocks) :
    { heap with mem := fill heap.mem (heap.arena.start + block.addr) block.size 0 }.Represents
      { pool with contents := fill pool.contents block.addr block.size 0 } := by
  have hstop : block.stop = block.addr + block.size := rfl
  refine h.setSpan hvalid hblock (fun x hx => fill_of_not_mem (by omega))
    (fun x hx => fill_of_not_mem (by omega)) fun x hle hlt => ?_
  rw [fill_of_mem (by omega) (by omega), fill_of_mem hle (by omega)]

/-- A byte of a span is written. -/
theorem Represents.write (h : heap.Represents pool) (hvalid : pool.Valid)
    (hblock : block ∈ pool.blocks) {offset : ℕ} {byte : UInt8} (hle : block.addr ≤ offset)
    (hlt : offset < block.stop) :
    { heap with mem := Function.update heap.mem (heap.arena.start + offset) byte }.Represents
      { pool with contents := Function.update pool.contents offset byte } := by
  refine h.setSpan hvalid hblock (fun x hx => Function.update_of_ne (by omega) ..)
    (fun x hx => Function.update_of_ne (by omega) ..) fun x hle' hlt' => ?_
  by_cases heq : x = offset
  · subst heq
    rw [Function.update_self, Function.update_self]
  · rw [Function.update_of_ne (by omega), Function.update_of_ne heq]
    exact h.contents block hblock x hle' hlt'

/-! ### Free lists -/

/-- The head of a free list is taken. -/
theorem Represents.pop (h : heap.Represents pool) (hvalid : pool.Valid) {c : ℕ}
    {rest : List Block} (hlist : pool.lists c = block :: rest) :
    { heap with
      blockLists := Function.update heap.blockLists c
        (BlockHeader.next heap.mem (heap.arena.start + block.header)) }.Represents
          { pool with lists := Function.update pool.lists c rest } := by
  have hmem : block ∈ pool.lists c := by
    rw [hlist]
    exact List.mem_cons_self ..
  have hlinked : Pool.Linked pool.links (block :: rest) := hlist ▸ hvalid.linked c
  refine { h with heads := fun c' => ?_ }
  show Function.update heap.blockLists c _ c' = Pool.pointer heap.arena.start
    ((Function.update pool.lists c rest c').head?.map Block.header)
  by_cases heq : c' = c
  · subst heq
    rw [Function.update_self, Function.update_self, ← hlinked.1]
    exact (h.headers block (hvalid.free c' block hmem).1).next
  · rw [Function.update_of_ne heq, Function.update_of_ne heq]
    exact h.heads c'

/-- The head of a free list is a pointer. -/
theorem Represents.head_lt (h : heap.Represents pool) (hvalid : pool.Valid) (c : ℕ) :
    heap.blockLists c < 256 ^ 8 := by
  rw [h.heads c]
  cases hlist : pool.lists c with
  | nil => exact Nat.two_pow_pos 64
  | cons block rest =>
    have hmem : block ∈ pool.lists c := by
      rw [hlist]
      exact List.mem_cons_self ..
    have hle := h.stop_le hvalid (hvalid.free c block hmem).1
    have hnext := h.next_le.trans h.zfilled_le
    have hfits := heap.arena.fits
    have hstop : block.stop = block.header + 16 + block.size := rfl
    have harena : heap.arena.stop = heap.arena.start + heap.arena.size := rfl
    show heap.arena.start + block.header < 2 ^ 64
    omega

/-- A block becomes the head of a free list. -/
theorem Represents.push (h : heap.Represents pool) (hvalid : pool.Valid)
    (hblock : block ∈ pool.blocks) (c : ℕ) :
    { heap with
      mem := store heap.mem (heap.arena.start + block.header + 8) 8 (heap.blockLists c)
      blockLists := Function.update heap.blockLists c (heap.arena.start + block.header)
      }.Represents { pool with
        lists := Function.update pool.lists c (block :: pool.lists c)
        links := Function.update pool.links block.header
          ((pool.lists c).head?.map Block.header) } := by
  have haddr : block.addr = block.header + 16 := rfl
  have hstop : block.stop = block.addr + block.size := rfl
  refine { h with
    zero := fun x hle hlt => ?_
    heads := fun c' => ?_
    headers := fun other hother => ?_
    contents := fun other hother x hle hlt => ?_ }
  -- The link lies in the block's header, below what is still zero.
  · have hbefore := h.stop_le hvalid hblock
    have hle : heap.next ≤ x := hle
    exact (store_of_not_mem (Or.inr (by omega))).trans (h.zero x hle hlt)
  · show Function.update heap.blockLists c _ c' = Pool.pointer heap.arena.start
      ((Function.update pool.lists c (block :: pool.lists c) c').head?.map Block.header)
    by_cases heq : c' = c
    · subst heq
      rw [Function.update_self, Function.update_self]
      rfl
    · rw [Function.update_of_ne heq, Function.update_of_ne heq]
      exact h.heads c'
  · show HeaderIs _ _ (Pool.pointer heap.arena.start (Function.update pool.links block.header
      ((pool.lists c).head?.map Block.header) other.header))
    by_cases heq : other = block
    · subst heq
      -- Size and canary of the same header stand before the link.
      rw [Function.update_self, ← h.heads c]
      obtain ⟨hsize, hcanary, -⟩ := h.headers other hother
      refine ⟨?_, ?_, load_store_self (h.head_lt hvalid c)⟩
      · rw [← hsize]
        exact load_store_of_disjoint (Or.inl (Nat.add_le_add_left (by decide) _))
      · rw [← hcanary]
        exact load_store_of_disjoint (Or.inl (Nat.le_refl _))
    -- Another block's header is disjoint from this block.
    · have hne : other.header ≠ block.header := fun hsame =>
        heq (hvalid.eq_of_header hother hblock hsame)
      rw [Function.update_of_ne hne]
      refine (h.headers other hother).congr fun x hle hlt => store_of_not_mem ?_
      have hle : heap.arena.start + other.header ≤ x := hle
      have hlt : x < heap.arena.start + other.addr := by rwa [Block.shift_addr] at hlt
      have hother' : other.stop = other.addr + other.size := rfl
      rcases hvalid.disjoint hother hblock heq with hbefore | hafter
      · left; omega
      · right; omega
  · show store heap.mem (heap.arena.start + block.header + 8) 8 _ (heap.arena.start + x) =
      pool.contents x
    refine (store_of_not_mem ?_).trans (h.contents other hother x hle hlt)
    have hother' : other.addr = other.header + 16 := rfl
    by_cases heq : other = block
    · subst heq
      right; omega
    · rcases hvalid.disjoint hother hblock heq with hbefore | hafter
      · left; omega
      · right; omega

/-! ### New blocks -/

/-- One `memset` of `ZeroFillTo` moves the frontier of the zeroes. -/
theorem Represents.zeroFill (h : heap.Represents pool) (hvalid : pool.Valid)
    (hroom : heap.zfilled + kZFillBlockSize ≤ heap.arena.stop) :
    { heap with
      mem := fill heap.mem heap.zfilled kZFillBlockSize 0
      zfilled := heap.zfilled + kZFillBlockSize
      zeroFills := heap.zeroFills ++ [ZeroFill.mk heap.zfilled heap.handedOut] }.Represents pool := by
  have hnext := h.next_le
  refine { h with
    next_le := hnext.trans (Nat.le_add_right _ _)
    zfilled_le := hroom
    pages := ?_
    zero := fun x hle hlt => ?_
    headers := fun block hblock => (h.headers block hblock).congr fun x _ hlt => ?_
    contents := fun block hblock x hle hlt => ?_ }
  · show 4096 ∣ heap.zfilled + 4096 - heap.arena.start
    have hpages := h.pages
    have hstart := h.next
    omega
  · show fill heap.mem heap.zfilled kZFillBlockSize 0 x = 0
    by_cases hold : x < heap.zfilled
    · rw [fill_of_not_mem (Or.inl hold)]
      exact h.zero x hle hold
    · exact fill_of_mem (Nat.not_lt.mp hold) hlt
  · have hbefore := h.stop_le hvalid hblock
    have hlt : x < heap.arena.start + block.addr := by rwa [Block.shift_addr] at hlt
    have hstop : block.stop = block.addr + block.size := rfl
    exact fill_of_not_mem (Or.inl (by omega))
  · have hbefore := h.stop_le hvalid hblock
    show fill heap.mem heap.zfilled kZFillBlockSize 0 (heap.arena.start + x) = pool.contents x
    exact (fill_of_not_mem (Or.inl (by omega))).trans (h.contents block hblock x hle hlt)

/-- A block is cut from the zeroes behind the bump pointer. -/
theorem Represents.cut (h : heap.Represents pool) (hvalid : pool.Valid) {bytes : ℕ}
    (hroom : heap.next + sizeOfBlockHeader + bytes < heap.zfilled) :
    { heap with
      mem := (writeBlockHeader heap.mem heap.next bytes).1
      next := (writeBlockHeader heap.mem heap.next bytes).2 + bytes
      handedOut := Block.mk heap.next bytes :: heap.handedOut }.Represents { pool with
        next := (Block.mk pool.next bytes).stop
        blocks := Block.mk pool.next bytes :: pool.blocks
        links := Function.update pool.links pool.next none
        contents := fill pool.contents (Block.mk pool.next bytes).addr bytes 0 } := by
  have hnext := h.next
  have hheader : sizeOfBlockHeader = 16 := rfl
  have hnew : (Block.mk pool.next bytes).shift heap.arena.start = ⟨heap.next, bytes⟩ := by
    rw [hnext]
    rfl
  have haddr : (Block.mk pool.next bytes).addr = pool.next + 16 := rfl
  have hstop : (Block.mk pool.next bytes).stop = pool.next + 16 + bytes := rfl
  refine { h with
    next := ?_
    next_le := ?_
    zero := fun x hle hlt => ?_
    handedOut := ?_
    headers := fun block hblock => ?_
    contents := fun block hblock x hle hlt => ?_ }
  · show heap.next + 16 + bytes = heap.arena.start + (pool.next + 16 + bytes)
    omega
  · exact hroom.le
  · have hle : heap.next + 16 + bytes ≤ x := hle
    exact (writeBlockHeader_of_not_mem (by omega)).trans (h.zero x (by omega) hlt)
  · rw [List.map_cons, hnew, h.handedOut]
  · show HeaderIs _ _ (Pool.pointer heap.arena.start
      (Function.update pool.links pool.next none block.header))
    rcases List.mem_cons.mp hblock with rfl | hblock
    · rw [Function.update_self, hnew]
      -- The header's link is not written: the fresh memory there is zero, the null pointer.
      exact headerIs_writeBlockHeader fun x hle hlt => h.zero x hle (by omega)
    · have hbefore := hvalid.stop_le block hblock
      have hstop' : block.stop = block.header + 16 + block.size := rfl
      rw [Function.update_of_ne (by omega)]
      refine (h.headers block hblock).congr fun x _ hlt => writeBlockHeader_of_not_mem (Or.inl ?_)
      have haddr' : block.addr = block.header + 16 := rfl
      have hlt : x < heap.arena.start + block.addr := by rwa [Block.shift_addr] at hlt
      omega
  · show (writeBlockHeader heap.mem heap.next bytes).1 (heap.arena.start + x) =
      fill pool.contents (Block.mk pool.next bytes).addr bytes 0 x
    rcases List.mem_cons.mp hblock with rfl | hblock
    · rw [fill_of_mem hle (by omega), writeBlockHeader_of_not_mem (by omega)]
      exact h.zero _ (by omega) (by omega)
    · have hbefore := hvalid.stop_le block hblock
      rw [fill_of_not_mem (by omega), writeBlockHeader_of_not_mem (by omega)]
      exact h.contents block hblock x hle hlt

/-! ## Refinement -/

/-- A heap of the arena that represents the pool. -/
structure Keeps (arena : Arena) (heap : MemoryAllocator) (pool : Pool) : Prop where
  arena : heap.arena = arena
  represents : heap.Represents pool

/-- An address and a heap in an arena, against an offset and a pool. -/
structure Returns (arena : Arena) (result : ℕ × MemoryAllocator) (result' : ℕ × Pool) : Prop where
  addr : result.1 = arena.start + result'.1
  /-- The offset is that behind an aligned header. -/
  offset : ∃ header, 16 ∣ header ∧ result'.1 = header + sizeOfBlockHeader
  keeps : Keeps arena result.2 result'.2

/-- `AllocateNewBlock` cuts a block of the pool. -/
theorem Represents.allocateNewBlock (h : heap.Represents pool) (hvalid : pool.Valid)
    (bytes : ℕ) : Agree (Returns heap.arena) (heap.allocateNewBlock bytes) (pool.cut bytes) := by
  have hstart := heap.arena.aligned
  have haligned : (heap.next % kRequiredAlignment == 0) = true := by
    refine beq_iff_eq.mpr (Nat.mod_eq_zero_of_dvd ?_)
    rw [h.next]
    exact Nat.dvd_add hstart hvalid.aligned
  have hstop : heap.arena.stop = heap.arena.start + pool.size := by
    rw [← h.size]
    rfl
  have hnext := h.next
  rw [MemoryAllocator.allocateNewBlock, haligned, Pool.cut]
  by_cases hover : heap.overflow bytes = true
  · have hover' : pool.next + sizeOfBlockHeader + bytes ≥ pool.size := by
      rw [overflow, decide_eq_true_eq] at hover
      omega
    rw [if_pos hover, if_pos hover']
    exact Agree.error _
  · have hpos : heap.next + sizeOfBlockHeader + bytes < heap.arena.stop := by
      rw [overflow, decide_eq_true_eq] at hover
      omega
    obtain ⟨heap', hloop, hroom, ⟨harena, hrepresents⟩, hnext'⟩ := exists_zeroFillTo
      (I := fun heap' => Keeps heap.arena heap' pool ∧ heap'.next = heap.next) ⟨⟨rfl, h⟩, rfl⟩
      (lt_turns (heap.next + sizeOfBlockHeader + bytes) heap.zfilled) (by
        rintro heap' ⟨⟨harena, hrepresents⟩, hnext'⟩ hle
        refine ⟨⟨harena, hrepresents.zeroFill hvalid (page_le ?_ hrepresents.pages hle ?_)⟩, hnext'⟩
        · have hnext := hrepresents.next
          have hle := hrepresents.next_le
          omega
        · rwa [harena])
    rw [if_neg hover, if_neg (by omega)]
    show Agree _ (heap.zeroFillTo _ _ >>= _) _
    rw [hloop]
    rw [← hnext'] at hroom
    refine Agree.ok ⟨?_, ⟨pool.next, hvalid.aligned, rfl⟩, harena, hrepresents.cut hvalid hroom⟩
    show heap'.next + sizeOfBlockHeader = heap.arena.start + (pool.next + sizeOfBlockHeader)
    omega

/-- `DoAllocate` takes the block that the pool takes. -/
theorem Represents.doAllocate (hbits : bits.Spec) (h : heap.Represents pool) (hvalid : pool.Valid)
    {bytes : ℕ} (hsmall : ¬ isAllocationTooLarge bytes = true) :
    Agree (Returns heap.arena) (heap.doAllocate bits bytes) (pool.allocate bits bytes) := by
  obtain ⟨k, -, -, hk⟩ := isSpanSize_allocToPowerOf2 hbits hsmall
  have hnew := h.allocateNewBlock hvalid (allocToPowerOf2 bits bytes)
  rw [MemoryAllocator.doAllocate, Pool.allocate, if_neg hsmall]
  rw [hk] at hnew ⊢
  rw [getAllocClass_two_pow hbits, Outcome.ok_bind]
  cases hlist : pool.lists (classOf (2 ^ k)) with
  | nil =>
    have hhead : heap.blockLists (classOf (2 ^ k)) = 0 := by
      rw [h.heads, hlist]
      rfl
    split
    · exact hnew
    · rw [tryAcquire_of_empty (classOf_le _) hhead, Outcome.ok_bind]
      exact hnew
  | cons block rest =>
    have hmem : block ∈ pool.lists (classOf (2 ^ k)) := by
      rw [hlist]
      exact List.mem_cons_self ..
    obtain ⟨hblock, hlarge, hclass, -⟩ := hvalid.free _ block hmem
    have hhead : heap.blockLists (classOf (2 ^ k)) = heap.arena.start + block.header := by
      rw [h.heads, hlist]
      rfl
    have hne : heap.blockLists (classOf (2 ^ k)) ≠ 0 := by
      have hpos := heap.arena.start_pos
      omega
    -- a block in a free list has at most `2 ^ 13` bytes
    have hsize : BlockHeader.size heap.mem (heap.arena.start + block.header) = block.size := by
      refine (h.headers block hblock).size.trans (Nat.mod_eq_of_lt ?_)
      have hle : classOf block.size ≤ kMaxClassIndex := classOf_le _
      have hsmall' : classOf block.size ≠ kLargeAllocClass := by rwa [hclass]
      show block.size < 2 ^ 32
      rw [eq_of_classOf hsmall']
      exact Nat.pow_lt_pow_right (by decide) (by unfold kMaxClassIndex at hle; omega)
    rw [if_neg hlarge, tryAcquire_of_ne (classOf_le _) hne, Outcome.ok_bind, hhead]
    obtain ⟨hvalid', hfresh⟩ := hvalid.pop hlist
    have hpop := (h.pop hvalid hlist).fillSpan hvalid' hfresh.mem
    refine Agree.ok ⟨?_, ⟨block.header, hvalid.header block hblock, rfl⟩, rfl, ?_⟩
    · exact Nat.add_assoc ..
    · dsimp only
      rw [hsize, show heap.arena.start + block.header + sizeOfBlockHeader =
        heap.arena.start + block.addr from Nat.add_assoc ..]
      exact hpop

/-- **`Allocate`** returns the address of the offset that the pool returns. -/
theorem Represents.allocate (hbits : bits.Spec) (h : heap.Represents pool) (hvalid : pool.Valid)
    (bytes : ℕ) :
    Agree (Returns heap.arena) (heap.allocate bits bytes) (pool.allocate bits bytes) := by
  by_cases hsmall : isAllocationTooLarge bytes = true
  · rw [MemoryAllocator.allocate, Pool.allocate, if_pos hsmall, if_pos hsmall]
    exact Agree.error _
  · rw [MemoryAllocator.allocate, if_neg hsmall, ← bind_pure (pool.allocate bits bytes)]
    refine (h.doAllocate hbits hvalid hsmall).bind fun result result' hreturns => ?_
    obtain ⟨header, hdvd, hoffset⟩ := hreturns.offset
    have haligned : (result.1 % kRequiredAlignment == 0) = true := by
      have hstart := heap.arena.aligned
      rw [beq_iff_eq, hreturns.addr, hoffset, sizeOfBlockHeader, kRequiredAlignment]
      omega
    dsimp only
    rw [haligned]
    exact Agree.ok hreturns

/-- **`Free`** of a live block does what the pool does. -/
theorem Represents.free (h : heap.Represents pool) (hvalid : pool.Valid)
    (hblock : block ∈ pool.live) :
    Agree (Keeps heap.arena) (heap.free bits (heap.arena.start + block.addr))
      (pool.free bits block) := by
  have hmem := hvalid.live block hblock
  obtain ⟨hsize, hcanary, -⟩ := h.headers block hmem
  have hstop := h.stop_le hvalid hmem
  have hend := h.next_le.trans h.zfilled_le
  have hpos := (hvalid.size block hmem).pos
  have haddr : block.addr = block.header + 16 := rfl
  have hstop' : block.stop = block.addr + block.size := rfl
  have hnull : (heap.arena.start + block.addr != 0) = true := by
    rw [bne_iff_ne]
    omega
  have hfrom : heap.fromHere (heap.arena.start + block.addr) = true := by
    rw [fromHere, Bool.and_eq_true, decide_eq_true_eq, decide_eq_true_eq]
    omega
  have hheader : locateBlockHeader (heap.arena.start + block.addr) =
      (block.shift heap.arena.start).header := by
    show heap.arena.start + (block.header + 16) - 16 = heap.arena.start + block.header
    omega
  rw [MemoryAllocator.free, hnull, hfrom, hheader]
  dsimp only
  rw [hcanary, hsize, Pool.free]
  show Agree _ (getAllocClass bits (block.size % 2 ^ 32) >>= _) _
  cases hclass : getAllocClass bits (block.size % 2 ^ 32) with
  | error failure => exact Agree.error failure
  | ok c =>
    rw [Outcome.ok_bind, Outcome.ok_bind]
    by_cases hlarge : c = kLargeAllocClass
    · rw [if_pos hlarge, if_pos hlarge]
      exact Agree.ok ⟨rfl, h⟩
    · have hle : decide (c ≤ kMaxClassIndex) = true := by
        obtain ⟨_, -, hc⟩ := Outcome.bind_eq_ok.mp hclass
        rw [← Outcome.pure_eq_ok.mp hc]
        exact decide_eq_true (classOf_le _)
      rw [if_neg hlarge, if_neg hlarge, release, hsize]
      show Agree _ (getAllocClass bits (block.size % 2 ^ 32) >>= _) _
      rw [hclass, Outcome.ok_bind, hle]
      exact Agree.ok ⟨rfl, h.push hvalid hmem c⟩

/-- **One action** has the same outcome for a heap and for the pool that it represents. -/
theorem Represents.execute (hbits : bits.Spec) (h : heap.Represents pool) (hvalid : pool.Valid)
    {action : Action} (hallowed : pool.Allowed action) :
    Agree (Keeps heap.arena) (heap.execute bits (action.shift heap.arena.start))
      (pool.execute bits action) := by
  cases action with
  | allocate bytes =>
    refine (h.allocate hbits hvalid bytes).bind fun result result' hreturns => ?_
    obtain ⟨haddr, ⟨header, -, hoffset⟩, harena, hkeeps⟩ := hreturns
    refine Agree.ok ⟨harena, { hkeeps with live := ?_ }⟩
    have hlocate : locateBlockHeader result.1 = result.2.arena.start + locateBlockHeader result'.1 := by
      rw [haddr, harena, hoffset]
      exact Nat.add_sub_assoc (Nat.le_add_left _ _) _
    show _ :: result.2.live = _ :: List.map _ result'.2.live
    rw [hkeeps.live, hlocate]
    rfl
  | free offset =>
    obtain ⟨block, hblock, rfl⟩ := hallowed
    unfold Pool.execute
    dsimp only
    rw [hvalid.find?_live hblock]
    refine (h.free hvalid hblock).bind fun heap' pool' hkeeps => ?_
    obtain ⟨harena, hkeeps⟩ := hkeeps
    refine Agree.ok ⟨harena, { hkeeps with live := ?_ }⟩
    show List.filter _ heap'.live = List.map _ (List.filter _ pool'.live)
    rw [hkeeps.live, harena, List.filter_map]
    congr 1
    refine List.filter_congr fun other _ => ?_
    show decide ((other.shift heap.arena.start).addr ≠ _) = decide (other.addr ≠ block.addr)
    rw [Block.shift_addr, decide_eq_decide, ne_eq, Nat.add_left_cancel_iff]
  | write offset byte =>
    obtain ⟨block, hblock, hle, hlt⟩ := hallowed
    exact Agree.ok ⟨rfl, h.write hvalid (hvalid.live block hblock) hle hlt⟩
  | reset =>
    refine Agree.ok ⟨rfl, ?_⟩
    rw [← h.size]
    exact represents_reset heap

end MemoryAllocator

end Whirl.Memory
