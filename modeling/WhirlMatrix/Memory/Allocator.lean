/-
# The allocator of a process heap

`MemoryAllocator` of `memory/allocator.cpp`: a bump pointer, a frontier up to which the
arena is filled with zeroes, and a free list for each of ten block sizes.  The headers
of the blocks and the links of the free lists are bytes of the memory itself.

Addresses are natural numbers; arithmetic on pointers does not wrap.  `live`,
`handedOut` and `zeroFills` are proof-only: they record the blocks that the user holds,
the blocks that were cut from the arena since the last `Reset`, and what the loop of
`ZeroFillTo` wrote.
-/
import WhirlMatrix.Library.ByteMemory
import WhirlMatrix.Time

namespace Whirl.Memory

open ByteMemory

/-! ## Powers of two -/

/-- `wheels/support/bithacks.hpp`. -/
structure Bithacks where
  roundUpToNextPowerOfTwo : ℕ → ℕ
  isPowerOfTwo : ℕ → Bool

/-- `AllocToPowerOf2`. -/
def allocToPowerOf2 (bits : Bithacks) (bytes : ℕ) : ℕ :=
  let pow2 := bits.roundUpToNextPowerOfTwo bytes
  if pow2 ≥ 16 then pow2 else 16

/-- `kLargeAllocClass`. -/
def kLargeAllocClass : ℕ := 0

/-- `kMaxClassIndex`. -/
def kMaxClassIndex : ℕ := 10

/-- The `switch` of `GetAllocClass`. -/
def classOf : ℕ → ℕ
  | 16 => 1
  | 32 => 2
  | 64 => 3
  | 128 => 4
  | 256 => 5
  | 512 => 6
  | 1024 => 7
  | 2048 => 8
  | 4096 => 9
  | 8192 => 10
  | _ => kLargeAllocClass

/-- `GetAllocClass`. -/
def getAllocClass (bits : Bithacks) (bytesPow2 : ℕ) : Outcome ℕ := do
  verify (bits.isPowerOfTwo bytesPow2)
    s!"Memory allocator internal error: GetAllocClass expected ^2, value = {bytesPow2}"
  return classOf bytesPow2

/-! ## Blocks -/

/-- `sizeof(BlockHeader)`. -/
def sizeOfBlockHeader : ℕ := 16

/-- `kRequiredAlignment`. -/
def kRequiredAlignment : ℕ := 16

/-- `kCanary`. -/
def kCanary : ℕ := 23911147

namespace BlockHeader

/-- `BlockHeader::size`, a `uint32_t`. -/
def size (mem : Memory) (block : ℕ) : ℕ := load mem block 4

/-- `BlockHeader::canary`, a `uint32_t`. -/
def canary (mem : Memory) (block : ℕ) : ℕ := load mem (block + 4) 4

/-- `BlockHeader::next`, a pointer. -/
def next (mem : Memory) (block : ℕ) : ℕ := load mem (block + 8) 8

end BlockHeader

/-- `WriteBlockHeader`: the memory with the header, and the address after the header. -/
def writeBlockHeader (mem : Memory) (addr size : ℕ) : Memory × ℕ :=
  (store (store mem addr 4 size) (addr + 4) 4 kCanary, addr + sizeOfBlockHeader)

/-- `LocateBlockHeader`. -/
def locateBlockHeader (userAddr : ℕ) : ℕ := userAddr - sizeOfBlockHeader

/-- A block of the arena: the address of its header and the size of the span after it. -/
structure Block where
  header : ℕ
  size : ℕ
  deriving DecidableEq, Repr

namespace Block

/-- The address that the user gets. -/
def addr (block : Block) : ℕ := block.header + sizeOfBlockHeader

/-- The end of the block. -/
def stop (block : Block) : ℕ := block.addr + block.size

/-- Two blocks have no byte in common. -/
def Disjoint (a b : Block) : Prop := a.stop ≤ b.header ∨ b.stop ≤ a.header

end Block

/-! ## The arena -/

/-- `wheels::MmapAllocation`: an area of whole pages that is not at the null pointer. -/
structure Arena where
  start : ℕ
  size : ℕ
  start_pos : 0 < start
  aligned : 16 ∣ start
  pages : 4096 ∣ size
  /-- Pointers into the arena have 64 bits. -/
  fits : start + size ≤ 2 ^ 64

/-- `End`. -/
def Arena.stop (arena : Arena) : ℕ := arena.start + arena.size

/-- `kZFillBlockSize`. -/
def kZFillBlockSize : ℕ := 4096

/-- One `memset` of `ZeroFillTo`: its first address, and the blocks handed out before it. -/
structure ZeroFill where
  start : ℕ
  handedOut : List Block
  deriving DecidableEq, Repr

/-- `MemoryAllocator`, with the memory that it works on. -/
structure MemoryAllocator where
  arena : Arena
  mem : Memory
  /-- The heads of the block lists of `cache_`; 0 is the null pointer. -/
  blockLists : ℕ → ℕ
  next : ℕ
  zfilled : ℕ
  live : List Block := []
  handedOut : List Block := []
  zeroFills : List ZeroFill := []

namespace MemoryAllocator

/-- `Reset`. -/
def reset (heap : MemoryAllocator) : MemoryAllocator :=
  { heap with
    next := heap.arena.start
    zfilled := heap.arena.start
    blockLists := fun _ => 0
    live := []
    handedOut := [] }

/-- The constructor, for an arena with any contents. -/
def construct (arena : Arena) (mem : Memory) : Outcome MemoryAllocator := do
  verify (arena.size % kZFillBlockSize == 0) "Choose another kZFillBlockSize"
  return reset { arena := arena, mem := mem, blockLists := fun _ => 0, next := 0, zfilled := 0 }

/-- `FromHere`. -/
def fromHere (heap : MemoryAllocator) (addr : ℕ) : Bool :=
  addr ≥ heap.arena.start && addr < heap.arena.stop

/-- `BytesAllocated`. -/
def bytesAllocated (heap : MemoryAllocator) : ℕ := heap.next - heap.arena.start

/-- `Overflow`. -/
def overflow (heap : MemoryAllocator) (bytes : ℕ) : Bool :=
  heap.next + sizeOfBlockHeader + bytes ≥ heap.arena.stop

/-! ## Block lists -/

/-- `BlockCache::TryAcquire`: `TryPop` of the list of a class. -/
def tryAcquire (heap : MemoryAllocator) (classIndex : ℕ) :
    Outcome (Option ℕ × MemoryAllocator) := do
  verify (classIndex ≤ kMaxClassIndex) "Memory allocator internal error"
  let block := heap.blockLists classIndex
  if block = 0 then
    return (none, heap)
  else
    return (some block, { heap with
      blockLists := Function.update heap.blockLists classIndex (BlockHeader.next heap.mem block) })

/-- `BlockCache::Release`: `Push` to the list of the class of the block. -/
def release (bits : Bithacks) (heap : MemoryAllocator) (block : ℕ) : Outcome MemoryAllocator := do
  let classIndex ← getAllocClass bits (BlockHeader.size heap.mem block)
  verify (classIndex ≤ kMaxClassIndex) "Memory allocator internal error"
  return { heap with
    mem := store heap.mem (block + 8) 8 (heap.blockLists classIndex)
    blockLists := Function.update heap.blockLists classIndex block }

/-! ## New blocks -/

/-- The loop of `ZeroFillTo`.  The first argument bounds the number of tests of the loop
condition. -/
def zeroFillTo (pos : ℕ) : ℕ → MemoryAllocator → Outcome MemoryAllocator
  | 0, _ => .error .diverges
  | tests + 1, heap =>
    if pos ≥ heap.zfilled then
      zeroFillTo pos tests { heap with
        mem := fill heap.mem heap.zfilled kZFillBlockSize 0
        zfilled := heap.zfilled + kZFillBlockSize
        zeroFills := heap.zeroFills ++ [⟨heap.zfilled, heap.handedOut⟩] }
    else
      .ok heap

/-- The message of an allocation for which there is no room. -/
def arenaOverflow (bytes : ℕ) : Failure := .panic s!"Cannot allocate {bytes} bytes: arena overflow"

/-- `AllocateNewBlock`. -/
def allocateNewBlock (heap : MemoryAllocator) (bytes : ℕ) : Outcome (ℕ × MemoryAllocator) := do
  verify (heap.next % kRequiredAlignment == 0)
    "Memory allocator internal error: bump-pointer is not aligned"
  if heap.overflow bytes then
    .error (arenaOverflow bytes)
  -- incrementally fill heap with zeroes
  let pos := heap.next + sizeOfBlockHeader + bytes
  let heap ← heap.zeroFillTo pos ((pos - heap.zfilled) / kZFillBlockSize + 2)
  let (mem, userAddr) := writeBlockHeader heap.mem heap.next bytes
  return (userAddr, { heap with
    mem := mem
    next := userAddr + bytes
    handedOut := ⟨heap.next, bytes⟩ :: heap.handedOut })

/-- `DoAllocate`. -/
def doAllocate (bits : Bithacks) (heap : MemoryAllocator) (bytes : ℕ) :
    Outcome (ℕ × MemoryAllocator) := do
  let bytesPow2 := allocToPowerOf2 bits bytes
  let allocClass ← getAllocClass bits bytesPow2
  -- large allocation
  if allocClass = kLargeAllocClass then
    heap.allocateNewBlock bytesPow2
  else
    -- try cache
    let (block, heap) ← heap.tryAcquire allocClass
    match block with
    | some block =>
      let span := block + sizeOfBlockHeader
      return (span, { heap with mem := fill heap.mem span (BlockHeader.size heap.mem block) 0 })
    | none => heap.allocateNewBlock bytesPow2

/-- `IsAllocationTooLarge`. -/
def isAllocationTooLarge (bytes : ℕ) : Bool := bytes > 2 ^ 32 - 1

/-- `Allocate`. -/
def allocate (bits : Bithacks) (heap : MemoryAllocator) (bytes : ℕ) :
    Outcome (ℕ × MemoryAllocator) := do
  if isAllocationTooLarge bytes then
    .error (.panic s!"Allocation is too large: {bytes}")
  let (userAddr, heap) ← heap.doAllocate bits bytes
  verify (userAddr % kRequiredAlignment == 0)
    "Memory allocator internal error: allocated block is not aligned"
  return (userAddr, heap)

/-- `Free`. -/
def free (bits : Bithacks) (heap : MemoryAllocator) (addr : ℕ) : Outcome MemoryAllocator := do
  verify (addr != 0) "Suspicious delete nullptr"
  verify (heap.fromHere addr) "Do not mess with heaps"
  let header := locateBlockHeader addr
  verify (BlockHeader.canary heap.mem header == kCanary) "Memory allocator is broken"
  let allocClass ← getAllocClass bits (BlockHeader.size heap.mem header)
  if allocClass = kLargeAllocClass then
    return heap
  else
    heap.release bits header

/-! ## Runs -/

/-- What happens to a heap. -/
inductive Action where
  | allocate (bytes : ℕ)
  | free (addr : ℕ)
  /-- The user writes a byte. -/
  | write (addr : ℕ) (byte : UInt8)
  | reset
  deriving DecidableEq, Repr

/-- One action; the blocks that the user holds are recorded. -/
def execute (bits : Bithacks) (heap : MemoryAllocator) : Action → Outcome MemoryAllocator
  | .allocate bytes => do
    let (addr, heap) ← heap.allocate bits bytes
    return { heap with
      live := ⟨locateBlockHeader addr, allocToPowerOf2 bits bytes⟩ :: heap.live }
  | .free addr => do
    let heap ← heap.free bits addr
    return { heap with live := heap.live.filter fun block => block.addr ≠ addr }
  | .write addr byte => .ok { heap with mem := Function.update heap.mem addr byte }
  | .reset => .ok heap.reset

/-- What the user may do: request up to `2 ^ 31` bytes, free what is live, and write to
what is live. -/
def Allowed (heap : MemoryAllocator) : Action → Prop
  | .allocate bytes => bytes ≤ 2 ^ 31
  | .free addr => ∃ block ∈ heap.live, block.addr = addr
  | .write addr _ => ∃ block ∈ heap.live, block.addr ≤ addr ∧ addr < block.stop
  | .reset => True

instance (heap : MemoryAllocator) (action : Action) : Decidable (Allowed heap action) := by
  cases action <;> unfold Allowed <;> infer_instance

end MemoryAllocator

end Whirl.Memory
