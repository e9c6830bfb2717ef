/-
# The memory contract of a process heap

The invariant holds in every run in which the user requests at most `2 ^ 31` bytes at a
time, frees what is live, and writes to what is live.  In such a run the only failure is
an arena that is full, and every address that is returned is aligned, lies in the arena,
holds zeroes and shares no byte with another live block.
-/
import WhirlMatrix.Library.Runs
import WhirlMatrix.Memory.Invariant
import Mathlib.Data.List.Nodup
import Mathlib.Data.Nat.Log

namespace Whirl.Memory

open ByteMemory

namespace MemoryAllocator

variable {bits : Bithacks} {heap heap' : MemoryAllocator} {lists : ℕ → List Block}

/-! ## What the functions do -/

/-- A block that is ready to be held by the user. -/
structure Ready (heap : MemoryAllocator) (lists : ℕ → List Block) (block : Block) : Prop where
  sound : heap.Sound lists
  handedOut : block ∈ heap.handedOut
  not_live : block ∉ heap.live
  not_free : ∀ c, block ∉ lists c
  zero : ∀ x, block.addr ≤ x → x < block.stop → heap.mem x = 0

/-- A block that is cut holds zeroes and is not known yet. -/
theorem Sound.ready_cut (h : heap.Sound lists) {bytes : ℕ} (hsize : IsBlockSize bytes)
    (hroom : heap.next + sizeOfBlockHeader + bytes < heap.zfilled) :
    { heap with
      mem := (writeBlockHeader heap.mem heap.next bytes).1
      next := (writeBlockHeader heap.mem heap.next bytes).2 + bytes
      handedOut := Block.mk heap.next bytes :: heap.handedOut }.Ready lists
        (Block.mk heap.next bytes) := by
  have hunknown : Block.mk heap.next bytes ∉ heap.handedOut := by
    intro hmem
    have hstop : heap.next + 16 + bytes ≤ heap.next := (h.placed _ hmem).stop_le
    omega
  refine ⟨h.cut hsize hroom, List.mem_cons_self .., fun hlive => hunknown (h.live _ hlive),
    fun c hfree => hunknown (h.free c _ hfree).1, fun x hle hlt => ?_⟩
  have hle : heap.next + 16 ≤ x := hle
  have hlt : x < heap.next + 16 + bytes := hlt
  have hheader : sizeOfBlockHeader = 16 := rfl
  exact (writeBlockHeader_of_not_mem (by omega)).trans (h.zero x (by omega) (by omega))

/-- A new block is cut, unless the arena is full. -/
theorem Sound.allocateNewBlock (h : heap.Sound lists) {bytes : ℕ} (hsize : IsBlockSize bytes) :
    heap.allocateNewBlock bytes = .error (arenaOverflow bytes) ∨
      ∃ block heap', heap.allocateNewBlock bytes = .ok (block.addr, heap') ∧ block.size = bytes ∧
        heap'.arena = heap.arena ∧ heap'.live = heap.live ∧ heap'.Ready lists block := by
  have haligned : (heap.next % kRequiredAlignment == 0) = true :=
    beq_iff_eq.mpr (Nat.mod_eq_zero_of_dvd h.aligned)
  rw [MemoryAllocator.allocateNewBlock, haligned]
  by_cases hover : heap.overflow bytes = true
  · left
    rw [if_pos hover]
    rfl
  · right
    have hpos : heap.next + sizeOfBlockHeader + bytes < heap.arena.stop := by
      rw [overflow, decide_eq_true_eq] at hover
      omega
    obtain ⟨mem, zfilled, zeroFills, hroom, hloop, hsound⟩ := h.zeroFillTo hpos (lt_turns _ _)
    have hready := hsound.ready_cut hsize hroom
    refine ⟨⟨heap.next, bytes⟩, _, ?_, rfl, ?_, ?_, hready⟩
    · rw [if_neg hover]
      show (heap.zeroFillTo _ _ >>= _) = _
      rw [hloop]
      rfl
    · rfl
    · rfl

/-- A block of the free list of its class is taken and filled with zeroes. -/
theorem Sound.reuse (h : heap.Sound lists) {bytes : ℕ} (hlarge : classOf bytes ≠ kLargeAllocClass)
    (hhead : heap.blockLists (classOf bytes) ≠ 0) :
    ∃ (block : Block) (lists' : ℕ → List Block), heap.blockLists (classOf bytes) = block.header ∧
      block.size = bytes ∧ { heap with
        mem := fill heap.mem block.addr (BlockHeader.size heap.mem block.header) 0
        blockLists := Function.update heap.blockLists (classOf bytes)
          (BlockHeader.next heap.mem block.header) }.Ready lists' block := by
  obtain ⟨block, rest, hblock, hlist, hsound⟩ := h.pop hhead
  have hmem : block ∈ lists (classOf bytes) := by
    rw [hlist]
    exact List.mem_cons_self ..
  obtain ⟨hhanded, hclass, hlive⟩ := h.free _ block hmem
  have hsize : BlockHeader.size heap.mem block.header = block.size :=
    (h.placed block hhanded).intact.1
  refine ⟨block, Function.update lists (classOf bytes) rest, hblock, ?_, ?_, hhanded, hlive,
    fun c hfree => ?_, fun x hle hlt => ?_⟩
  · rw [eq_of_classOf hlarge, ← hclass, ← eq_of_classOf]
    rw [hclass]
    exact hlarge
  · refine hsound.setSpan hhanded fun x hx => fill_of_not_mem ?_
    rw [hsize]
    exact hx
  · -- the block was once in the list of its class only
    rcases eq_or_ne c (classOf bytes) with rfl | hne
    · rw [Function.update_self] at hfree
      have hnodup := h.free_nodup (classOf bytes)
      rw [hlist] at hnodup
      exact (List.nodup_cons.mp hnodup).1 hfree
    · rw [Function.update_of_ne hne] at hfree
      exact hne ((h.free c block hfree).2.1.symm.trans hclass)
  · refine fill_of_mem hle ?_
    rw [hsize]
    exact hlt

/-- `TryAcquire` finds nothing in an empty list. -/
theorem tryAcquire_of_empty {c : ℕ} (hc : c ≤ kMaxClassIndex) (hhead : heap.blockLists c = 0) :
    heap.tryAcquire c = .ok (none, heap) := by
  rw [tryAcquire, decide_eq_true hc]
  dsimp only
  rw [if_pos hhead]
  rfl

/-- `TryAcquire` takes the head of a list. -/
theorem tryAcquire_of_ne {c : ℕ} (hc : c ≤ kMaxClassIndex) (hhead : heap.blockLists c ≠ 0) :
    heap.tryAcquire c = .ok (some (heap.blockLists c), { heap with
      blockLists := Function.update heap.blockLists c
        (BlockHeader.next heap.mem (heap.blockLists c)) }) := by
  rw [tryAcquire, decide_eq_true hc]
  dsimp only
  rw [if_neg hhead]
  rfl

/-- `DoAllocate` finds a block that is ready, unless the arena is full. -/
theorem Sound.doAllocate (hbits : bits.Spec) (h : heap.Sound lists) {bytes : ℕ}
    (hsize : IsBlockSize (allocToPowerOf2 bits bytes)) :
    heap.doAllocate bits bytes = .error (arenaOverflow (allocToPowerOf2 bits bytes)) ∨
      ∃ block heap' lists', heap.doAllocate bits bytes = .ok (block.addr, heap') ∧
        block.size = allocToPowerOf2 bits bytes ∧ heap'.arena = heap.arena ∧
        heap'.live = heap.live ∧ heap'.Ready lists' block := by
  have hnew := h.allocateNewBlock hsize
  rw [MemoryAllocator.doAllocate, getAllocClass_of_isBlockSize hbits hsize, Outcome.ok_bind]
  by_cases hlarge : classOf (allocToPowerOf2 bits bytes) = kLargeAllocClass
  · rw [if_pos hlarge]
    rcases hnew with hfull | ⟨block, heap', hrun, hnew⟩
    · exact Or.inl hfull
    · exact Or.inr ⟨block, heap', lists, hrun, hnew⟩
  · rw [if_neg hlarge]
    by_cases hhead : heap.blockLists (classOf (allocToPowerOf2 bits bytes)) = 0
    · rw [tryAcquire_of_empty (classOf_le _) hhead, Outcome.ok_bind]
      rcases hnew with hfull | ⟨block, heap', hrun, hnew⟩
      · exact Or.inl hfull
      · exact Or.inr ⟨block, heap', lists, hrun, hnew⟩
    · right
      obtain ⟨block, lists', hblock, hsize', hready⟩ := h.reuse hlarge hhead
      rw [tryAcquire_of_ne (classOf_le _) hhead, Outcome.ok_bind, hblock]
      exact ⟨block, _, lists', rfl, hsize', rfl, rfl, hready⟩

/-- **`Allocate` on a sound heap** finds a block that is ready, unless the arena is full. -/
theorem Sound.allocate (hbits : bits.Spec) (h : heap.Sound lists) {bytes : ℕ}
    (hbytes : bytes ≤ 2 ^ 31) :
    heap.allocate bits bytes = .error (arenaOverflow (allocToPowerOf2 bits bytes)) ∨
      ∃ block heap' lists', heap.allocate bits bytes = .ok (block.addr, heap') ∧
        block.size = allocToPowerOf2 bits bytes ∧ heap'.arena = heap.arena ∧
        heap'.live = heap.live ∧ heap'.Ready lists' block := by
  have hsmall : ¬ isAllocationTooLarge bytes = true := by
    rw [isAllocationTooLarge, decide_eq_true_eq]
    omega
  rw [MemoryAllocator.allocate, if_neg hsmall]
  rcases h.doAllocate hbits (isBlockSize_allocToPowerOf2 hbits hbytes).1 with
    hfull | ⟨block, heap', lists', hrun, hrest⟩
  · left
    rw [hfull]
    rfl
  · right
    refine ⟨block, heap', lists', ?_, hrest⟩
    have hready : heap'.Ready lists' block := hrest.2.2.2
    have haligned : (block.addr % kRequiredAlignment == 0) = true := by
      have hdvd := (hready.sound.placed block hready.handedOut).aligned
      rw [beq_iff_eq, Block.addr, sizeOfBlockHeader, kRequiredAlignment]
      omega
    rw [hrun]
    show (verify (block.addr % kRequiredAlignment == 0) _ >>= _) = _
    rw [haligned]
    rfl

/-- **`Free` of a live block** succeeds. -/
theorem Sound.free_eq_ok (hbits : bits.Spec) (h : heap.Sound lists) {block : Block}
    (hblock : block ∈ heap.live) :
    heap.free bits block.addr = .ok (if classOf block.size = kLargeAllocClass then heap else
      { heap with
        mem := store heap.mem (block.header + 8) 8 (heap.blockLists (classOf block.size))
        blockLists := Function.update heap.blockLists (classOf block.size) block.header }) := by
  have hplaced := h.placed block (h.live block hblock)
  obtain ⟨hsize, hcanary⟩ := hplaced.intact
  have hstop := hplaced.stop_le
  have hstart := hplaced.start_le
  have hend := h.next_le.trans h.zfilled_le
  have haddr : block.addr = block.header + 16 := rfl
  have hstop' : block.stop = block.header + 16 + block.size := rfl
  have hpos := hplaced.size.ge
  have hnull : (block.addr != 0) = true := by
    rw [bne_iff_ne]
    omega
  have hfrom : heap.fromHere block.addr = true := by
    rw [fromHere, Bool.and_eq_true, decide_eq_true_eq, decide_eq_true_eq]
    omega
  have hheader : locateBlockHeader block.addr = block.header := Nat.add_sub_cancel ..
  rw [MemoryAllocator.free, hnull, hfrom, hheader]
  dsimp only
  rw [hcanary, hsize, getAllocClass_of_isBlockSize hbits hplaced.size]
  show (if classOf block.size = kLargeAllocClass then _ else _) = _
  split
  · rfl
  · rw [release, hsize, getAllocClass_of_isBlockSize hbits hplaced.size, Outcome.ok_bind,
      decide_eq_true (classOf_le block.size)]
    rfl

/-- A live block that is freed enters the free list of its class. -/
theorem Sound.giveBack (hbits : bits.Spec) (h : heap.Sound lists) {block : Block}
    (hblock : block ∈ heap.live) (hfree : heap.free bits block.addr = .ok heap') :
    heap'.arena = heap.arena ∧ ∃ lists',
      { heap' with live := heap'.live.filter fun other => other.addr ≠ block.addr }.Sound lists' := by
  have hdrop := h.drop fun other => decide (other.addr ≠ block.addr)
  rw [h.free_eq_ok hbits hblock] at hfree
  split at hfree
  · obtain rfl := Except.ok.inj hfree
    exact ⟨rfl, lists, hdrop⟩
  · obtain rfl := Except.ok.inj hfree
    refine ⟨rfl, _, hdrop.push (h.live block hblock) ?_ (fun c hmem => ?_) rfl⟩
    · simp
    · exact (h.free c block hmem).2.2 hblock

/-! ## Runs -/

/-- A byte of a live block is written. -/
theorem Sound.write (h : heap.Sound lists) {block : Block} (hblock : block ∈ heap.live) {addr : ℕ}
    {byte : UInt8} (hle : block.addr ≤ addr) (hlt : addr < block.stop) :
    { heap with mem := Function.update heap.mem addr byte }.Sound lists := by
  refine h.setSpan (h.live block hblock) fun x hx => Function.update_of_ne ?_ ..
  omega

/-- After `Reset` nothing is handed out. -/
theorem sound_reset (heap : MemoryAllocator)
    (hfills : ∀ zeroFill ∈ heap.zeroFills, heap.arena.start ≤ zeroFill.start ∧
      zeroFill.start + kZFillBlockSize ≤ heap.arena.stop ∧
        ∀ block ∈ zeroFill.handedOut, block.stop ≤ zeroFill.start) :
    heap.reset.Sound fun _ => [] where
  aligned := heap.arena.aligned
  start_le := Nat.le_refl _
  next_le := Nat.le_refl _
  zfilled_le := Nat.le_add_right _ _
  pages := by
    show 4096 ∣ heap.arena.start - heap.arena.start
    rw [Nat.sub_self]
    exact Nat.dvd_zero 4096
  zero x hle hlt := absurd hlt (Nat.not_lt.mpr hle)
  placed block hblock := absurd hblock List.not_mem_nil
  apart := List.Pairwise.nil
  live block hblock := absurd hblock List.not_mem_nil
  live_nodup := List.nodup_nil
  chain _ := rfl
  free _ block hblock := absurd hblock List.not_mem_nil
  free_nodup _ := List.nodup_nil
  zeroFills := hfills

/-- **One action keeps the heap sound.** -/
theorem Sound.execute (hbits : bits.Spec) (h : heap.Sound lists) {action : Action}
    (hallowed : Allowed heap action) (hrun : heap.execute bits action = .ok heap') :
    heap'.arena = heap.arena ∧ ∃ lists', heap'.Sound lists' := by
  cases action with
  | allocate bytes =>
    obtain ⟨⟨addr, heap₁⟩, hallocate, hrun⟩ := Outcome.bind_eq_ok.mp hrun
    obtain rfl := Outcome.pure_eq_ok.mp hrun
    rcases h.allocate hbits hallowed with hfull | ⟨block, heap₂, lists', hrun, hsize, harena, -, hready⟩
    · exact absurd (hfull.symm.trans hallocate) (by simp)
    · obtain ⟨rfl, rfl⟩ := Prod.mk.inj (Except.ok.inj (hallocate.symm.trans hrun))
      have hblock : (⟨locateBlockHeader block.addr, allocToPowerOf2 bits bytes⟩ : Block) = block := by
        rw [← hsize]
        rfl
      dsimp only
      rw [hblock]
      exact ⟨harena, lists', hready.sound.hold hready.handedOut hready.not_live hready.not_free⟩
  | free addr =>
    obtain ⟨block, hblock, rfl⟩ := hallowed
    obtain ⟨heap₁, hfree, hrun⟩ := Outcome.bind_eq_ok.mp hrun
    obtain rfl := Outcome.pure_eq_ok.mp hrun
    exact h.giveBack hbits hblock hfree
  | write addr byte =>
    obtain ⟨block, hblock, hle, hlt⟩ := hallowed
    obtain rfl := Except.ok.inj hrun
    exact ⟨rfl, lists, h.write hblock hle hlt⟩
  | reset =>
    obtain rfl := Except.ok.inj hrun
    exact ⟨rfl, _, sound_reset heap h.zeroFills⟩

/-! ## The contract -/

/-- What `Allocate` guarantees for the address that it returns. -/
structure Allocated (bits : Bithacks) (heap : MemoryAllocator) (bytes addr : ℕ)
    (heap' : MemoryAllocator) : Prop where
  aligned : 16 ∣ addr
  start_le : heap.arena.start ≤ addr
  le_stop : addr + bytes ≤ heap.arena.stop
  zero : ∀ x, addr ≤ x → x < addr + bytes → heap'.mem x = 0
  /-- The block, its header included, shares no byte with another live block. -/
  disjoint : ∀ block ∈ heap.live,
    (Block.mk (locateBlockHeader addr) (allocToPowerOf2 bits bytes)).Disjoint block

/-- The memory contract of a heap. -/
structure Contract (bits : Bithacks) (heap : MemoryAllocator) : Prop where
  /-- The only failure of `Allocate` is an arena that is full. -/
  allocate : ∀ bytes ≤ 2 ^ 31,
    heap.allocate bits bytes = .error (arenaOverflow (allocToPowerOf2 bits bytes)) ∨
      ∃ addr heap', heap.allocate bits bytes = .ok (addr, heap') ∧ Allocated bits heap bytes addr heap'
  /-- `Free` of a live block does not fail. -/
  free : ∀ block ∈ heap.live, ∃ heap', heap.free bits block.addr = .ok heap'
  live : heap.live.Pairwise Block.Disjoint
  /-- The zero-filling loop stayed inside the arena, and off the blocks handed out. -/
  zeroFills : ∀ zeroFill ∈ heap.zeroFills, heap.arena.start ≤ zeroFill.start ∧
    zeroFill.start + kZFillBlockSize ≤ heap.arena.stop ∧
      ∀ block ∈ zeroFill.handedOut, block.stop ≤ zeroFill.start

/-- A sound heap keeps the contract. -/
theorem Sound.contract (hbits : bits.Spec) (h : heap.Sound lists) : heap.Contract bits := by
  refine ⟨fun bytes hbytes => ?_, fun block hblock => ⟨_, h.free_eq_ok hbits hblock⟩, ?_, h.zeroFills⟩
  · rcases h.allocate hbits hbytes with hfull | ⟨block, heap', lists', hrun, hsize, harena, hlive, hready⟩
    · exact Or.inl hfull
    · refine Or.inr ⟨block.addr, heap', hrun, ?_⟩
      obtain ⟨-, hbig⟩ := isBlockSize_allocToPowerOf2 hbits hbytes
      have hsound := hready.sound
      have hplaced := hsound.placed block hready.handedOut
      have haligned := hplaced.aligned
      have hstart := hplaced.start_le
      have hstop := hplaced.stop_le.trans (hsound.next_le.trans hsound.zfilled_le)
      have haddr : block.addr = block.header + 16 := rfl
      have hend : block.stop = block.addr + block.size := rfl
      rw [harena] at hstart hstop
      refine ⟨by omega, by omega, by omega, fun x hle hlt => hready.zero x hle (by omega),
        fun other hother => ?_⟩
      have hblock : Block.mk (locateBlockHeader block.addr) (allocToPowerOf2 bits bytes) = block := by
        rw [← hsize]
        rfl
      rw [hblock]
      rw [← hlive] at hother
      refine hsound.disjoint hready.handedOut (hsound.live other hother) ?_
      rintro rfl
      exact hready.not_live hother
  · exact List.Nodup.pairwise_of_forall_ne h.live_nodup fun a ha b hb hne =>
      h.disjoint (h.live a ha) (h.live b hb) hne

/-- The constructor makes a sound heap of every arena, whatever its contents. -/
theorem sound_construct (arena : Arena) (mem : Memory) :
    ∃ heap, construct arena mem = .ok heap ∧ heap.arena = arena ∧ heap.Sound fun _ => [] := by
  have hpages : (arena.size % kZFillBlockSize == 0) = true :=
    beq_iff_eq.mpr (Nat.mod_eq_zero_of_dvd arena.pages)
  rw [construct, hpages]
  refine ⟨_, rfl, rfl, sound_reset _ fun _ hzeroFill => absurd hzeroFill List.not_mem_nil⟩

/-- **The memory contract holds in every run**, for every arena and any contents of it. -/
theorem contract_of_reaches (hbits : bits.Spec) (arena : Arena) (mem : Memory)
    {heap₀ : MemoryAllocator} (hstart : construct arena mem = .ok heap₀)
    (hrun : Runs.Reaches (execute bits) Allowed heap₀ heap) :
    heap.arena = arena ∧ heap.Contract bits := by
  obtain ⟨_, hconstruct, harena, hsound⟩ := sound_construct arena mem
  obtain rfl := Except.ok.inj (hstart.symm.trans hconstruct)
  have hinv : heap.arena = arena ∧ ∃ lists, heap.Sound lists := by
    refine hrun.invariant (I := fun heap => heap.arena = arena ∧ ∃ lists, heap.Sound lists)
      ⟨harena, _, hsound⟩ fun heap action heap' hI hallowed hstep => ?_
    obtain ⟨harena, lists, hsound⟩ := hI
    obtain ⟨harena', hsound'⟩ := hsound.execute hbits hallowed hstep
    exact ⟨harena'.trans harena, hsound'⟩
  obtain ⟨harena, lists, hsound⟩ := hinv
  exact ⟨harena, hsound.contract hbits⟩

/-! ## A short run -/

/-- Powers of two by their logarithms. -/
def bithacks : Bithacks where
  roundUpToNextPowerOfTwo n := 2 ^ Nat.clog 2 n
  isPowerOfTwo n := n == 2 ^ Nat.log 2 n

theorem spec_bithacks : bithacks.Spec where
  isLeast n _ := by
    refine ⟨⟨⟨_, rfl⟩, Nat.le_pow_clog (by decide) n⟩, ?_⟩
    rintro p ⟨⟨k, rfl⟩, hle⟩
    exact Nat.pow_le_pow_right (by decide) (Nat.clog_le_of_le_pow hle)
  isPowerOfTwo n := by
    show (n == 2 ^ Nat.log 2 n) = true ↔ _
    rw [beq_iff_eq]
    constructor
    · exact fun h => ⟨_, h⟩
    · rintro ⟨k, rfl⟩
      rw [Nat.log_pow (by decide)]

/-- An arena of two pages. -/
def twoPages : Arena := ⟨4096, 8192, by decide, by decide, by decide, by decide⟩

/-- A heap in an area that was used before. -/
def constructed : MemoryAllocator :=
  reset { arena := twoPages, mem := fun _ => 255, blockLists := fun _ => 0, next := 0, zfilled := 0 }

/-- A block is written to and freed, and then used again. -/
def reused : MemoryAllocator :=
  (Runs.exec (execute bithacks) Allowed constructed [.allocate 24, .allocate 100, .write 4112 7,
    .free 4112, .allocate 20]).getD constructed

/-- The contract holds after this run. -/
theorem contract_of_reaches_reused :
    reused.live = [⟨4096, 32⟩, ⟨4144, 128⟩] ∧ reused.arena = twoPages ∧ reused.Contract bithacks := by
  have hstart : construct twoPages (fun _ => 255) = .ok constructed := rfl
  have hrun : Runs.exec (execute bithacks) Allowed constructed [.allocate 24, .allocate 100,
      .write 4112 7, .free 4112, .allocate 20] = some reused := rfl
  exact ⟨by decide, contract_of_reaches spec_bithacks twoPages _ hstart (Runs.reaches_of_exec hrun)⟩

end MemoryAllocator

end Whirl.Memory
