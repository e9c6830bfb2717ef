/-
# What a heap writes to

The actions of a heap write to its arena only, and a heap goes on to represent a pool when
something else writes to the memory outside its arena.
-/
import WhirlMatrix.Memory.Twins

namespace Whirl.Memory

open ByteMemory

/-! ## Memory outside an arena -/

/-- The bytes outside the arena are the same. -/
def Arena.SameOutside (arena : Arena) (mem mem' : Memory) : Prop :=
  ∀ x, x < arena.start ∨ arena.stop ≤ x → mem' x = mem x

namespace Arena.SameOutside

variable {arena : Arena} {mem mem' mem'' : Memory} {a n v : ℕ}

theorem refl (arena : Arena) (mem : Memory) : arena.SameOutside mem mem := fun _ _ => rfl

theorem trans (h : arena.SameOutside mem mem') (h' : arena.SameOutside mem' mem'') :
    arena.SameOutside mem mem'' := by
  intro x hx
  exact (h' x hx).trans (h x hx)

theorem fill (hstart : arena.start ≤ a) (hstop : a + n ≤ arena.stop) (byte : UInt8) :
    arena.SameOutside mem (ByteMemory.fill mem a n byte) := by
  intro x hx
  exact fill_of_not_mem (by omega)

theorem store (hstart : arena.start ≤ a) (hstop : a + n ≤ arena.stop) (v : ℕ) :
    arena.SameOutside mem (ByteMemory.store mem a n v) := by
  intro x hx
  exact store_of_not_mem (by omega)

theorem update (hstart : arena.start ≤ a) (hstop : a < arena.stop) (byte : UInt8) :
    arena.SameOutside mem (Function.update mem a byte) := by
  intro x hx
  exact Function.update_of_ne (by omega) ..

end Arena.SameOutside

namespace MemoryAllocator

variable {bits : Bithacks} {heap heap' : MemoryAllocator} {pool : Pool} {block : Block}

/-- A block lies in the arena. -/
theorem Represents.stop_le_stop (h : heap.Represents pool) (hvalid : pool.Valid)
    (hblock : block ∈ pool.blocks) : heap.arena.start + block.stop ≤ heap.arena.stop :=
  (h.stop_le hvalid hblock).trans (h.next_le.trans h.zfilled_le)

/-- **The memory outside the arena does not matter.** -/
theorem Represents.congr (h : heap.Represents pool) (hvalid : pool.Valid) {mem : Memory}
    (hsame : ∀ x, heap.arena.start ≤ x → x < heap.arena.stop → mem x = heap.mem x) :
    { heap with mem := mem }.Represents pool := by
  refine { h with
    zero := fun x hle hlt => ?_
    headers := fun block hblock => (h.headers block hblock).congr fun x hle hlt => ?_
    contents := fun block hblock x hle hlt => ?_ }
  · have hle : heap.next ≤ x := hle
    have hlt : x < heap.zfilled := hlt
    have hnext := h.next
    have hzfilled := h.zfilled_le
    exact (hsame x (by omega) (by omega)).trans (h.zero x hle hlt)
  · have hle : heap.arena.start + block.header ≤ x := hle
    have hlt : x < heap.arena.start + block.addr := by rwa [Block.shift_addr] at hlt
    have hstop := h.stop_le_stop hvalid hblock
    have haddr : block.stop = block.addr + block.size := rfl
    exact hsame x (by omega) (by omega)
  · have hstop := h.stop_le_stop hvalid hblock
    have hin : mem (heap.arena.start + x) = heap.mem (heap.arena.start + x) :=
      hsame _ (by omega) (by omega)
    exact hin.trans (h.contents block hblock x hle hlt)

/-! ## What the functions write to -/

/-- `AllocateNewBlock` writes zeroes and a header. -/
theorem Represents.sameOutside_allocateNewBlock (h : heap.Represents pool) (hvalid : pool.Valid)
    {bytes addr : ℕ} (hrun : heap.allocateNewBlock bytes = .ok (addr, heap')) :
    heap.arena.SameOutside heap.mem heap'.mem := by
  have hnext := h.next
  rw [MemoryAllocator.allocateNewBlock] at hrun
  obtain ⟨_, -, hrun⟩ := Outcome.bind_eq_ok.mp hrun
  split at hrun
  · cases hrun
  rename_i hover
  have hpos : heap.next + sizeOfBlockHeader + bytes < heap.arena.stop := by
    rw [overflow, decide_eq_true_eq] at hover
    omega
  obtain ⟨filled, hfilled, hrun⟩ := Outcome.bind_eq_ok.mp hrun
  obtain ⟨_, hloop, -, ⟨hkeeps, hsame⟩, hnext'⟩ := exists_zeroFillTo
    (I := fun heap' => (Keeps heap.arena heap' pool ∧
      heap.arena.SameOutside heap.mem heap'.mem) ∧ heap'.next = heap.next)
    ⟨⟨⟨rfl, h⟩, Arena.SameOutside.refl _ _⟩, rfl⟩
    (lt_turns (heap.next + sizeOfBlockHeader + bytes) heap.zfilled) (by
      rintro heap' ⟨⟨⟨harena, hrepresents⟩, hsame⟩, hnext'⟩ hle
      have hbefore := hrepresents.next_le
      have hroom : heap'.zfilled + kZFillBlockSize ≤ heap'.arena.stop := by
        refine page_le ?_ hrepresents.pages hle ?_
        · have hrepresented := hrepresents.next
          omega
        · rwa [harena]
      refine ⟨⟨⟨harena, hrepresents.zeroFill hvalid hroom⟩, hsame.trans ?_⟩, hnext'⟩
      rw [harena] at hroom
      exact Arena.SameOutside.fill (by omega) hroom 0)
  obtain rfl := Except.ok.inj (hfilled.symm.trans hloop)
  obtain ⟨rfl, rfl⟩ := Prod.mk.inj (Except.ok.inj hrun)
  have hheader : sizeOfBlockHeader = 16 := rfl
  refine hsame.trans ((Arena.SameOutside.store ?_ ?_ _).trans (Arena.SameOutside.store ?_ ?_ _))
  · omega
  · omega
  · omega
  · omega

/-- `DoAllocate` does so too, or fills a free block with zeroes. -/
theorem Represents.sameOutside_doAllocate (h : heap.Represents pool) (hvalid : pool.Valid)
    {bytes addr : ℕ} (hrun : heap.doAllocate bits bytes = .ok (addr, heap')) :
    heap.arena.SameOutside heap.mem heap'.mem := by
  rw [MemoryAllocator.doAllocate] at hrun
  obtain ⟨c, -, hrun⟩ := Outcome.bind_eq_ok.mp hrun
  split at hrun
  · exact h.sameOutside_allocateNewBlock hvalid hrun
  obtain ⟨⟨head, heap₁⟩, hacquire, hrun⟩ := Outcome.bind_eq_ok.mp hrun
  rw [tryAcquire] at hacquire
  obtain ⟨_, -, hacquire⟩ := Outcome.bind_eq_ok.mp hacquire
  dsimp only at hacquire
  split at hacquire
  · obtain ⟨rfl, rfl⟩ := Prod.mk.inj (Except.ok.inj hacquire)
    exact h.sameOutside_allocateNewBlock hvalid hrun
  · rename_i hne
    obtain ⟨rfl, rfl⟩ := Prod.mk.inj (Except.ok.inj hacquire)
    obtain ⟨rfl, rfl⟩ := Prod.mk.inj (Except.ok.inj hrun)
    -- the head of a free list is a block of the pool
    have hheads := h.heads c
    cases hlist : pool.lists c with
    | nil =>
      rw [hlist] at hheads
      exact absurd hheads hne
    | cons block rest =>
      have hmem : block ∈ pool.lists c := by
        rw [hlist]
        exact List.mem_cons_self ..
      have hblock := (hvalid.free c block hmem).1
      have hhead : heap.blockLists c = heap.arena.start + block.header := by
        rw [hheads, hlist]
        rfl
      have hsize : BlockHeader.size heap.mem (heap.arena.start + block.header) ≤ block.size :=
        (h.headers block hblock).size.le.trans (Nat.mod_le _ _)
      have hstop := h.stop_le_stop hvalid hblock
      have hstop' : block.stop = block.header + sizeOfBlockHeader + block.size := rfl
      dsimp only
      rw [hhead]
      exact Arena.SameOutside.fill (by omega) (by omega) 0

/-- `Free` writes a link. -/
theorem Represents.sameOutside_free (h : heap.Represents pool) (hvalid : pool.Valid)
    (hblock : block ∈ pool.live)
    (hrun : heap.free bits (heap.arena.start + block.addr) = .ok heap') :
    heap.arena.SameOutside heap.mem heap'.mem := by
  have hstop := h.stop_le_stop hvalid (hvalid.live block hblock)
  have haddr : block.addr = block.header + 16 := rfl
  have hstop' : block.stop = block.addr + block.size := rfl
  have hheader : locateBlockHeader (heap.arena.start + block.addr)
      = heap.arena.start + block.header := by
    show heap.arena.start + (block.header + 16) - 16 = heap.arena.start + block.header
    omega
  rw [MemoryAllocator.free, hheader] at hrun
  obtain ⟨_, -, hrun⟩ := Outcome.bind_eq_ok.mp hrun
  obtain ⟨_, -, hrun⟩ := Outcome.bind_eq_ok.mp hrun
  obtain ⟨_, -, hrun⟩ := Outcome.bind_eq_ok.mp hrun
  obtain ⟨c, -, hrun⟩ := Outcome.bind_eq_ok.mp hrun
  split at hrun
  · obtain rfl := Outcome.pure_eq_ok.mp hrun
    exact Arena.SameOutside.refl _ _
  · rw [release] at hrun
    obtain ⟨c', -, hrun⟩ := Outcome.bind_eq_ok.mp hrun
    obtain ⟨_, -, hrun⟩ := Outcome.bind_eq_ok.mp hrun
    obtain rfl := Outcome.pure_eq_ok.mp hrun
    exact Arena.SameOutside.store (by omega) (by omega) _

/-- **No action writes outside the arena.** -/
theorem Represents.sameOutside_execute (h : heap.Represents pool) (hvalid : pool.Valid)
    {action : Action} (hallowed : pool.Allowed action)
    (hrun : heap.execute bits (action.shift heap.arena.start) = .ok heap') :
    heap.arena.SameOutside heap.mem heap'.mem := by
  cases action with
  | allocate bytes =>
    obtain ⟨⟨addr, heap₁⟩, hallocate, hrun⟩ := Outcome.bind_eq_ok.mp hrun
    obtain rfl := Outcome.pure_eq_ok.mp hrun
    rw [MemoryAllocator.allocate] at hallocate
    split at hallocate
    · cases hallocate
    obtain ⟨⟨addr', heap₂⟩, hdo, hallocate⟩ := Outcome.bind_eq_ok.mp hallocate
    obtain ⟨_, -, hallocate⟩ := Outcome.bind_eq_ok.mp hallocate
    obtain ⟨rfl, rfl⟩ := Prod.mk.inj (Except.ok.inj hallocate)
    have hsame := h.sameOutside_doAllocate hvalid hdo
    exact hsame
  | free offset =>
    obtain ⟨block, hblock, rfl⟩ := hallowed
    obtain ⟨heap₁, hfree, hrun⟩ := Outcome.bind_eq_ok.mp hrun
    obtain rfl := Outcome.pure_eq_ok.mp hrun
    have hsame := h.sameOutside_free hvalid hblock hfree
    exact hsame
  | write offset byte =>
    obtain ⟨block, hblock, hle, hlt⟩ := hallowed
    obtain rfl := Except.ok.inj hrun
    have hstop := h.stop_le_stop hvalid (hvalid.live block hblock)
    exact Arena.SameOutside.update (by omega) (by omega) byte
  | reset =>
    obtain rfl := Except.ok.inj hrun
    exact Arena.SameOutside.refl _ _

end MemoryAllocator

end Whirl.Memory
