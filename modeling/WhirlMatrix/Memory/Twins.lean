/-
# Two heaps after a reset

Two heaps with arenas of one size are reset, whatever happened to them before, and go
through the same allocations, deallocations and writes.  Both represent one and the same
pool all the time, so neither an offset, nor a byte, nor an abort tells them apart.
-/
import WhirlMatrix.Memory.Represents

namespace Whirl.Memory

open Lockstep (Agree)

namespace MemoryAllocator

variable {bits : Bithacks}

/-! ## Pairs of heaps -/

/-- What the user may do: request any number of bytes, free what is live, and write to what
is live. -/
def Permitted (heap : MemoryAllocator) : Action → Prop
  | .allocate _ => True
  | action => heap.Allowed action

/-- The action is executed by both heaps; its addresses are offsets in the arenas. -/
def executeBoth (bits : Bithacks) (heaps : MemoryAllocator × MemoryAllocator) (action : Action) :
    Outcome (MemoryAllocator × MemoryAllocator) := do
  let first ← heaps.1.execute bits (action.shift heaps.1.arena.start)
  let second ← heaps.2.execute bits (action.shift heaps.2.arena.start)
  return (first, second)

/-- The first heap permits the action.  Of the second heap nothing is asked. -/
def PermittedFirst (heaps : MemoryAllocator × MemoryAllocator) (action : Action) : Prop :=
  heaps.1.Permitted (action.shift heaps.1.arena.start)

instance (heaps : MemoryAllocator × MemoryAllocator) : DecidablePred (PermittedFirst heaps)
  | .allocate _ => isTrue trivial
  | .free offset =>
    inferInstanceAs (Decidable (heaps.1.Allowed (.free (heaps.1.arena.start + offset))))
  | .write offset byte =>
    inferInstanceAs (Decidable (heaps.1.Allowed (.write (heaps.1.arena.start + offset) byte)))
  | .reset => isTrue trivial

/-- Nothing but the start of the arena tells two heaps apart: `blocks` were cut from both
arenas and `live` are held by both users, at the same offsets. -/
structure Twins (bits : Bithacks) (first second : MemoryAllocator) (blocks live : List Block) :
    Prop where
  handedOut : first.handedOut = blocks.map (Block.shift first.arena.start) ∧
    second.handedOut = blocks.map (Block.shift second.arena.start)
  live : first.live = live.map (Block.shift first.arena.start) ∧
    second.live = live.map (Block.shift second.arena.start)
  /-- Every byte of every span is the same. -/
  bytes : ∀ block ∈ blocks, ∀ x, block.addr ≤ x → x < block.stop →
    first.mem (first.arena.start + x) = second.mem (second.arena.start + x)
  /-- So is every header, with a link to the same offset. -/
  headers : ∀ block ∈ blocks, ∃ link,
    HeaderIs first.mem (block.shift first.arena.start) (Pool.pointer first.arena.start link) ∧
    HeaderIs second.mem (block.shift second.arena.start) (Pool.pointer second.arena.start link)
  /-- The next request is refused with one message or gets one offset. -/
  allocate : ∀ bytes, Agree (fun result result' => ∃ offset,
    result.1 = first.arena.start + offset ∧ result'.1 = second.arena.start + offset)
      (first.allocate bits bytes) (second.allocate bits bytes)
  /-- The next action aborts in both or in neither. -/
  execute : ∀ action : Action, first.Permitted (action.shift first.arena.start) →
    Agree (fun _ _ => True) (first.execute bits (action.shift first.arena.start))
      (second.execute bits (action.shift second.arena.start))

/-! ## One pool for both -/

variable {heap first second : MemoryAllocator} {pool : Pool}

/-- What a heap permits is allowed for the pool that it represents. -/
theorem Represents.allowed (h : heap.Represents pool) {action : Action}
    (hpermitted : heap.Permitted (action.shift heap.arena.start)) : pool.Allowed action := by
  cases action with
  | allocate bytes => trivial
  | free offset =>
    obtain ⟨_, hmem, haddr⟩ := hpermitted
    rw [h.live] at hmem
    obtain ⟨block, hblock, rfl⟩ := List.mem_map.mp hmem
    rw [Block.shift_addr] at haddr
    exact ⟨block, hblock, Nat.add_left_cancel haddr⟩
  | write offset byte =>
    obtain ⟨_, hmem, hle, hlt⟩ := hpermitted
    rw [h.live] at hmem
    obtain ⟨block, hblock, rfl⟩ := List.mem_map.mp hmem
    rw [Block.shift_addr] at hle
    rw [Block.shift_stop] at hlt
    exact ⟨block, hblock, Nat.le_of_add_le_add_left hle, Nat.lt_of_add_lt_add_left hlt⟩
  | reset => trivial

/-- Two heaps that represent one pool cannot be told apart. -/
theorem Represents.twins (hbits : bits.Spec) (hvalid : pool.Valid) (hfirst : first.Represents pool)
    (hsecond : second.Represents pool) : Twins bits first second pool.blocks pool.live where
  handedOut := ⟨hfirst.handedOut, hsecond.handedOut⟩
  live := ⟨hfirst.live, hsecond.live⟩
  bytes block hblock x hle hlt :=
    (hfirst.contents block hblock x hle hlt).trans (hsecond.contents block hblock x hle hlt).symm
  headers block hblock :=
    ⟨pool.links block.header, hfirst.headers block hblock, hsecond.headers block hblock⟩
  allocate bytes := by
    have hboth := (hfirst.allocate hbits hvalid bytes).join (hsecond.allocate hbits hvalid bytes)
    refine hboth.mono fun result result' hresults => ?_
    obtain ⟨common, hreturns, hreturns'⟩ := hresults
    exact ⟨common.1, hreturns.addr, hreturns'.addr⟩
  execute action hpermitted := by
    have hallowed := hfirst.allowed hpermitted
    have hboth := (hfirst.execute hbits hvalid hallowed).join
      (hsecond.execute hbits hvalid hallowed)
    exact hboth.mono fun _ _ _ => trivial

/-- One pool that both heaps represent. -/
structure Common (arena arena' : Arena) (heaps : MemoryAllocator × MemoryAllocator) (pool : Pool) :
    Prop where
  valid : pool.Valid
  first : Keeps arena heaps.1 pool
  second : Keeps arena' heaps.2 pool

/-- One action leads to one pool again. -/
theorem Common.executeBoth (hbits : bits.Spec) {arena arena' : Arena}
    {heaps heaps' : MemoryAllocator × MemoryAllocator} (h : Common arena arena' heaps pool)
    {action : Action} (hpermitted : PermittedFirst heaps action)
    (hrun : executeBoth bits heaps action = .ok heaps') :
    ∃ pool', Common arena arena' heaps' pool' := by
  obtain ⟨hvalid, ⟨rfl, hfirst⟩, ⟨rfl, hsecond⟩⟩ := h
  have hallowed := hfirst.allowed hpermitted
  have hagree := hfirst.execute hbits hvalid hallowed
  have hagree' := hsecond.execute hbits hvalid hallowed
  obtain ⟨heap, hheap, hrun⟩ := Outcome.bind_eq_ok.mp hrun
  obtain ⟨heap', hheap', hrun⟩ := Outcome.bind_eq_ok.mp hrun
  obtain rfl := Outcome.pure_eq_ok.mp hrun
  rw [hheap] at hagree
  rw [hheap'] at hagree'
  obtain ⟨pool', hpool', hkeeps⟩ := hagree.exists_of_ok
  obtain ⟨pool'', hpool'', hkeeps'⟩ := hagree'.exists_of_ok
  obtain rfl := Except.ok.inj (hpool'.symm.trans hpool'')
  exact ⟨pool', (hvalid.execute hbits hallowed hpool').1, hkeeps, hkeeps'⟩

/-! ## Runs -/

/-- **Nothing is left of what was in a heap before a `Reset`.**  After any run of both
heaps from a `Reset` they are twins, whatever the heaps were like before it. -/
theorem twins_of_reaches (hbits : bits.Spec) {heap heap' : MemoryAllocator}
    (hsize : heap.arena.size = heap'.arena.size)
    (hrun : Runs.Reaches (executeBoth bits) PermittedFirst (heap.reset, heap'.reset)
      (first, second)) :
    first.arena = heap.arena ∧ second.arena = heap'.arena ∧
      ∃ blocks live, Twins bits first second blocks live := by
  have hreset : Common heap.arena heap'.arena (heap.reset, heap'.reset)
      { size := heap.arena.size } := by
    refine ⟨Pool.valid_new _, ⟨rfl, represents_reset heap⟩, rfl, ?_⟩
    rw [hsize]
    exact represents_reset heap'
  obtain ⟨pool, hvalid, ⟨harena, hfirst⟩, harena', hsecond⟩ := hrun.invariant
    (I := fun heaps => ∃ pool, Common heap.arena heap'.arena heaps pool) ⟨_, hreset⟩
    fun heaps action heaps' hcommon hpermitted hstep => by
      obtain ⟨pool, hcommon⟩ := hcommon
      exact hcommon.executeBoth hbits hpermitted hstep
  exact ⟨harena, harena', pool.blocks, pool.live, hfirst.twins hbits hvalid hsecond⟩

/-- A heap of another arena, with other contents and in disorder. -/
def disordered : MemoryAllocator where
  arena := { twoPages with
    start := 16384
    start_pos := by decide
    aligned := by decide
    fits := by decide }
  mem x := UInt8.ofNat x
  blockLists _ := 7
  next := 3
  zfilled := 5

/-- Both heaps after the same actions. -/
def restarted : MemoryAllocator × MemoryAllocator :=
  (Runs.exec (executeBoth bithacks) PermittedFirst (reused.reset, disordered.reset)
    [.allocate 24, .write 20 7, .free 16, .allocate 20, .allocate 100]).getD (reused, disordered)

/-- A heap that was used and one in disorder are twins after this run. -/
theorem twins_of_reaches_restarted :
    restarted.1.live = [⟨4144, 128⟩, ⟨4096, 32⟩] ∧
      restarted.2.live = [⟨16432, 128⟩, ⟨16384, 32⟩] ∧
        ∃ blocks live, Twins bithacks restarted.1 restarted.2 blocks live := by
  have hrun : Runs.exec (executeBoth bithacks) PermittedFirst (reused.reset, disordered.reset)
      [.allocate 24, .write 20 7, .free 16, .allocate 20, .allocate 100] = some restarted := rfl
  have hsize : reused.arena.size = disordered.arena.size := rfl
  exact ⟨by decide, by decide,
    (twins_of_reaches spec_bithacks hsize (Runs.reaches_of_exec hrun)).2.2⟩

end MemoryAllocator

end Whirl.Memory
