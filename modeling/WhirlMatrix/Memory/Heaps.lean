/-
# Processes that share a memory

`HeapsAllocator` of `memory/heap.cpp` and the allocators of the processes that get their heaps
from it.  Processes come and go, within a simulation and from one simulation to the next, and a
heap that a process has left behind is given to another as it is.  Each process finds what it
would find if it were alone, in a heap that was never used.

`mapped`, `mostAlive` and the actions of a process are proof-only: the heaps that the kernel has
mapped, how many processes were alive at a time, and what a process has done, with offsets in
place of addresses.
-/
import WhirlMatrix.Library.Recycling
import WhirlMatrix.Memory.Footprint

namespace Whirl.Memory

open ByteMemory
open Lockstep (Agree)

/-! ## The pool of heaps -/

/-- `kPageSize`. -/
def kPageSize : ℕ := 4096

/-- `kHeapSizeInPages`. -/
def kHeapSizeInPages : ℕ := 64 * 1024

/-- `HeapsAllocator`. -/
structure HeapsAllocator where
  heapSizePages : ℕ := kHeapSizeInPages
  pool : List Arena := []

namespace HeapsAllocator

/-- `Allocate`; `AllocateNewHeap` gets a fresh heap from the kernel. -/
def allocate (heaps : HeapsAllocator) (fresh : Arena) : Arena × HeapsAllocator :=
  match heaps.pool.getLast? with
  | some heap => (heap, { heaps with pool := heaps.pool.dropLast })
  | none => (fresh, heaps)

/-- `Release`. -/
def release (heaps : HeapsAllocator) (heap : Arena) : HeapsAllocator :=
  { heaps with pool := heaps.pool ++ [heap] }

/-- `SetHeapSize`. -/
def setHeapSize (heaps : HeapsAllocator) (bytes : ℕ) : HeapsAllocator :=
  { heaps with heapSizePages := bytes / kPageSize + 1 }

end HeapsAllocator

/-- Two arenas have no byte in common. -/
def Arena.Disjoint (a b : Arena) : Prop := a.stop ≤ b.start ∨ b.stop ≤ a.start

instance (a b : Arena) : Decidable (a.Disjoint b) :=
  inferInstanceAs (Decidable (a.stop ≤ b.start ∨ b.stop ≤ a.start))

theorem Arena.Disjoint.symm {a b : Arena} (h : a.Disjoint b) : b.Disjoint a := Or.symm h

/-! ## Processes -/

/-- `process::Memory`.  The bytes of `impl` are those of the machine. -/
structure ProcessMemory where
  impl : MemoryAllocator
  actions : List MemoryAllocator.Action := []

/-- The memory, and the processes of all simulations. -/
structure Machine where
  mem : Memory
  heaps : HeapsAllocator := {}
  /-- The processes in the order in which they were made, and nothing for one that is gone. -/
  processes : List (Option ProcessMemory) := []
  mapped : List Arena := []
  mostAlive : ℕ := 0

namespace Machine

/-- What happens to the memory. -/
inductive Action where
  /-- `MemoryAllocator()`.  The kernel would map this heap. -/
  | construct (fresh : Arena)
  /-- A process acts; the addresses are offsets in its arena. -/
  | act (i : ℕ) (action : MemoryAllocator.Action)
  /-- `~MemoryAllocator()`. -/
  | destroy (i : ℕ)
  | setHeapSize (bytes : ℕ)
  /-- Something else writes to its own memory. -/
  | other (addr : ℕ) (byte : UInt8)

/-- The heap of a process, with the memory of the machine. -/
def heap (m : Machine) (process : ProcessMemory) : MemoryAllocator :=
  { process.impl with mem := m.mem }

/-- A process that is alive. -/
def process (m : Machine) (i : ℕ) : Option ProcessMemory := (m.processes[i]?).join

/-- The arenas of the processes that are alive. -/
def arenas (processes : List (Option ProcessMemory)) : List Arena :=
  processes.filterMap fun process => process.map fun process => process.impl.arena

/-- One action. -/
def execute (bits : Bithacks) (m : Machine) : Action → Outcome Machine
  | .construct fresh => do
    let (arena, heaps) := m.heaps.allocate fresh
    let heap ← MemoryAllocator.construct arena m.mem
    return { m with
      mem := heap.mem
      heaps := heaps
      processes := m.processes ++ [some ⟨heap, []⟩]
      mapped := if m.heaps.pool = [] then m.mapped ++ [fresh] else m.mapped
      mostAlive := max m.mostAlive ((arenas m.processes).length + 1) }
  | .act i action =>
    match m.process i with
    | none => .error .undefined
    | some process => do
      let heap ← (m.heap process).execute bits (action.shift process.impl.arena.start)
      return { m with
        mem := heap.mem
        processes := m.processes.set i (some ⟨heap, process.actions ++ [action]⟩) }
  | .destroy i =>
    match m.process i with
    | none => .error .undefined
    | some process => .ok { m with
        heaps := m.heaps.release process.impl.arena
        processes := m.processes.set i none }
  | .setHeapSize bytes => .ok { m with heaps := m.heaps.setHeapSize bytes }
  | .other addr byte => .ok { m with mem := Function.update m.mem addr byte }

/-- The kernel maps whole pages where nothing is mapped, a process does what its heap permits,
and nobody else writes to a heap. -/
def Allowed (m : Machine) : Action → Prop
  | .construct fresh => m.heaps.pool = [] →
      fresh.size = m.heaps.heapSizePages * kPageSize ∧ ∀ arena ∈ m.mapped, arena.Disjoint fresh
  | .act i action => ∃ process ∈ m.process i,
      (m.heap process).Permitted (action.shift process.impl.arena.start)
  | .destroy i => ∃ process ∈ m.process i, True
  | .setHeapSize _ => True
  | .other addr _ => ∀ arena ∈ m.mapped, addr < arena.start ∨ arena.stop ≤ addr

instance (heap : MemoryAllocator) (action : MemoryAllocator.Action) :
    Decidable (heap.Permitted action) :=
  match action with
  | .allocate _ => .isTrue trivial
  | .free addr => inferInstanceAs (Decidable (heap.Allowed (.free addr)))
  | .write addr byte => inferInstanceAs (Decidable (heap.Allowed (.write addr byte)))
  | .reset => .isTrue trivial

instance (m : Machine) (action : Action) : Decidable (m.Allowed action) :=
  match action with
  | .construct fresh => inferInstanceAs (Decidable (m.heaps.pool = [] →
      fresh.size = m.heaps.heapSizePages * kPageSize ∧ ∀ arena ∈ m.mapped, arena.Disjoint fresh))
  | .act i action => inferInstanceAs (Decidable (∃ process ∈ m.process i,
      (m.heap process).Permitted (action.shift process.impl.arena.start)))
  | .destroy i => inferInstanceAs (Decidable (∃ process ∈ m.process i, True))
  | .setHeapSize _ => .isTrue trivial
  | .other addr _ => inferInstanceAs (Decidable (∀ arena ∈ m.mapped,
      addr < arena.start ∨ arena.stop ≤ addr))

/-! ## Arenas -/

section

variable {processes : List (Option ProcessMemory)} {i : ℕ} {process : ProcessMemory}

theorem arenas_concat (processes : List (Option ProcessMemory)) (process : ProcessMemory) :
    arenas (processes ++ [some process]) = arenas processes ++ [process.impl.arena] := by
  rw [arenas, List.filterMap_append]
  rfl

/-- A process keeps its arena. -/
theorem arenas_set (hget : processes[i]? = some (some process)) {process' : ProcessMemory}
    (harena : process'.impl.arena = process.impl.arena) :
    arenas (processes.set i (some process')) = arenas processes := by
  induction processes generalizing i with
  | nil => simp at hget
  | cons other processes ih =>
    cases i with
    | zero =>
      obtain rfl := Option.some.inj hget
      exact congrArg (· :: arenas processes) harena
    | succ i =>
      cases other with
      | none => exact ih hget
      | some other => exact congrArg (other.impl.arena :: ·) (ih hget)

/-- A process leaves its arena. -/
theorem arenas_perm (hget : processes[i]? = some (some process)) :
    (arenas processes).Perm (process.impl.arena :: arenas (processes.set i none)) := by
  induction processes generalizing i with
  | nil => simp at hget
  | cons other processes ih =>
    cases i with
    | zero =>
      obtain rfl := Option.some.inj hget
      exact List.Perm.refl _
    | succ i =>
      cases other with
      | none => exact ih hget
      | some other => exact ((ih hget).cons _).trans (List.Perm.swap _ _ _)

end

/-! ## The invariant -/

variable {bits : Bithacks} {m m' : Machine} {i j : ℕ} {process process' : ProcessMemory}

/-- The process finds what it would find if its actions were all that has happened. -/
def Alone (bits : Bithacks) (mem : Memory) (process : ProcessMemory) (pool : Pool) : Prop :=
  process.actions.foldlM (Pool.execute bits) { size := process.impl.arena.size } = .ok pool ∧
    pool.Valid ∧ { process.impl with mem := mem }.Represents pool

/-- Each heap that was mapped belongs to one process, or waits in the pool. -/
structure Separate (bits : Bithacks) (m : Machine) : Prop where
  balanced : Recycling.Balanced m.mapped m.heaps.pool (arenas m.processes) m.mostAlive
  apart : m.mapped.Pairwise Arena.Disjoint
  alone : ∀ i process, m.process i = some process → ∃ pool, Alone bits m.mem process pool

theorem getElem?_of_process (h : m.process i = some process) :
    m.processes[i]? = some (some process) :=
  Option.join_eq_some_iff.mp h

theorem mem_arenas (h : m.process i = some process) : process.impl.arena ∈ arenas m.processes :=
  List.mem_filterMap.mpr ⟨some process, List.mem_of_getElem? (getElem?_of_process h), rfl⟩

/-- The arenas of two processes have no byte in common. -/
theorem Separate.disjoint (h : m.Separate bits) (hi : m.process i = some process)
    (hj : m.process j = some process') (hne : i ≠ j) :
    process.impl.arena.Disjoint process'.impl.arena := by
  have hapart : (arenas m.processes).Pairwise Arena.Disjoint :=
    (List.pairwise_append.mp ((h.balanced.owned.pairwise_iff Arena.Disjoint.symm).mp h.apart)).2.1
  rw [arenas, List.pairwise_filterMap] at hapart
  obtain ⟨hlt, hget⟩ := List.getElem?_eq_some_iff.mp (getElem?_of_process hi)
  obtain ⟨hlt', hget'⟩ := List.getElem?_eq_some_iff.mp (getElem?_of_process hj)
  rw [List.pairwise_iff_getElem] at hapart
  rcases Nat.lt_or_gt_of_ne hne with hbefore | hafter
  · refine hapart i j hlt hlt' hbefore _ ?_ _ ?_
    · rw [hget]
      rfl
    · rw [hget']
      rfl
  · refine (hapart j i hlt' hlt hafter _ ?_ _ ?_).symm
    · rw [hget']
      rfl
    · rw [hget]
      rfl

/-- Nothing else writes to the heap of a process. -/
theorem Alone.congr {mem mem' : Memory} {pool : Pool} (h : Alone bits mem process pool)
    (hsame : ∀ x, process.impl.arena.start ≤ x → x < process.impl.arena.stop → mem' x = mem x) :
    Alone bits mem' process pool := by
  obtain ⟨hrun, hvalid, hrepresents⟩ := h
  exact ⟨hrun, hvalid, hrepresents.congr hvalid hsame⟩

theorem separate_start (mem : Memory) : Separate bits { mem := mem } where
  balanced := Recycling.balanced_nil
  apart := List.Pairwise.nil
  alone i process h := by
    rw [Machine.process, List.getElem?_nil] at h
    cases h

/-! ## Steps -/

/-- What a new process starts with. -/
theorem construct_eq_ok {fresh : Arena} (hrun : m.execute bits (.construct fresh) = .ok m') :
    ∃ heap, heap.arena = (m.heaps.allocate fresh).1 ∧ heap.mem = m.mem ∧
      heap.Represents { size := heap.arena.size } ∧ m' = { m with
        mem := heap.mem
        heaps := (m.heaps.allocate fresh).2
        processes := m.processes ++ [some ⟨heap, []⟩]
        mapped := if m.heaps.pool = [] then m.mapped ++ [fresh] else m.mapped
        mostAlive := max m.mostAlive ((arenas m.processes).length + 1) } := by
  obtain ⟨heap, hconstruct, hrun⟩ := Outcome.bind_eq_ok.mp hrun
  obtain ⟨_, -, hconstruct⟩ := Outcome.bind_eq_ok.mp hconstruct
  obtain rfl := Outcome.pure_eq_ok.mp hconstruct
  exact ⟨_, rfl, rfl, MemoryAllocator.represents_reset _, (Outcome.pure_eq_ok.mp hrun).symm⟩

/-- A new process is alone in its heap, and the others stay alone. -/
theorem Separate.alone_append (h : m.Separate bits) {heap : MemoryAllocator}
    (hmem : heap.mem = m.mem) (hrepresents : heap.Represents { size := heap.arena.size })
    (hprocess : ((m.processes ++ [some ⟨heap, []⟩])[i]?).join = some process) :
    ∃ pool, Alone bits heap.mem process pool := by
  have hget := Option.join_eq_some_iff.mp hprocess
  rw [List.getElem?_append] at hget
  split at hget
  · rw [hmem]
    exact h.alone i process (Option.join_eq_some_iff.mpr hget)
  · obtain rfl := Option.some.inj (List.mem_singleton.mp (List.mem_of_getElem? hget))
    exact ⟨_, rfl, Pool.valid_new _, hrepresents⟩

/-- A new process has a heap that was never used, or one that nobody uses any more. -/
theorem Separate.construct (h : m.Separate bits) {fresh : Arena}
    (hallowed : m.Allowed (.construct fresh)) (hrun : m.execute bits (.construct fresh) = .ok m') :
    m'.Separate bits := by
  obtain ⟨heap, harena, hmem, hrepresents, rfl⟩ := construct_eq_ok hrun
  have hbalanced := h.balanced
  by_cases hpool : m.heaps.pool = []
  · -- the kernel maps a new heap
    obtain ⟨-, hdisjoint⟩ := hallowed hpool
    have hallocate : m.heaps.allocate fresh = (fresh, m.heaps) := by
      rw [HeapsAllocator.allocate, hpool]
      rfl
    rw [hallocate] at harena ⊢
    rw [if_pos hpool]
    have harena : heap.arena = fresh := harena
    constructor
    · show Recycling.Balanced (m.mapped ++ [fresh]) m.heaps.pool
        (arenas (m.processes ++ [some ⟨heap, []⟩])) _
      rw [arenas_concat, harena, hpool]
      rw [hpool] at hbalanced
      exact hbalanced.make fresh
    · rw [List.pairwise_append]
      refine ⟨h.apart, List.pairwise_singleton _ _, ?_⟩
      intro arena hmapped arena' hfresh
      rw [List.mem_singleton.mp hfresh]
      exact hdisjoint arena hmapped
    · exact fun i process => h.alone_append hmem hrepresents
  · -- a heap comes from the pool
    obtain ⟨arena, hlast⟩ := Option.ne_none_iff_exists'.mp (mt List.getLast?_eq_none_iff.mp hpool)
    have hallocate : m.heaps.allocate fresh
        = (arena, { m.heaps with pool := m.heaps.pool.dropLast }) := by
      rw [HeapsAllocator.allocate, hlast]
    have hsplit := List.dropLast_append_getLast? arena (Option.mem_def.mpr hlast)
    rw [hallocate] at harena ⊢
    rw [if_neg hpool]
    have harena : heap.arena = arena := harena
    constructor
    · show Recycling.Balanced m.mapped m.heaps.pool.dropLast
        (arenas (m.processes ++ [some ⟨heap, []⟩])) _
      rw [arenas_concat, harena]
      exact hbalanced.take (List.Perm.of_eq hsplit.symm)
    · exact h.apart
    · exact fun i process => h.alone_append hmem hrepresents

/-- A process acts, and no other notices. -/
theorem Separate.act (hbits : bits.Spec) (h : m.Separate bits) {action : MemoryAllocator.Action}
    (hallowed : m.Allowed (.act i action)) (hrun : m.execute bits (.act i action) = .ok m') :
    m'.Separate bits := by
  obtain ⟨process, hprocess, hpermitted⟩ := hallowed
  have hprocess : m.process i = some process := hprocess
  rw [execute, hprocess] at hrun
  obtain ⟨heap, hheap, hrun⟩ := Outcome.bind_eq_ok.mp hrun
  obtain rfl := Outcome.pure_eq_ok.mp hrun
  obtain ⟨pool, hpool, hvalid, hrepresents⟩ := h.alone i process hprocess
  have hallowed := hrepresents.allowed hpermitted
  have hagree := hrepresents.execute hbits hvalid hallowed
  have hsame := hrepresents.sameOutside_execute hvalid hallowed hheap
  have hheap' : MemoryAllocator.execute bits { process.impl with mem := m.mem }
      (action.shift process.impl.arena.start) = .ok heap := hheap
  rw [hheap'] at hagree
  obtain ⟨pool', hpool', harena, hrepresents'⟩ := hagree.exists_of_ok
  have hget := getElem?_of_process hprocess
  have hlt := (List.getElem?_eq_some_iff.mp hget).1
  constructor
  · show Recycling.Balanced m.mapped m.heaps.pool (arenas (m.processes.set i _)) m.mostAlive
    rw [arenas_set hget harena]
    exact h.balanced
  · exact h.apart
  · intro j process' hprocess'
    have hprocess' : ((m.processes.set i _)[j]?).join = some process' := hprocess'
    by_cases heq : i = j
    · subst heq
      rw [List.getElem?_set_self hlt] at hprocess'
      obtain rfl := Option.some.inj hprocess'
      refine ⟨pool', ?_, (hvalid.execute hbits hallowed hpool').1, hrepresents'⟩
      have harena : heap.arena = process.impl.arena := harena
      dsimp only
      rw [List.foldlM_append, harena]
      exact Outcome.bind_eq_ok.mpr ⟨pool, hpool, Outcome.bind_eq_ok.mpr ⟨pool', hpool', rfl⟩⟩
    · rw [List.getElem?_set_ne heq] at hprocess'
      obtain ⟨pool'', halone⟩ := h.alone j process' hprocess'
      have hdisjoint := h.disjoint hprocess hprocess' heq
      refine ⟨pool'', halone.congr fun x hle hlt => hsame x ?_⟩
      rcases hdisjoint with hbefore | hafter
      · exact Or.inr (Nat.le_trans hbefore hle)
      · exact Or.inl (Nat.lt_of_lt_of_le hlt hafter)

/-- A process leaves its heap behind. -/
theorem Separate.destroy (h : m.Separate bits) (hrun : m.execute bits (.destroy i) = .ok m') :
    m'.Separate bits := by
  rw [execute] at hrun
  split at hrun
  · cases hrun
  rename_i process hprocess
  obtain rfl := Except.ok.inj hrun
  have hget := getElem?_of_process hprocess
  have hlt := (List.getElem?_eq_some_iff.mp hget).1
  constructor
  · exact h.balanced.giveBack (arenas_perm hget)
  · exact h.apart
  · intro j process' hprocess'
    have hprocess' : ((m.processes.set i none)[j]?).join = some process' := hprocess'
    by_cases heq : i = j
    · subst heq
      rw [List.getElem?_set_self hlt] at hprocess'
      cases hprocess'
    · rw [List.getElem?_set_ne heq] at hprocess'
      exact h.alone j process' hprocess'

/-- **One action keeps the processes separate.** -/
theorem Separate.execute (hbits : bits.Spec) (h : m.Separate bits) {action : Action}
    (hallowed : m.Allowed action) (hrun : m.execute bits action = .ok m') : m'.Separate bits := by
  cases action with
  | construct fresh => exact h.construct hallowed hrun
  | act i action => exact h.act hbits hallowed hrun
  | destroy i => exact h.destroy hrun
  | setHeapSize bytes =>
    obtain rfl := Except.ok.inj hrun
    exact ⟨h.balanced, h.apart, h.alone⟩
  | other addr byte =>
    obtain rfl := Except.ok.inj hrun
    refine ⟨h.balanced, h.apart, fun i process hprocess => ?_⟩
    obtain ⟨pool, halone⟩ := h.alone i process hprocess
    have hmapped : process.impl.arena ∈ m.mapped :=
      h.balanced.owned.mem_iff.mpr (List.mem_append_right _ (mem_arenas hprocess))
    refine ⟨pool, halone.congr fun x hle hlt => Function.update_of_ne ?_ ..⟩
    rintro rfl
    rcases hallowed _ hmapped with hbefore | hafter
    · omega
    · omega

/-! ## Isolation -/

/-- What a process finds in its heap: the pool that its own actions make of a new one. -/
structure Private (bits : Bithacks) (mem : Memory) (process : ProcessMemory) (pool : Pool) :
    Prop where
  made : process.actions.foldlM (Pool.execute bits) { size := process.impl.arena.size } = .ok pool
  live : process.impl.live = pool.live.map (Block.shift process.impl.arena.start)
  bytes : ∀ block ∈ pool.live, ∀ x, block.addr ≤ x → x < block.stop →
    mem (process.impl.arena.start + x) = pool.contents x
  /-- The next action returns the same offset, or fails with the same message. -/
  next : ∀ action, pool.Allowed action →
    Agree (fun heap pool' => heap.live = pool'.live.map (Block.shift process.impl.arena.start))
      (MemoryAllocator.execute bits { process.impl with mem := mem }
        (action.shift process.impl.arena.start)) (pool.execute bits action)

theorem Alone.private {mem : Memory} {pool : Pool} (hbits : bits.Spec)
    (h : Alone bits mem process pool) : Private bits mem process pool := by
  obtain ⟨hmade, hvalid, hrepresents⟩ := h
  refine ⟨hmade, hrepresents.live, ?_, ?_⟩
  · intro block hblock
    exact hrepresents.contents block (hvalid.live block hblock)
  · intro action hallowed
    refine (hrepresents.execute hbits hvalid hallowed).mono ?_
    rintro heap pool' ⟨harena, hkeeps⟩
    have harena : heap.arena = process.impl.arena := harena
    rw [hkeeps.live, harena]

/-- A block that a process holds lies in its arena. -/
theorem Alone.block_in {mem : Memory} {pool : Pool} (h : Alone bits mem process pool) {block : Block}
    (hblock : block ∈ process.impl.live) : process.impl.arena.start ≤ block.header ∧
      block.header + 16 < block.stop ∧ block.stop ≤ process.impl.arena.stop := by
  obtain ⟨-, hvalid, hrepresents⟩ := h
  have hlive : process.impl.live = pool.live.map (Block.shift process.impl.arena.start) :=
    hrepresents.live
  rw [hlive] at hblock
  obtain ⟨unshifted, hmem, rfl⟩ := List.mem_map.mp hblock
  have hblock' := hvalid.live unshifted hmem
  have hpos := (hvalid.size unshifted hblock').pos
  have hstop : process.impl.arena.start + unshifted.stop ≤ process.impl.arena.stop :=
    hrepresents.stop_le_stop hvalid hblock'
  have hstop' : unshifted.stop = unshifted.header + 16 + unshifted.size := rfl
  rw [Block.shift_stop, Block.shift]
  dsimp only
  omega

/-- `Free` of what is not in the arena fails. -/
theorem free_of_outside {heap : MemoryAllocator} {addr : ℕ} (hpos : 0 < addr)
    (houtside : addr < heap.arena.start ∨ heap.arena.stop ≤ addr) :
    heap.free bits addr = .error (.panic "Do not mess with heaps") := by
  have hnull : (addr != 0) = true := bne_iff_ne.mpr (by omega)
  have hfrom : heap.fromHere addr = false := by
    rw [MemoryAllocator.fromHere, Bool.and_eq_false_iff, decide_eq_false_iff_not,
      decide_eq_false_iff_not]
    omega
  rw [MemoryAllocator.free, hnull, hfrom]
  rfl

/-- **Processes are isolated.**  In any run of any number of processes that get their heaps from
one pool, each process finds what its own actions alone make of a new heap, and its next action
has the same outcome.  No two processes hold a byte in common, a block that another process holds
is not freed by mistake, and as many heaps were mapped as processes were alive at a time. -/
theorem isolated_of_reaches (hbits : bits.Spec) {mem : Memory}
    (hrun : Runs.Reaches (execute bits) Allowed { mem := mem } m) :
    (∀ i process, m.process i = some process → ∃ pool, Private bits m.mem process pool) ∧
      (∀ i j process process', i ≠ j → m.process i = some process → m.process j = some process' →
        ∀ block ∈ process'.impl.live, (∀ block' ∈ process.impl.live, block'.Disjoint block) ∧
          (m.heap process).free bits block.addr = .error (.panic "Do not mess with heaps")) ∧
        m.mapped.length = m.mostAlive := by
  have h : m.Separate bits := by
    apply hrun.invariant (I := Separate bits) (separate_start mem)
    intro m action m' h hallowed hstep
    exact h.execute hbits hallowed hstep
  refine ⟨?_, ?_, h.balanced.most⟩
  · intro i process hprocess
    obtain ⟨pool, halone⟩ := h.alone i process hprocess
    exact ⟨pool, halone.private hbits⟩
  · intro i j process process' hne hprocess hprocess' block hblock
    obtain ⟨pool, halone⟩ := h.alone i process hprocess
    obtain ⟨pool', halone'⟩ := h.alone j process' hprocess'
    obtain ⟨hstart, hsize, hstop⟩ := halone'.block_in hblock
    have hpos := process'.impl.arena.start_pos
    have hdisjoint := h.disjoint hprocess hprocess' hne
    have haddr : block.addr = block.header + 16 := rfl
    constructor
    · intro block' hblock'
      obtain ⟨hstart', -, hstop'⟩ := halone.block_in hblock'
      rcases hdisjoint with hbefore | hafter
      · left; omega
      · right; omega
    · apply free_of_outside
      · omega
      · show block.addr < process.impl.arena.start ∨ process.impl.arena.stop ≤ block.addr
        rcases hdisjoint with hbefore | hafter
        · right; omega
        · left; omega

/-! ## A short run -/

open MemoryAllocator (bithacks spec_bithacks twoPages)

/-- An arena of three pages elsewhere. -/
def threePages : Arena := ⟨40960, 12288, by decide, by decide, by decide, by decide⟩

/-- A process writes and goes, and a third one gets its heap. -/
def recycledRun : List Action :=
  [.setHeapSize 4096, .construct twoPages, .setHeapSize 8192, .construct threePages,
    .act 0 (.allocate 24), .act 0 (.write 20 7), .act 1 (.allocate 24), .destroy 0,
    .construct twoPages, .act 2 (.allocate 100)]

/-- A process in the list of the blocks that are live in each process. -/
theorem exists_process {lives : List (Option (List Block))} {i : ℕ} {blocks : List Block}
    (hlives : m.processes.map (Option.map fun process => process.impl.live) = lives)
    (hi : lives[i]? = some (some blocks)) :
    ∃ process, m.process i = some process ∧ process.impl.live = blocks := by
  rw [← hlives, List.getElem?_map] at hi
  obtain ⟨slot, hslot, hi⟩ := Option.map_eq_some_iff.mp hi
  obtain ⟨process, rfl, hblocks⟩ := Option.map_eq_some_iff.mp hi
  refine ⟨process, ?_, hblocks⟩
  rw [Machine.process, hslot]
  rfl

/-- **An example of isolation.**  The two processes that are alive hold different bytes, and the
first of them cannot free the block of the second one at address 4112. -/
theorem isolated_of_reaches_recycledRun : ∃ m : Machine,
    m.processes.map (Option.map fun process => process.impl.live)
      = [none, some [⟨40960, 32⟩], some [⟨4096, 128⟩]] ∧
    (∀ i process, m.process i = some process → ∃ pool, Private bithacks m.mem process pool) ∧
    (∃ process process', m.process 1 = some process ∧ m.process 2 = some process' ∧
      Block.Disjoint ⟨40960, 32⟩ ⟨4096, 128⟩ ∧ (m.heap process).free bithacks 4112
        = .error (.panic "Do not mess with heaps")) ∧
    m.mapped.length = m.mostAlive := by
  have hexec : (Runs.exec (execute bithacks) Allowed { mem := fun _ => 255 } recycledRun).map
      (fun m => m.processes.map (Option.map fun process => process.impl.live))
        = some [none, some [⟨40960, 32⟩], some [⟨4096, 128⟩]] := by
    decide +kernel
  obtain ⟨m, hm, hlive⟩ := Option.map_eq_some_iff.mp hexec
  obtain ⟨hprivate, hothers, hmost⟩ :=
    isolated_of_reaches spec_bithacks (Runs.reaches_of_exec hm)
  refine ⟨m, hlive, hprivate, ?_, hmost⟩
  obtain ⟨process, hprocess, hblocks⟩ := exists_process (i := 1) hlive rfl
  obtain ⟨process', hprocess', hblocks'⟩ := exists_process (i := 2) hlive rfl
  have hblock' : ⟨4096, 128⟩ ∈ process'.impl.live := by
    rw [hblocks']
    exact List.mem_singleton_self _
  obtain ⟨hdisjoint, hfree⟩ :=
    hothers 1 2 process process' (by decide) hprocess hprocess' _ hblock'
  refine ⟨process, process', hprocess, hprocess', hdisjoint _ ?_, hfree⟩
  rw [hblocks]
  exact List.mem_singleton_self _

end Machine

end Whirl.Memory
