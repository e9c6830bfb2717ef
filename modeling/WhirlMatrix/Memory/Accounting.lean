/-
# How much of an arena is used

Small blocks are recycled optimally.  A block of a small class is cut only when all blocks
of its class are live, so as many blocks of a class are cut as were ever live at a time.
Larger blocks are never used again.  This accounts for every byte before the bump pointer.
-/
import WhirlMatrix.Memory.Headers
import Mathlib.Algebra.BigOperators.Group.Finset.Piecewise
import Mathlib.Order.Interval.Finset.Nat

namespace Whirl.Memory

/-! ## What optimal recycling costs -/

/-- The bytes of as many blocks of each small class as were ever live at a time, with their
headers, and of all larger blocks. -/
def optimalBytes (mostLive : ℕ → ℕ) (largeBytes : ℕ) : ℕ :=
  ∑ c ∈ Finset.Icc 1 kMaxClassIndex, (sizeOfBlockHeader + 2 ^ (c + 3)) * mostLive c + largeBytes

/-- What a request adds to the larger blocks. -/
def largeRequest (bits : Bithacks) (bytes : ℕ) : ℕ :=
  if classOf (allocToPowerOf2 bits bytes) = kLargeAllocClass then
    sizeOfBlockHeader + allocToPowerOf2 bits bytes
  else
    0

variable {mostLive mostLive' : ℕ → ℕ} {largeBytes : ℕ}

/-- The class of the larger blocks does not count. -/
theorem optimalBytes_congr (h : ∀ c, c ≠ kLargeAllocClass → mostLive' c = mostLive c) :
    optimalBytes mostLive' largeBytes = optimalBytes mostLive largeBytes := by
  unfold optimalBytes
  congr 1
  apply Finset.sum_congr rfl
  intro c hc
  have hpos : 1 ≤ c := (Finset.mem_Icc.mp hc).1
  rw [h c (Nat.one_le_iff_ne_zero.mp hpos)]

/-- One more block of a small class. -/
theorem optimalBytes_succ {c₀ : ℕ} (hc₀ : c₀ ≠ kLargeAllocClass) (hle : c₀ ≤ kMaxClassIndex)
    (h : ∀ c, c ≠ kLargeAllocClass → mostLive' c = mostLive c + if c₀ = c then 1 else 0) :
    optimalBytes mostLive' largeBytes
      = optimalBytes mostLive largeBytes + (sizeOfBlockHeader + 2 ^ (c₀ + 3)) := by
  have hmem : c₀ ∈ Finset.Icc 1 kMaxClassIndex :=
    Finset.mem_Icc.mpr ⟨Nat.one_le_iff_ne_zero.mpr hc₀, hle⟩
  have hterm : ∀ c ∈ Finset.Icc 1 kMaxClassIndex,
      (sizeOfBlockHeader + 2 ^ (c + 3)) * mostLive' c
        = (sizeOfBlockHeader + 2 ^ (c + 3)) * mostLive c
          + if c₀ = c then sizeOfBlockHeader + 2 ^ (c + 3) else 0 := by
    intro c hc
    have hpos : 1 ≤ c := (Finset.mem_Icc.mp hc).1
    rw [h c (Nat.one_le_iff_ne_zero.mp hpos), Nat.mul_add]
    split <;> simp
  unfold optimalBytes
  rw [Finset.sum_congr rfl hterm, Finset.sum_add_distrib, Finset.sum_ite_eq, if_pos hmem]
  omega

theorem optimalBytes_add (mostLive : ℕ → ℕ) (largeBytes bytes : ℕ) :
    optimalBytes mostLive (largeBytes + bytes) = optimalBytes mostLive largeBytes + bytes :=
  (Nat.add_assoc ..).symm

/-! ## Balanced accounts -/

/-- The accounts of an arena: how many bytes were cut, how many blocks of each class are live
and how many are free, how many were live at most, and the bytes of the larger blocks.  They
are balanced when all bytes are accounted for, and all small blocks are live or free. -/
structure Balanced (next : ℕ) (live free mostLive : ℕ → ℕ) (largeBytes : ℕ) : Prop where
  next : next = optimalBytes mostLive largeBytes
  mostLive : ∀ c, c ≠ kLargeAllocClass → mostLive c = live c + free c

/-- The peaks after the numbers of live blocks have changed. -/
def raisePeaks (mostLive live : ℕ → ℕ) (c : ℕ) : ℕ := max (mostLive c) (live c)

section Rules

variable {next : ℕ} {live free live' free' : ℕ → ℕ}

/-- Blocks move between the user and the free lists, and no peak is raised. -/
theorem Balanced.move (h : Balanced next live free mostLive largeBytes)
    (hsum : ∀ c, c ≠ kLargeAllocClass → live' c + free' c = live c + free c) :
    Balanced next live' free' (raisePeaks mostLive live') largeBytes := by
  have hpeaks : ∀ c, c ≠ kLargeAllocClass → raisePeaks mostLive live' c = mostLive c := by
    intro c hc
    refine Nat.max_eq_left ?_
    rw [h.mostLive c hc, ← hsum c hc]
    exact Nat.le_add_right _ _
  constructor
  · rw [optimalBytes_congr hpeaks, h.next]
  · intro c hc
    rw [hpeaks c hc, h.mostLive c hc, hsum c hc]

/-- A larger block is cut. -/
theorem Balanced.add (h : Balanced next live free mostLive largeBytes) (bytes : ℕ) :
    Balanced (next + bytes) live free mostLive (largeBytes + bytes) where
  next := by rw [optimalBytes_add, h.next]
  mostLive := h.mostLive

/-- A small block is cut when none of its class is free, and the peak is raised. -/
theorem Balanced.cut (h : Balanced next live free mostLive largeBytes) {c₀ : ℕ}
    (hc₀ : c₀ ≠ kLargeAllocClass) (hle : c₀ ≤ kMaxClassIndex) (hempty : free c₀ = 0)
    (hlive : ∀ c, live' c = live c + if c₀ = c then 1 else 0) :
    Balanced (next + (sizeOfBlockHeader + 2 ^ (c₀ + 3))) live' free
      (raisePeaks mostLive live') largeBytes := by
  have hpeaks : ∀ c, c ≠ kLargeAllocClass →
      raisePeaks mostLive live' c = mostLive c + if c₀ = c then 1 else 0 := by
    intro c hc
    rw [raisePeaks, h.mostLive c hc, hlive c]
    split
    · rename_i heq
      rw [← heq, hempty]
      omega
    · omega
  constructor
  · rw [optimalBytes_succ hc₀ hle hpeaks, h.next]
  · intro c hc
    rw [hpeaks c hc, h.mostLive c hc, hlive c]
    omega

end Rules

/-! ## The accounts of a pool -/

/-- How many of the blocks belong to a class. -/
def countClass (blocks : List Block) (c : ℕ) : ℕ :=
  blocks.countP fun block => classOf block.size = c

theorem countClass_cons (block : Block) (blocks : List Block) (c : ℕ) :
    countClass (block :: blocks) c
      = countClass blocks c + if classOf block.size = c then 1 else 0 := by
  unfold countClass
  rw [List.countP_cons]
  simp only [decide_eq_true_eq]

/-- The place of an arena does not matter. -/
theorem countClass_shift (start : ℕ) (blocks : List Block) (c : ℕ) :
    countClass (blocks.map (Block.shift start)) c = countClass blocks c :=
  List.countP_map ..

namespace Pool

/-- How many blocks of each class are free. -/
def countFree (pool : Pool) (c : ℕ) : ℕ := (pool.lists c).length

/-- The accounts agree with the pool. -/
def Accounted (pool : Pool) (mostLive : ℕ → ℕ) (largeBytes : ℕ) : Prop :=
  Balanced pool.next (countClass pool.live) pool.countFree mostLive largeBytes

variable {bits : Bithacks} {pool pool' : Pool} {block : Block}

theorem accounted_new (size : ℕ) : Accounted { size := size } (fun _ => 0) 0 where
  next := by
    unfold optimalBytes
    rw [Finset.sum_eq_zero fun c _ => Nat.mul_zero _]
  mostLive _ _ := rfl

theorem length_update (pool : Pool) (c₀ : ℕ) (blocks : List Block) (c : ℕ) :
    (Function.update pool.lists c₀ blocks c).length
      = if c₀ = c then blocks.length else pool.countFree c := by
  by_cases heq : c₀ = c
  · rw [if_pos heq, ← heq, Function.update_self]
  · rw [if_neg heq, Function.update_of_ne (Ne.symm heq)]
    rfl

/-- An allocation takes a free block of the class, and cuts one if there is none. -/
theorem Accounted.allocate (hvalid : pool.Valid) (h : pool.Accounted mostLive largeBytes)
    {bytes : ℕ} (hrun : pool.execute bits (.allocate bytes) = .ok pool') :
    pool'.Accounted (raisePeaks mostLive (countClass pool'.live))
      (largeBytes + largeRequest bits bytes) := by
  obtain ⟨⟨offset, pool₁⟩, hallocate, hrun⟩ := Outcome.bind_eq_ok.mp hrun
  obtain rfl := Outcome.pure_eq_ok.mp hrun
  obtain ⟨hlive, hcases⟩ := MemoryAllocator.cases_of_allocate hallocate
  have hcount : ∀ c, countClass (⟨locateBlockHeader offset, allocToPowerOf2 bits bytes⟩ ::
      pool₁.live) c = countClass pool.live c
        + if classOf (allocToPowerOf2 bits bytes) = c then 1 else 0 := by
    intro c
    rw [countClass_cons, hlive]
  unfold Accounted countFree largeRequest
  dsimp only
  rcases hcases with ⟨hempty, hlists, hnext⟩ | ⟨block, rest, hlist, hlists, hnext⟩
  · rw [hlists, hnext]
    split
    · rename_i hlarge
      apply (h.move _).add
      intro c hc
      rw [hcount c, if_neg fun heq => hc (heq.symm.trans hlarge)]
      rfl
    · rename_i hsmall
      have hsize := eq_of_classOf hsmall
      have hfree : pool.countFree (classOf (allocToPowerOf2 bits bytes)) = 0 :=
        congrArg List.length hempty
      have hcut := h.cut hsmall (classOf_le _) hfree hcount
      rwa [← hsize] at hcut
  · have hsmall : classOf (allocToPowerOf2 bits bytes) ≠ kLargeAllocClass :=
      (hvalid.free _ block (by rw [hlist]; exact List.mem_cons_self ..)).2.1
    rw [hlists, hnext, if_neg hsmall]
    apply h.move
    intro c _
    rw [hcount c, length_update]
    split
    · rename_i heq
      have hfree : pool.countFree c = rest.length + 1 := by
        rw [← heq]
        exact congrArg List.length hlist
      omega
    · rfl

/-- The user has one block less. -/
theorem Valid.countClass_filter (h : pool.Valid) (hblock : block ∈ pool.live) (c : ℕ) :
    countClass pool.live c
      = countClass (pool.live.filter fun other => other.addr ≠ block.addr) c
        + if classOf block.size = c then 1 else 0 := by
  have hfilter : (pool.live.filter fun other => other.addr ≠ block.addr)
      = pool.live.erase block := by
    rw [h.live_nodup.erase_eq_filter]
    apply List.filter_congr
    intro other hother
    have heq : other.addr = block.addr ↔ other = block := by
      constructor
      · exact fun haddr => h.eq_of_header (h.live other hother) (h.live block hblock)
          (Nat.add_right_cancel haddr)
      · exact congrArg Block.addr
    rw [Bool.eq_iff_iff, decide_eq_true_eq, bne_iff_ne, ne_eq, heq]
  rw [hfilter, ← countClass_cons]
  exact (List.perm_cons_erase hblock).countP_eq _

/-- A deallocation puts the block into the free list of its class. -/
theorem Accounted.free (hbits : bits.Spec) (hvalid : pool.Valid)
    (h : pool.Accounted mostLive largeBytes) (hblock : block ∈ pool.live)
    (hrun : pool.execute bits (.free block.addr) = .ok pool') :
    pool'.Accounted (raisePeaks mostLive (countClass pool'.live)) largeBytes := by
  unfold Pool.execute at hrun
  dsimp only at hrun
  rw [hvalid.find?_live hblock] at hrun
  obtain ⟨pool₁, hfree, hrun⟩ := Outcome.bind_eq_ok.mp hrun
  obtain rfl := Outcome.pure_eq_ok.mp hrun
  obtain ⟨c₀, hc₀, hfree⟩ := Outcome.bind_eq_ok.mp hfree
  obtain ⟨-, hclass⟩ :=
    mod_of_getAllocClass hbits (hvalid.size block (hvalid.live block hblock)) hc₀
  have hcount := hvalid.countClass_filter hblock
  split at hfree
  · rename_i hlarge
    obtain rfl := Outcome.pure_eq_ok.mp hfree
    apply h.move
    intro c hc
    have hcount := hcount c
    rw [if_neg fun heq => hc (heq.symm.trans (hclass.symm.trans hlarge))] at hcount
    rw [hcount]
    rfl
  · obtain rfl := Outcome.pure_eq_ok.mp hfree
    apply h.move
    intro c _
    have hcount := hcount c
    rw [← hclass] at hcount
    show countClass (pool.live.filter fun other => other.addr ≠ block.addr) c
      + (Function.update pool.lists c₀ (block :: pool.lists c₀) c).length = _
    rw [length_update, hcount]
    split
    · rename_i heq
      have hlength : (block :: pool.lists c₀).length = pool.countFree c + 1 := by
        rw [← heq]
        rfl
      omega
    · rfl

end Pool

/-! ## The accounts of a heap -/

/-- A heap, with the largest number of blocks of each class that were live at a time and
the bytes of all larger blocks since the last `Reset`. -/
structure Account where
  heap : MemoryAllocator
  mostLive : ℕ → ℕ := fun _ => 0
  largeBytes : ℕ := 0

namespace Account

open MemoryAllocator (Action)

/-- The accounts after an action. -/
def record (bits : Bithacks) (account : Account) (heap : MemoryAllocator) : Action → Account
  | .allocate bytes => {
      heap := heap
      mostLive := raisePeaks account.mostLive (countClass heap.live)
      largeBytes := account.largeBytes + largeRequest bits bytes }
  | .reset => { heap := heap }
  | _ => { account with
      heap := heap
      mostLive := raisePeaks account.mostLive (countClass heap.live) }

/-- One action. -/
def execute (bits : Bithacks) (account : Account) (action : Action) : Outcome Account := do
  let heap ← account.heap.execute bits action
  return account.record bits heap action

/-- What the user may do: request up to `2 ^ 31` bytes, and use what is live. -/
def Allowed (account : Account) (action : Action) : Prop := account.heap.Allowed action

instance (account : Account) (action : Action) : Decidable (account.Allowed action) :=
  inferInstanceAs (Decidable (account.heap.Allowed action))

variable {bits : Bithacks} {account account' : Account}

/-- The heap represents a pool that agrees with the accounts. -/
def Sound (account : Account) : Prop :=
  ∃ pool : Pool, account.heap.Represents pool ∧ pool.Valid ∧
    pool.Accounted account.mostLive account.largeBytes

theorem sound_reset (heap : MemoryAllocator) : Sound { heap := heap.reset } :=
  ⟨_, MemoryAllocator.represents_reset heap, Pool.valid_new _, Pool.accounted_new _⟩

/-- The user of a heap has as many blocks of each class as that of the pool. -/
theorem countClass_live {heap : MemoryAllocator} {pool : Pool} (h : heap.Represents pool) :
    countClass heap.live = countClass pool.live := by
  funext c
  rw [h.live, countClass_shift]

theorem Sound.execute (hbits : bits.Spec) (h : account.Sound) {action : Action}
    (hallowed : account.Allowed action) (hrun : account.execute bits action = .ok account') :
    account'.Sound := by
  obtain ⟨heap, hheap, hrun⟩ := Outcome.bind_eq_ok.mp hrun
  obtain rfl := Outcome.pure_eq_ok.mp hrun
  obtain ⟨pool, hrepresents, hvalid, haccounted⟩ := h
  have hpermitted : account.heap.Permitted action := by
    cases action with
    | allocate bytes => trivial
    | _ => exact hallowed
  obtain ⟨action', pool', rfl, hallowed', hpool', -, hrepresents', hvalid'⟩ :=
    hrepresents.exists_execute hbits hvalid hpermitted hheap
  refine ⟨pool', ?_, hvalid', ?_⟩
  · cases action' <;> exact hrepresents'
  cases action' with
  | allocate bytes =>
    show pool'.Accounted (raisePeaks account.mostLive (countClass heap.live)) _
    rw [countClass_live hrepresents']
    exact haccounted.allocate hvalid hpool'
  | free offset =>
    obtain ⟨block, hblock, rfl⟩ := hallowed'
    show pool'.Accounted (raisePeaks account.mostLive (countClass heap.live)) _
    rw [countClass_live hrepresents']
    exact haccounted.free hbits hvalid hblock hpool'
  | write offset byte =>
    obtain rfl := Except.ok.inj hpool'
    show Balanced _ _ _ (raisePeaks account.mostLive (countClass heap.live)) _
    rw [countClass_live hrepresents']
    exact haccounted.move fun _ _ => rfl
  | reset =>
    obtain rfl := Except.ok.inj hpool'
    exact Pool.accounted_new _

theorem Sound.bytesAllocated (h : account.Sound) :
    account.heap.bytesAllocated = optimalBytes account.mostLive account.largeBytes := by
  obtain ⟨pool, hrepresents, -, haccounted⟩ := h
  rw [MemoryAllocator.bytesAllocated, hrepresents.next, Nat.add_sub_cancel_left]
  exact haccounted.next

theorem Sound.reaches (hbits : bits.Spec) (h : account.Sound)
    (hrun : Runs.Reaches (Account.execute bits) Allowed account account') : account'.Sound :=
  hrun.invariant (I := Sound) h fun _ _ _ hsound hallowed hstep =>
    hsound.execute hbits hallowed hstep

/-- **Small blocks are recycled optimally.**  In every run from a `Reset` the bytes that were
cut are those of as many blocks of each small class as were ever live at a time, and of all
larger blocks.  A program that raises no peak of a small class and requests no larger block
does not use more of the arena. -/
theorem bytesAllocated_of_reaches (hbits : bits.Spec) {heap : MemoryAllocator}
    (hrun : Runs.Reaches (execute bits) Allowed { heap := heap.reset } account) :
    account.heap.bytesAllocated = optimalBytes account.mostLive account.largeBytes ∧
      ∀ account', Runs.Reaches (execute bits) Allowed account account' →
        (∀ c, c ≠ kLargeAllocClass → account'.mostLive c = account.mostLive c) →
          account'.largeBytes = account.largeBytes →
            account'.heap.bytesAllocated = account.heap.bytesAllocated := by
  have hsound : account.Sound := (sound_reset heap).reaches hbits hrun
  refine ⟨hsound.bytesAllocated, ?_⟩
  intro account' hrun' hpeaks hlarge
  rw [(hsound.reaches hbits hrun').bytesAllocated, hsound.bytesAllocated, hlarge,
    optimalBytes_congr hpeaks]

/-- Two blocks of 32 bytes are live at most, although three are requested. -/
def recycled : Account :=
  (Runs.exec (execute MemoryAllocator.bithacks) Allowed
    { heap := MemoryAllocator.constructed.reset }
    [.allocate 24, .allocate 20, .free 4112, .allocate 32, .allocate 100]).getD
      { heap := MemoryAllocator.constructed }

/-- **An example of recycling.** -/
theorem bytesAllocated_of_reaches_recycled :
    recycled.mostLive 2 = 2 ∧ recycled.heap.bytesAllocated = 2 * (16 + 32) + (16 + 128) ∧
      recycled.heap.bytesAllocated = optimalBytes recycled.mostLive recycled.largeBytes := by
  have hrun : Runs.exec (execute MemoryAllocator.bithacks) Allowed
      { heap := MemoryAllocator.constructed.reset }
      [.allocate 24, .allocate 20, .free 4112, .allocate 32, .allocate 100] = some recycled := rfl
  exact ⟨by decide, by decide, (bytesAllocated_of_reaches MemoryAllocator.spec_bithacks
    (Runs.reaches_of_exec hrun)).1⟩

end Account

end Whirl.Memory
