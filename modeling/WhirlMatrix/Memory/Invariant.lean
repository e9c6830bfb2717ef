/-
# The invariant of a process heap

One invariant ties the bump pointer, the frontier of the zeroes, the headers of the
blocks and the links of the free lists together.  Here it is shown that the elementary
changes of a heap keep it: a change inside a span, a block that is taken from a free
list or put into one, a page that is filled with zeroes, and a block that is cut.
-/
import WhirlMatrix.Memory.Allocator
import Mathlib.Data.List.Pairwise
import Mathlib.Order.Bounds.Basic

namespace Whirl.Memory

open ByteMemory

/-! ## Sizes and classes -/

/-- What the allocator relies on: a size is rounded up to the least power of two that is
not smaller, and powers of two are recognized. -/
structure Bithacks.Spec (bits : Bithacks) : Prop where
  isLeast : ∀ n ≤ 2 ^ 32, IsLeast {p | (∃ k, p = 2 ^ k) ∧ n ≤ p} (bits.roundUpToNextPowerOfTwo n)
  isPowerOfTwo : ∀ n, bits.isPowerOfTwo n = true ↔ ∃ k, n = 2 ^ k

/-- The sizes of blocks for requests of at most `2 ^ 31` bytes. -/
def IsBlockSize (n : ℕ) : Prop := ∃ k, 4 ≤ k ∧ k ≤ 31 ∧ n = 2 ^ k

theorem IsBlockSize.ge {n : ℕ} (h : IsBlockSize n) : 16 ≤ n := by
  obtain ⟨k, hk, -, rfl⟩ := h
  show 2 ^ 4 ≤ 2 ^ k
  exact Nat.pow_le_pow_right (Nat.zero_lt_succ 1) hk

theorem IsBlockSize.lt {n : ℕ} (h : IsBlockSize n) : n < 256 ^ 4 := by
  obtain ⟨k, -, hk, rfl⟩ := h
  have hle : 2 ^ k ≤ 2 ^ 31 := Nat.pow_le_pow_right (by decide) hk
  omega

theorem IsBlockSize.dvd {n : ℕ} (h : IsBlockSize n) : 16 ∣ n := by
  obtain ⟨k, hk, -, rfl⟩ := h
  exact Nat.pow_dvd_pow 2 hk

variable {bits : Bithacks}

/-- A request of at most `2 ^ m` bytes is rounded up to a power of two in this range. -/
theorem exists_allocToPowerOf2 (hbits : bits.Spec) {bytes m : ℕ} (hm : 4 ≤ m) (hm' : m ≤ 32)
    (h : bytes ≤ 2 ^ m) :
    ∃ k, 4 ≤ k ∧ k ≤ m ∧ allocToPowerOf2 bits bytes = 2 ^ k := by
  have hmax : 2 ^ m ≤ 2 ^ 32 := Nat.pow_le_pow_right (by decide) hm'
  obtain ⟨⟨⟨k, hk⟩, -⟩, hleast⟩ := hbits.isLeast bytes (by omega)
  have hbound : bits.roundUpToNextPowerOfTwo bytes ≤ 2 ^ m := hleast ⟨⟨m, rfl⟩, h⟩
  unfold allocToPowerOf2
  dsimp only
  split
  · rename_i hge
    refine ⟨k, ?_, ?_, hk⟩
    · rw [hk] at hge
      exact (Nat.pow_le_pow_iff_right (by decide)).mp (show 2 ^ 4 ≤ 2 ^ k from hge)
    · rw [hk] at hbound
      exact (Nat.pow_le_pow_iff_right (by decide)).mp hbound
  · exact ⟨4, by decide, hm, rfl⟩

/-- A size is not rounded down. -/
theorem le_allocToPowerOf2 (hbits : bits.Spec) {bytes : ℕ} (h : bytes ≤ 2 ^ 32) :
    bytes ≤ allocToPowerOf2 bits bytes := by
  have hle : bytes ≤ bits.roundUpToNextPowerOfTwo bytes := (hbits.isLeast bytes h).1.2
  unfold allocToPowerOf2
  dsimp only
  split <;> omega

/-- A size is rounded up to the size of a block. -/
theorem isBlockSize_allocToPowerOf2 (hbits : bits.Spec) {bytes : ℕ} (h : bytes ≤ 2 ^ 31) :
    IsBlockSize (allocToPowerOf2 bits bytes) ∧ bytes ≤ allocToPowerOf2 bits bytes :=
  ⟨exists_allocToPowerOf2 hbits (by decide) (by decide) h, le_allocToPowerOf2 hbits (by omega)⟩

/-- A power of two has a class. -/
theorem getAllocClass_two_pow (hbits : bits.Spec) (k : ℕ) :
    getAllocClass bits (2 ^ k) = .ok (classOf (2 ^ k)) := by
  rw [getAllocClass, (hbits.isPowerOfTwo (2 ^ k)).mpr ⟨k, rfl⟩]
  rfl

theorem getAllocClass_of_isBlockSize (hbits : bits.Spec) {n : ℕ} (h : IsBlockSize n) :
    getAllocClass bits n = .ok (classOf n) := by
  obtain ⟨k, -, -, rfl⟩ := h
  exact getAllocClass_two_pow hbits k

theorem classOf_le (n : ℕ) : classOf n ≤ kMaxClassIndex := by
  unfold classOf
  split <;> decide

/-- The class of a small block determines its size. -/
theorem eq_of_classOf {n : ℕ} (h : classOf n ≠ kLargeAllocClass) : n = 2 ^ (classOf n + 3) := by
  unfold classOf at h ⊢
  split at h <;> first | rfl | exact absurd rfl h

/-! ## Headers and free lists -/

namespace Block

theorem Disjoint.symm {a b : Block} (h : a.Disjoint b) : b.Disjoint a := Or.symm h

instance : Std.Symm Block.Disjoint := ⟨fun _ _ h => h.symm⟩

/-- The header of the block says what it is. -/
def Intact (mem : Memory) (block : Block) : Prop :=
  BlockHeader.size mem block.header = block.size ∧ BlockHeader.canary mem block.header = kCanary

/-- The bytes of the header are the same. -/
def SameHeader (mem mem' : Memory) (block : Block) : Prop :=
  ∀ x, block.header ≤ x → x < block.addr → mem' x = mem x

theorem SameHeader.load {mem mem' : Memory} {block : Block} (h : SameHeader mem mem' block)
    {offset k : ℕ} (hk : offset + k ≤ 16) :
    ByteMemory.load mem' (block.header + offset) k = ByteMemory.load mem (block.header + offset) k := by
  refine load_congr fun x hle hlt => h x (by omega) ?_
  rw [addr, sizeOfBlockHeader]
  omega

theorem SameHeader.next {mem mem' : Memory} {block : Block} (h : SameHeader mem mem' block) :
    BlockHeader.next mem' block.header = BlockHeader.next mem block.header :=
  h.load (by omega)

theorem SameHeader.intact {mem mem' : Memory} {block : Block} (h : SameHeader mem mem' block)
    (hintact : block.Intact mem) : block.Intact mem' := by
  obtain ⟨hsize, hcanary⟩ := hintact
  refine ⟨?_, ?_⟩
  · rw [← hsize]
    exact h.load (show 0 + 4 ≤ 16 by omega)
  · rw [← hcanary]
    exact h.load (by omega)

end Block

/-- Only the header is written. -/
theorem writeBlockHeader_of_not_mem {mem : Memory} {addr bytes x : ℕ}
    (h : x < addr ∨ addr + sizeOfBlockHeader ≤ x) : (writeBlockHeader mem addr bytes).1 x = mem x := by
  have hheader : sizeOfBlockHeader = 16 := rfl
  show store (store mem addr 4 bytes) (addr + 4) 4 kCanary x = mem x
  rw [store_of_not_mem (by omega), store_of_not_mem (by omega)]

/-- A free list: from the head the links visit the blocks and end with the null pointer. -/
def Chain (mem : Memory) : ℕ → List Block → Prop
  | head, [] => head = 0
  | head, block :: blocks => head = block.header ∧ Chain mem (BlockHeader.next mem block.header) blocks

theorem Chain.congr {mem mem' : Memory} {head : ℕ} {blocks : List Block}
    (h : Chain mem head blocks)
    (hnext : ∀ block ∈ blocks,
      BlockHeader.next mem' block.header = BlockHeader.next mem block.header) :
    Chain mem' head blocks := by
  induction blocks generalizing head with
  | nil => exact h
  | cons block blocks ih =>
    obtain ⟨hhead, hrest⟩ := h
    refine ⟨hhead, ?_⟩
    rw [hnext block (List.mem_cons_self ..)]
    exact ih hrest fun block' hblock' => hnext block' (List.mem_cons_of_mem _ hblock')

/-! ## The invariant -/

namespace MemoryAllocator

/-- A block that was cut from the arena between its start and the bump pointer. -/
structure Placed (mem : Memory) (start next : ℕ) (block : Block) : Prop where
  aligned : 16 ∣ block.header
  start_le : start ≤ block.header
  stop_le : block.stop ≤ next
  size : IsBlockSize block.size
  intact : block.Intact mem

/-- The heap is sound, with the blocks of the free list of each class. -/
structure Sound (heap : MemoryAllocator) (lists : ℕ → List Block) : Prop where
  aligned : 16 ∣ heap.next
  start_le : heap.arena.start ≤ heap.next
  next_le : heap.next ≤ heap.zfilled
  zfilled_le : heap.zfilled ≤ heap.arena.stop
  pages : 4096 ∣ heap.zfilled - heap.arena.start
  /-- Behind the bump pointer the arena is still filled with zeroes. -/
  zero : ∀ x, heap.next ≤ x → x < heap.zfilled → heap.mem x = 0
  placed : ∀ block ∈ heap.handedOut, Placed heap.mem heap.arena.start heap.next block
  apart : heap.handedOut.Pairwise Block.Disjoint
  live : ∀ block ∈ heap.live, block ∈ heap.handedOut
  live_nodup : heap.live.Nodup
  chain : ∀ c, Chain heap.mem (heap.blockLists c) (lists c)
  free : ∀ c, ∀ block ∈ lists c,
    block ∈ heap.handedOut ∧ classOf block.size = c ∧ block ∉ heap.live
  free_nodup : ∀ c, (lists c).Nodup
  /-- What was filled with zeroes lies in the arena and behind the blocks handed out. -/
  zeroFills : ∀ zeroFill ∈ heap.zeroFills, heap.arena.start ≤ zeroFill.start ∧
    zeroFill.start + kZFillBlockSize ≤ heap.arena.stop ∧
      ∀ block ∈ zeroFill.handedOut, block.stop ≤ zeroFill.start

variable {heap heap' : MemoryAllocator} {lists : ℕ → List Block}

theorem Sound.disjoint (h : heap.Sound lists) {a b : Block} (ha : a ∈ heap.handedOut)
    (hb : b ∈ heap.handedOut) (hne : a ≠ b) : a.Disjoint b :=
  h.apart.forall ha hb hne

/-- The memory changes, but neither the headers nor the zeroes behind the bump pointer. -/
theorem Sound.setMem (h : heap.Sound lists) {mem : Memory}
    (hsame : ∀ block ∈ heap.handedOut, block.SameHeader heap.mem mem)
    (hzero : ∀ x, heap.next ≤ x → x < heap.zfilled → mem x = heap.mem x) :
    { heap with mem := mem }.Sound lists :=
  { h with
    zero := fun x hle hlt => (hzero x hle hlt).trans (h.zero x hle hlt)
    placed := fun block hblock =>
      { h.placed block hblock with intact := (hsame block hblock).intact (h.placed block hblock).intact }
    chain := fun c => (h.chain c).congr fun block hblock => (hsame block (h.free c block hblock).1).next }

/-- Only the span of a block changes. -/
theorem Sound.setSpan (h : heap.Sound lists) {block : Block} (hblock : block ∈ heap.handedOut)
    {mem : Memory} (hspan : ∀ x, x < block.addr ∨ block.stop ≤ x → mem x = heap.mem x) :
    { heap with mem := mem }.Sound lists := by
  refine h.setMem (fun other hother x hle hlt => hspan x ?_) fun x hle _ => hspan x ?_
  · by_cases heq : other = block
    · rw [← heq]
      exact Or.inl hlt
    · have haddr : block.addr = block.header + 16 := rfl
      have hother' : other.addr ≤ other.stop := Nat.le_add_right _ _
      rcases h.disjoint hother hblock heq with hbefore | hafter
      · left; omega
      · right; omega
  · have hstop := (h.placed block hblock).stop_le
    right; omega

/-- The user gets a block that was free. -/
theorem Sound.hold (h : heap.Sound lists) {block : Block} (hblock : block ∈ heap.handedOut)
    (hlive : block ∉ heap.live) (hfree : ∀ c, block ∉ lists c) :
    { heap with live := block :: heap.live }.Sound lists :=
  { h with
    live := fun other hother => by
      rcases List.mem_cons.mp hother with rfl | hother
      · exact hblock
      · exact h.live other hother
    live_nodup := List.nodup_cons.mpr ⟨hlive, h.live_nodup⟩
    free := fun c other hother => by
      obtain ⟨hhanded, hclass, hother'⟩ := h.free c other hother
      refine ⟨hhanded, hclass, fun hmem => ?_⟩
      rcases List.mem_cons.mp hmem with rfl | hmem
      · exact hfree c hother
      · exact hother' hmem }

/-- The user gives a block back. -/
theorem Sound.drop (h : heap.Sound lists) (p : Block → Bool) :
    { heap with live := heap.live.filter p }.Sound lists :=
  { h with
    live := fun block hblock => h.live block (List.mem_filter.mp hblock).1
    live_nodup := h.live_nodup.filter p
    free := fun c block hblock => by
      obtain ⟨hhanded, hclass, hlive⟩ := h.free c block hblock
      exact ⟨hhanded, hclass, fun hmem => hlive (List.mem_filter.mp hmem).1⟩ }

/-! ## Free lists -/

/-- A block leaves the free list of its class. -/
theorem Sound.pop (h : heap.Sound lists) {c : ℕ} (hhead : heap.blockLists c ≠ 0) :
    ∃ block rest, heap.blockLists c = block.header ∧ lists c = block :: rest ∧
      { heap with
        blockLists := Function.update heap.blockLists c (BlockHeader.next heap.mem block.header)
        }.Sound (Function.update lists c rest) := by
  have hchain := h.chain c
  cases hlist : lists c with
  | nil =>
    rw [hlist] at hchain
    exact absurd hchain hhead
  | cons block rest =>
    rw [hlist] at hchain
    obtain ⟨hblock, hrest⟩ := hchain
    have hsub : ∀ c', ∀ other ∈ Function.update lists c rest c', other ∈ lists c' := by
      intro c' other hother
      rcases eq_or_ne c' c with rfl | hne
      · rw [Function.update_self] at hother
        rw [hlist]
        exact List.mem_cons_of_mem _ hother
      · rwa [Function.update_of_ne hne] at hother
    refine ⟨block, rest, hblock, rfl, { h with
      chain := fun c' => ?_
      free := fun c' other hother => h.free c' other (hsub c' other hother)
      free_nodup := fun c' => ?_ }⟩
    · show Chain heap.mem (Function.update heap.blockLists c _ c') _
      rcases eq_or_ne c' c with rfl | hne
      · rw [Function.update_self, Function.update_self]
        exact hrest
      · rw [Function.update_of_ne hne, Function.update_of_ne hne]
        exact h.chain c'
    · rcases eq_or_ne c' c with rfl | hne
      · rw [Function.update_self]
        have hnodup := h.free_nodup c'
        rw [hlist] at hnodup
        exact (List.nodup_cons.mp hnodup).2
      · rw [Function.update_of_ne hne]
        exact h.free_nodup c'

/-- The head of a free list is the null pointer or a block of the arena. -/
theorem Sound.head_lt (h : heap.Sound lists) (c : ℕ) : heap.blockLists c < 256 ^ 8 := by
  have hchain := h.chain c
  cases hlist : lists c with
  | nil =>
    rw [hlist] at hchain
    rw [show heap.blockLists c = 0 from hchain]
    decide
  | cons block rest =>
    rw [hlist] at hchain
    have hblock : block ∈ lists c := by
      rw [hlist]
      exact List.mem_cons_self ..
    have hstop := (h.placed block (h.free c block hblock).1).stop_le
    have hfits := heap.arena.fits
    have hnext := h.next_le.trans h.zfilled_le
    have haddr : block.stop = block.header + 16 + block.size := rfl
    have harena : heap.arena.stop = heap.arena.start + heap.arena.size := rfl
    rw [show heap.blockLists c = block.header from hchain.1]
    omega

/-- A block enters the free list of its class. -/
theorem Sound.push (h : heap.Sound lists) {block : Block} (hblock : block ∈ heap.handedOut)
    (hlive : block ∉ heap.live) (hfree : ∀ c, block ∉ lists c) {c : ℕ}
    (hclass : classOf block.size = c) :
    { heap with
      mem := store heap.mem (block.header + 8) 8 (heap.blockLists c)
      blockLists := Function.update heap.blockLists c block.header }.Sound
        (Function.update lists c (block :: lists c)) := by
  have hplaced := h.placed block hblock
  have hstop : block.stop = block.header + 16 + block.size := rfl
  -- only the link of the block itself is written
  have hother : ∀ other ∈ heap.handedOut, other ≠ block →
      other.SameHeader heap.mem (store heap.mem (block.header + 8) 8 (heap.blockLists c)) := by
    intro other hother hne x hle hlt
    have haddr : other.addr = other.header + 16 := rfl
    have hother' : other.stop = other.header + 16 + other.size := rfl
    refine store_of_not_mem ?_
    rcases h.disjoint hother hblock hne with hbefore | hafter
    · left; omega
    · right; omega
  have hmem : ∀ c', ∀ other ∈ Function.update lists c (block :: lists c) c',
      (other = block ∧ c' = c) ∨ other ∈ lists c' := by
    intro c' other hother
    rcases eq_or_ne c' c with rfl | hne
    · rw [Function.update_self] at hother
      exact (List.mem_cons.mp hother).imp_left fun heq => ⟨heq, rfl⟩
    · rw [Function.update_of_ne hne] at hother
      exact Or.inr hother
  refine { h with
    zero := fun x hle hlt => ?_
    placed := fun other hother' => { h.placed other hother' with intact := ?_ }
    chain := fun c' => ?_
    free := fun c' other hother' => ?_
    free_nodup := fun c' => ?_ }
  · refine (store_of_not_mem (Or.inr ?_)).trans (h.zero x hle hlt)
    have hle' : heap.next ≤ x := hle
    have hnext := hplaced.stop_le
    omega
  · by_cases heq : other = block
    · subst heq
      obtain ⟨hsize, hcanary⟩ := hplaced.intact
      refine ⟨?_, ?_⟩
      · rw [← hsize]
        exact load_store_of_disjoint (Or.inl (by omega))
      · rw [← hcanary]
        exact load_store_of_disjoint (Or.inl (by omega))
    · exact (hother other hother' heq).intact (h.placed other hother').intact
  · have hkeep : ∀ c', Chain (store heap.mem (block.header + 8) 8 (heap.blockLists c))
        (heap.blockLists c') (lists c') := by
      intro c'
      refine (h.chain c').congr fun other hother' => (hother other (h.free c' other hother').1 ?_).next
      rintro rfl
      exact hfree c' hother'
    show Chain _ (Function.update heap.blockLists c block.header c') _
    rcases eq_or_ne c' c with rfl | hne
    · rw [Function.update_self, Function.update_self]
      refine ⟨rfl, ?_⟩
      rw [BlockHeader.next, load_store_self (h.head_lt c')]
      exact hkeep c'
    · rw [Function.update_of_ne hne, Function.update_of_ne hne]
      exact hkeep c'
  · rcases hmem c' other hother' with ⟨rfl, rfl⟩ | hother'
    · exact ⟨hblock, hclass, hlive⟩
    · exact h.free c' other hother'
  · rcases eq_or_ne c' c with rfl | hne
    · rw [Function.update_self]
      exact List.nodup_cons.mpr ⟨hfree c', h.free_nodup c'⟩
    · rw [Function.update_of_ne hne]
      exact h.free_nodup c'

/-! ## New blocks -/

/-- One `memset` of `ZeroFillTo` moves the frontier of the zeroes. -/
theorem Sound.zeroFill (h : heap.Sound lists)
    (hroom : heap.zfilled + kZFillBlockSize ≤ heap.arena.stop) :
    { heap with
      mem := fill heap.mem heap.zfilled kZFillBlockSize 0
      zfilled := heap.zfilled + kZFillBlockSize
      zeroFills := heap.zeroFills ++ [ZeroFill.mk heap.zfilled heap.handedOut] }.Sound lists := by
  have hnext := h.next_le
  have hstart := h.start_le
  -- all blocks lie before the frontier
  have hbefore : ∀ block ∈ heap.handedOut, block.stop ≤ heap.zfilled := fun block hblock =>
    (h.placed block hblock).stop_le.trans hnext
  have hsame : ∀ block ∈ heap.handedOut,
      block.SameHeader heap.mem (fill heap.mem heap.zfilled kZFillBlockSize 0) := by
    intro block hblock x _ hlt
    have hstop := hbefore block hblock
    have haddr : block.stop = block.addr + block.size := rfl
    exact fill_of_not_mem (Or.inl (by omega))
  refine { h with
    next_le := hnext.trans (Nat.le_add_right _ _)
    zfilled_le := hroom
    pages := ?_
    zero := fun x hle hlt => ?_
    placed := fun block hblock =>
      { h.placed block hblock with intact := (hsame block hblock).intact (h.placed block hblock).intact }
    chain := fun c => (h.chain c).congr fun block hblock => (hsame block (h.free c block hblock).1).next
    zeroFills := fun zeroFill hzeroFill => ?_ }
  · show 4096 ∣ heap.zfilled + 4096 - heap.arena.start
    have hpages := h.pages
    omega
  · show fill heap.mem heap.zfilled kZFillBlockSize 0 x = 0
    by_cases hold : x < heap.zfilled
    · rw [fill_of_not_mem (Or.inl hold)]
      exact h.zero x hle hold
    · exact fill_of_mem (Nat.not_lt.mp hold) hlt
  · rcases List.mem_append.mp hzeroFill with hzeroFill | hzeroFill
    · exact h.zeroFills zeroFill hzeroFill
    · rw [List.mem_singleton.mp hzeroFill]
      exact ⟨hstart.trans hnext, hroom, hbefore⟩

/-- **The loop of `ZeroFillTo`** ends behind a position, and keeps what every page keeps.
Induction on the turns: each one moves the frontier by one page. -/
theorem exists_zeroFillTo {pos turns : ℕ} {I : MemoryAllocator → Prop} (hinit : I heap)
    (hturns : pos < heap.zfilled + kZFillBlockSize * turns)
    (hpage : ∀ heap, I heap → heap.zfilled ≤ pos → I { heap with
      mem := fill heap.mem heap.zfilled kZFillBlockSize 0
      zfilled := heap.zfilled + kZFillBlockSize
      zeroFills := heap.zeroFills ++ [⟨heap.zfilled, heap.handedOut⟩] }) :
    ∃ heap', heap.zeroFillTo pos (turns + 1) = .ok heap' ∧ pos < heap'.zfilled ∧ I heap' := by
  induction turns generalizing heap with
  | zero =>
    have hlt : ¬ pos ≥ heap.zfilled := by omega
    refine ⟨heap, ?_, by omega, hinit⟩
    rw [zeroFillTo, if_neg hlt]
  | succ turns ih =>
    rw [zeroFillTo]
    by_cases hge : pos ≥ heap.zfilled
    · rw [if_pos hge]
      have hless : pos < heap.zfilled + kZFillBlockSize + kZFillBlockSize * turns := by
        rw [Nat.mul_succ] at hturns
        omega
      exact ih (hpage heap hinit hge) hless
    · rw [if_neg hge]
      exact ⟨heap, rfl, Nat.lt_of_not_ge hge, hinit⟩

/-- The turns that `AllocateNewBlock` grants to the loop are enough. -/
theorem lt_turns (pos zfilled : ℕ) :
    pos < zfilled + kZFillBlockSize * ((pos - zfilled) / kZFillBlockSize + 1) := by
  unfold kZFillBlockSize
  omega

/-- A page behind a position in the arena lies in the arena. -/
theorem page_le {arena : Arena} {zfilled pos : ℕ} (hstart : arena.start ≤ zfilled)
    (hpages : 4096 ∣ zfilled - arena.start) (hle : zfilled ≤ pos) (hpos : pos < arena.stop) :
    zfilled + kZFillBlockSize ≤ arena.stop := by
  obtain ⟨j, hj⟩ := arena.pages
  have hstop : arena.stop = arena.start + arena.size := rfl
  have hpage : kZFillBlockSize = 4096 := rfl
  omega

/-- The loop of `ZeroFillTo` keeps the heap sound. -/
theorem Sound.zeroFillTo {pos turns : ℕ} (h : heap.Sound lists) (hpos : pos < heap.arena.stop)
    (hturns : pos < heap.zfilled + kZFillBlockSize * turns) :
    ∃ mem zfilled zeroFills, pos < zfilled ∧
      heap.zeroFillTo pos (turns + 1) = .ok { heap with
        mem := mem
        zfilled := zfilled
        zeroFills := zeroFills } ∧
      { heap with
        mem := mem
        zfilled := zfilled
        zeroFills := zeroFills }.Sound lists := by
  obtain ⟨_, hrun, hroom, ⟨mem, zfilled, zeroFills, rfl⟩, hsound⟩ := exists_zeroFillTo
    (I := fun heap' => (∃ mem zfilled zeroFills, heap' = { heap with
      mem := mem
      zfilled := zfilled
      zeroFills := zeroFills }) ∧ heap'.Sound lists) ⟨⟨_, _, _, rfl⟩, h⟩ hturns (by
    rintro _ ⟨⟨mem, zfilled, zeroFills, rfl⟩, hsound⟩ hle
    refine ⟨⟨_, _, _, rfl⟩, hsound.zeroFill ?_⟩
    exact page_le (hsound.start_le.trans hsound.next_le) hsound.pages hle hpos)
  exact ⟨mem, zfilled, zeroFills, hroom, hrun, hsound⟩

/-- A block with its header is cut from the zeroes behind the bump pointer. -/
theorem Sound.cut (h : heap.Sound lists) {bytes : ℕ} (hsize : IsBlockSize bytes)
    (hroom : heap.next + sizeOfBlockHeader + bytes < heap.zfilled) :
    { heap with
      mem := (writeBlockHeader heap.mem heap.next bytes).1
      next := (writeBlockHeader heap.mem heap.next bytes).2 + bytes
      handedOut := Block.mk heap.next bytes :: heap.handedOut }.Sound lists := by
  have haligned := h.aligned
  have hstart := h.start_le
  have hheader : sizeOfBlockHeader = 16 := rfl
  have hsame : ∀ block ∈ heap.handedOut,
      block.SameHeader heap.mem (writeBlockHeader heap.mem heap.next bytes).1 := by
    intro block hblock x _ hlt
    have hstop := (h.placed block hblock).stop_le
    have haddr : block.stop = block.addr + block.size := rfl
    exact writeBlockHeader_of_not_mem (by omega)
  have hnew : (Block.mk heap.next bytes).Intact (writeBlockHeader heap.mem heap.next bytes).1 := by
    refine ⟨?_, ?_⟩
    · show load (store (store heap.mem heap.next 4 bytes) (heap.next + 4) 4 kCanary) heap.next 4 = bytes
      rw [load_store_of_disjoint (by omega), load_store_self hsize.lt]
    · exact load_store_self (by decide)
  constructor
  · show 16 ∣ heap.next + 16 + bytes
    have hdvd := hsize.dvd
    omega
  · show heap.arena.start ≤ heap.next + 16 + bytes
    omega
  · show heap.next + 16 + bytes ≤ heap.zfilled
    omega
  · exact h.zfilled_le
  · exact h.pages
  · intro x hle hlt
    have hle : heap.next + 16 + bytes ≤ x := hle
    exact (writeBlockHeader_of_not_mem (by omega)).trans (h.zero x (by omega) hlt)
  · intro block hblock
    rcases List.mem_cons.mp hblock with rfl | hblock
    · exact ⟨haligned, hstart, Nat.le_refl _, hsize, hnew⟩
    · have hplaced := h.placed block hblock
      have hstop := hplaced.stop_le
      refine { hplaced with stop_le := ?_, intact := (hsame block hblock).intact hplaced.intact }
      show block.stop ≤ heap.next + 16 + bytes
      omega
  · refine List.pairwise_cons.mpr ⟨fun block hblock => Or.inr ?_, h.apart⟩
    exact (h.placed block hblock).stop_le
  · exact fun block hblock => List.mem_cons_of_mem _ (h.live block hblock)
  · exact h.live_nodup
  · exact fun c => (h.chain c).congr fun block hblock => (hsame block (h.free c block hblock).1).next
  · exact fun c block hblock =>
      (h.free c block hblock).imp_left fun hhanded => List.mem_cons_of_mem _ hhanded
  · exact h.free_nodup
  · exact h.zeroFills

end MemoryAllocator

end Whirl.Memory
