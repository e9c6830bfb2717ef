/-
# What a heap is for its user

A pool is a heap without an arena: blocks have offsets instead of addresses, the links of
the free lists are offsets, and the only bytes are those of the spans.  It says which
offset an allocation gets and which bytes are there, and nothing in it depends on where
the arena lies or on what the arena held before.
-/
import WhirlMatrix.Memory.Invariant

namespace Whirl.Memory

open ByteMemory

/-- A heap with offsets in place of addresses. -/
structure Pool where
  size : ℕ
  next : ℕ := 0
  /-- The blocks that were cut. -/
  blocks : List Block := []
  live : List Block := []
  /-- The free blocks of each class. -/
  lists : ℕ → List Block := fun _ => []
  /-- The link in the header at an offset. -/
  links : ℕ → Option ℕ := fun _ => none
  /-- The byte at an offset in a span. -/
  contents : Memory := fun _ => 0

namespace Pool

open MemoryAllocator (arenaOverflow isAllocationTooLarge Action)

/-! ## Operations -/

/-- A new block behind all others. -/
def cut (pool : Pool) (bytes : ℕ) : Outcome (ℕ × Pool) :=
  if pool.next + sizeOfBlockHeader + bytes ≥ pool.size then
    .error (arenaOverflow bytes)
  else
    .ok ((Block.mk pool.next bytes).addr, { pool with
      next := (Block.mk pool.next bytes).stop
      blocks := ⟨pool.next, bytes⟩ :: pool.blocks
      links := Function.update pool.links pool.next none
      contents := fill pool.contents (Block.mk pool.next bytes).addr bytes 0 })

/-- The free block that was given back last, or a new one; it holds zeroes. -/
def allocate (bits : Bithacks) (pool : Pool) (bytes : ℕ) : Outcome (ℕ × Pool) :=
  if isAllocationTooLarge bytes then
    .error (.panic s!"Allocation is too large: {bytes}")
  else
    match pool.lists (classOf (allocToPowerOf2 bits bytes)) with
    | [] => pool.cut (allocToPowerOf2 bits bytes)
    | block :: rest => .ok (block.addr, { pool with
        lists := Function.update pool.lists (classOf (allocToPowerOf2 bits bytes)) rest
        contents := fill pool.contents block.addr block.size 0 })

/-- A block enters the free list of its class.  The size in its header has 32 bits. -/
def free (bits : Bithacks) (pool : Pool) (block : Block) : Outcome Pool := do
  let allocClass ← getAllocClass bits (block.size % 2 ^ 32)
  if allocClass = kLargeAllocClass then
    return pool
  else
    return { pool with
      lists := Function.update pool.lists allocClass (block :: pool.lists allocClass)
      links := Function.update pool.links block.header
        ((pool.lists allocClass).head?.map Block.header) }

/-- One action, with offsets in place of addresses. -/
def execute (bits : Bithacks) (pool : Pool) : Action → Outcome Pool
  | .allocate bytes => do
    let (offset, pool) ← pool.allocate bits bytes
    return { pool with
      live := ⟨locateBlockHeader offset, allocToPowerOf2 bits bytes⟩ :: pool.live }
  | .free offset =>
    match pool.live.find? fun block => block.addr = offset with
    | none => .error .undefined
    | some block => do
      let pool ← pool.free bits block
      return { pool with live := pool.live.filter fun block => block.addr ≠ offset }
  | .write offset byte => .ok { pool with contents := Function.update pool.contents offset byte }
  | .reset => .ok { size := pool.size }

/-- What the user may do: request any number of bytes, free what is live, and write to what
is live. -/
def Allowed (pool : Pool) : Action → Prop
  | .allocate _ => True
  | .free offset => ∃ block ∈ pool.live, block.addr = offset
  | .write offset _ => ∃ block ∈ pool.live, block.addr ≤ offset ∧ offset < block.stop
  | .reset => True

end Pool

/-! ## Sizes -/

/-- The sizes of blocks: the largest one is that of a request with a full `uint32_t`. -/
def IsSpanSize (n : ℕ) : Prop := ∃ k, 4 ≤ k ∧ k ≤ 32 ∧ n = 2 ^ k

theorem IsSpanSize.pos {n : ℕ} (h : IsSpanSize n) : 0 < n := by
  obtain ⟨k, -, -, rfl⟩ := h
  exact Nat.two_pow_pos k

theorem IsSpanSize.dvd {n : ℕ} (h : IsSpanSize n) : 16 ∣ n := by
  obtain ⟨k, hk, -, rfl⟩ := h
  exact Nat.pow_dvd_pow 2 hk

/-- A request that is not too large gets a span. -/
theorem isSpanSize_allocToPowerOf2 {bits : Bithacks} (hbits : bits.Spec) {bytes : ℕ}
    (h : ¬ MemoryAllocator.isAllocationTooLarge bytes = true) :
    IsSpanSize (allocToPowerOf2 bits bytes) := by
  rw [MemoryAllocator.isAllocationTooLarge, decide_eq_true_eq] at h
  exact (exists_allocToPowerOf2 hbits (m := 32) (by decide) (by decide) (by omega)).imp
    fun k hk => ⟨hk.1, hk.2.1, hk.2.2⟩

/-! ## The invariant -/

namespace Pool

/-- Each block of a free list is linked to the next one. -/
def Linked (links : ℕ → Option ℕ) : List Block → Prop
  | [] => True
  | block :: blocks => links block.header = blocks.head?.map Block.header ∧ Linked links blocks

/-- The blocks lie one behind the other, and a free block is in one list once. -/
structure Valid (pool : Pool) : Prop where
  aligned : 16 ∣ pool.next
  header : ∀ block ∈ pool.blocks, 16 ∣ block.header
  stop_le : ∀ block ∈ pool.blocks, block.stop ≤ pool.next
  size : ∀ block ∈ pool.blocks, IsSpanSize block.size
  apart : pool.blocks.Pairwise Block.Disjoint
  live : ∀ block ∈ pool.live, block ∈ pool.blocks
  live_nodup : pool.live.Nodup
  free : ∀ c, ∀ block ∈ pool.lists c, block ∈ pool.blocks ∧ c ≠ kLargeAllocClass ∧
    classOf block.size = c ∧ block ∉ pool.live
  free_nodup : ∀ c, (pool.lists c).Nodup
  linked : ∀ c, Linked pool.links (pool.lists c)

/-- A block that is ready to be held by the user. -/
structure Fresh (pool : Pool) (block : Block) : Prop where
  mem : block ∈ pool.blocks
  not_live : block ∉ pool.live
  not_free : ∀ c, block ∉ pool.lists c

variable {bits : Bithacks} {pool pool' : Pool} {block : Block}

/-- A new pool has no blocks. -/
theorem valid_new (size : ℕ) : Valid { size := size } where
  aligned := Nat.dvd_zero 16
  header _ hblock := absurd hblock List.not_mem_nil
  stop_le _ hblock := absurd hblock List.not_mem_nil
  size _ hblock := absurd hblock List.not_mem_nil
  apart := List.Pairwise.nil
  live _ hblock := absurd hblock List.not_mem_nil
  live_nodup := List.nodup_nil
  free _ _ hblock := absurd hblock List.not_mem_nil
  free_nodup _ := List.nodup_nil
  linked _ := trivial

theorem Valid.disjoint (h : pool.Valid) {a b : Block} (ha : a ∈ pool.blocks)
    (hb : b ∈ pool.blocks) (hne : a ≠ b) : a.Disjoint b :=
  h.apart.forall ha hb hne

/-- A block is known by its header. -/
theorem Valid.eq_of_header (h : pool.Valid) {a b : Block} (ha : a ∈ pool.blocks)
    (hb : b ∈ pool.blocks) (heq : a.header = b.header) : a = b := by
  by_contra hne
  have ha' : a.stop = a.header + 16 + a.size := rfl
  have hb' : b.stop = b.header + 16 + b.size := rfl
  rcases h.disjoint ha hb hne with hbefore | hafter
  · omega
  · omega

/-- The bytes of the spans do not matter. -/
theorem Valid.setContents (h : pool.Valid) (contents : Memory) :
    { pool with contents := contents }.Valid :=
  { h with }

/-- The user gets a block that is ready. -/
theorem Valid.hold (h : pool.Valid) (hblock : pool.Fresh block) :
    { pool with live := block :: pool.live }.Valid :=
  { h with
    live := fun other hother => by
      rcases List.mem_cons.mp hother with rfl | hother
      · exact hblock.mem
      · exact h.live other hother
    live_nodup := List.nodup_cons.mpr ⟨hblock.not_live, h.live_nodup⟩
    free := fun c other hother => by
      obtain ⟨hmem, hc, hclass, hlive⟩ := h.free c other hother
      refine ⟨hmem, hc, hclass, fun hlive' => ?_⟩
      rcases List.mem_cons.mp hlive' with rfl | hlive'
      · exact hblock.not_free c hother
      · exact hlive hlive' }

/-- The user gives a block back. -/
theorem Valid.drop (h : pool.Valid) (p : Block → Bool) :
    { pool with live := pool.live.filter p }.Valid :=
  { h with
    live := fun other hother => h.live other (List.mem_filter.mp hother).1
    live_nodup := h.live_nodup.filter p
    free := fun c other hother => by
      obtain ⟨hmem, hc, hclass, hlive⟩ := h.free c other hother
      exact ⟨hmem, hc, hclass, fun hlive' => hlive (List.mem_filter.mp hlive').1⟩ }

/-! ### Free lists -/

/-- A link elsewhere does not matter. -/
theorem Linked.update {links : ℕ → Option ℕ} {blocks : List Block} (h : Linked links blocks)
    {header : ℕ} {link : Option ℕ} (hne : ∀ block ∈ blocks, block.header ≠ header) :
    Linked (Function.update links header link) blocks := by
  induction blocks with
  | nil => trivial
  | cons block blocks ih =>
    refine ⟨?_, ih h.2 fun other hother => hne other (List.mem_cons_of_mem _ hother)⟩
    rw [Function.update_of_ne (hne block (List.mem_cons_self ..))]
    exact h.1

/-- The first block leaves the free list of a class. -/
theorem Valid.pop (h : pool.Valid) {c : ℕ} {rest : List Block}
    (hlist : pool.lists c = block :: rest) :
    { pool with lists := Function.update pool.lists c rest }.Valid ∧
      { pool with lists := Function.update pool.lists c rest }.Fresh block := by
  have hmem : block ∈ pool.lists c := by
    rw [hlist]
    exact List.mem_cons_self ..
  have hnodup : (block :: rest).Nodup := hlist ▸ h.free_nodup c
  have hlinked : Linked pool.links (block :: rest) := hlist ▸ h.linked c
  have hsub : ∀ c', ∀ other ∈ Function.update pool.lists c rest c', other ∈ pool.lists c' := by
    intro c' other hother
    by_cases heq : c' = c
    · subst heq
      rw [Function.update_self] at hother
      rw [hlist]
      exact List.mem_cons_of_mem _ hother
    · rwa [Function.update_of_ne heq] at hother
  obtain ⟨hblock, -, hclass, hlive⟩ := h.free c block hmem
  refine ⟨{ h with
    free := fun c' other hother => h.free c' other (hsub c' other hother)
    free_nodup := fun c' => ?_
    linked := fun c' => ?_ }, hblock, hlive, fun c' hother => ?_⟩
  · show (Function.update pool.lists c rest c').Nodup
    by_cases heq : c' = c
    · subst heq
      rw [Function.update_self]
      exact (List.nodup_cons.mp hnodup).2
    · rw [Function.update_of_ne heq]
      exact h.free_nodup c'
  · show Linked pool.links (Function.update pool.lists c rest c')
    by_cases heq : c' = c
    · subst heq
      rw [Function.update_self]
      exact hlinked.2
    · rw [Function.update_of_ne heq]
      exact h.linked c'
  · -- the block was in the list of its class only
    by_cases heq : c' = c
    · subst heq
      have hother : block ∈ Function.update pool.lists c' rest c' := hother
      rw [Function.update_self] at hother
      exact (List.nodup_cons.mp hnodup).1 hother
    · exact heq ((h.free c' block (hsub c' block hother)).2.2.1.symm.trans hclass)

/-- A block enters the free list of its class. -/
theorem Valid.push (h : pool.Valid) (hblock : pool.Fresh block) {c : ℕ}
    (hc : c ≠ kLargeAllocClass) (hclass : classOf block.size = c) :
    { pool with
      lists := Function.update pool.lists c (block :: pool.lists c)
      links := Function.update pool.links block.header
        ((pool.lists c).head?.map Block.header) }.Valid := by
  have hkeep : ∀ c', Linked (Function.update pool.links block.header
      ((pool.lists c).head?.map Block.header)) (pool.lists c') := by
    refine fun c' => (h.linked c').update fun other hother heq => ?_
    have hsame : other = block := h.eq_of_header (h.free c' other hother).1 hblock.mem heq
    exact hblock.not_free c' (hsame ▸ hother)
  refine { h with
    free := fun c' other hother => ?_
    free_nodup := fun c' => ?_
    linked := fun c' => ?_ }
  · have hother : other ∈ Function.update pool.lists c (block :: pool.lists c) c' := hother
    by_cases heq : c' = c
    · subst heq
      rw [Function.update_self] at hother
      rcases List.mem_cons.mp hother with rfl | hother
      · exact ⟨hblock.mem, hc, hclass, hblock.not_live⟩
      · exact h.free c' other hother
    · rw [Function.update_of_ne heq] at hother
      exact h.free c' other hother
  · show (Function.update pool.lists c (block :: pool.lists c) c').Nodup
    by_cases heq : c' = c
    · subst heq
      rw [Function.update_self]
      exact List.nodup_cons.mpr ⟨hblock.not_free c', h.free_nodup c'⟩
    · rw [Function.update_of_ne heq]
      exact h.free_nodup c'
  · show Linked _ (Function.update pool.lists c (block :: pool.lists c) c')
    by_cases heq : c' = c
    · subst heq
      rw [Function.update_self]
      exact ⟨Function.update_self .., hkeep c'⟩
    · rw [Function.update_of_ne heq]
      exact hkeep c'

/-! ### New blocks -/

/-- A block is cut behind all others. -/
theorem Valid.cut (h : pool.Valid) {bytes offset : ℕ} (hsize : IsSpanSize bytes)
    (hrun : pool.cut bytes = .ok (offset, pool')) :
    pool'.Valid ∧ pool'.size = pool.size ∧ pool'.live = pool.live ∧
      ∃ block, offset = block.addr ∧ block.size = bytes ∧ pool'.Fresh block := by
  unfold Pool.cut at hrun
  split at hrun
  · exact absurd hrun (by simp)
  obtain ⟨rfl, rfl⟩ := Prod.mk.inj (Except.ok.inj hrun)
  have hstop : (Block.mk pool.next bytes).stop = pool.next + 16 + bytes := rfl
  have hunknown : Block.mk pool.next bytes ∉ pool.blocks := by
    intro hmem
    have hle := h.stop_le _ hmem
    omega
  refine ⟨?_, rfl, rfl, ⟨pool.next, bytes⟩, rfl, rfl, List.mem_cons_self ..,
    fun hlive => hunknown (h.live _ hlive), fun c hfree => hunknown (h.free c _ hfree).1⟩
  constructor
  · show 16 ∣ pool.next + 16 + bytes
    have haligned := h.aligned
    have hdvd := hsize.dvd
    omega
  · intro block hblock
    rcases List.mem_cons.mp hblock with rfl | hblock
    · exact h.aligned
    · exact h.header block hblock
  · intro block hblock
    show block.stop ≤ pool.next + 16 + bytes
    rcases List.mem_cons.mp hblock with rfl | hblock
    · exact hstop.le
    · have hle := h.stop_le block hblock
      omega
  · intro block hblock
    rcases List.mem_cons.mp hblock with rfl | hblock
    · exact hsize
    · exact h.size block hblock
  · exact List.pairwise_cons.mpr ⟨fun block hblock => Or.inr (h.stop_le block hblock), h.apart⟩
  · exact fun block hblock => List.mem_cons_of_mem _ (h.live block hblock)
  · exact h.live_nodup
  · exact fun c block hblock =>
      (h.free c block hblock).imp_left fun hmem => List.mem_cons_of_mem _ hmem
  · exact h.free_nodup
  · -- the header of the new block is not the header of a free one
    refine fun c => (h.linked c).update fun block hblock heq => ?_
    have hle := h.stop_le block (h.free c block hblock).1
    have hstop' : block.stop = block.header + 16 + block.size := rfl
    omega

/-! ### Actions -/

/-- An allocation returns the offset of a block that is ready. -/
theorem Valid.allocate (hbits : bits.Spec) (h : pool.Valid) {bytes offset : ℕ}
    (hrun : pool.allocate bits bytes = .ok (offset, pool')) :
    pool'.Valid ∧ pool'.size = pool.size ∧ ∃ block, offset = block.addr ∧
      block.size = allocToPowerOf2 bits bytes ∧ pool'.Fresh block := by
  unfold Pool.allocate at hrun
  split at hrun
  · exact absurd hrun (by simp)
  rename_i hsmall
  split at hrun
  · obtain ⟨hvalid, hsize, -, hnew⟩ := h.cut (isSpanSize_allocToPowerOf2 hbits hsmall) hrun
    exact ⟨hvalid, hsize, hnew⟩
  · rename_i block rest hlist
    obtain ⟨rfl, rfl⟩ := Prod.mk.inj (Except.ok.inj hrun)
    obtain ⟨hvalid, hfresh⟩ := h.pop hlist
    have hmem : block ∈ pool.lists (classOf (allocToPowerOf2 bits bytes)) := by
      rw [hlist]
      exact List.mem_cons_self ..
    obtain ⟨-, hc, hclass, -⟩ := h.free _ block hmem
    refine ⟨hvalid.setContents _, rfl, block, rfl, ?_, ⟨hfresh.mem, hfresh.not_live, hfresh.not_free⟩⟩
    rw [eq_of_classOf hc, ← hclass, ← eq_of_classOf]
    rw [hclass]
    exact hc

/-- The size in a header with 32 bits. -/
theorem mod_of_getAllocClass (hbits : bits.Spec) {n c : ℕ} (hsize : IsSpanSize n)
    (hrun : getAllocClass bits (n % 2 ^ 32) = .ok c) : n % 2 ^ 32 = n ∧ c = classOf n := by
  obtain ⟨k, -, hk, rfl⟩ := hsize
  rcases Nat.lt_or_eq_of_le hk with hlt | rfl
  · have hmod : 2 ^ k % 2 ^ 32 = 2 ^ k :=
      Nat.mod_eq_of_lt (Nat.pow_lt_pow_right (by decide) hlt)
    rw [hmod, getAllocClass_two_pow hbits] at hrun
    exact ⟨hmod, (Except.ok.inj hrun).symm⟩
  · -- zero is no power of two
    have hzero : bits.isPowerOfTwo 0 = false := by
      rw [Bool.eq_false_iff]
      intro htrue
      obtain ⟨k, hk⟩ := (hbits.isPowerOfTwo 0).mp htrue
      exact absurd hk (Nat.two_pow_pos k).ne
    rw [Nat.mod_self, getAllocClass, hzero] at hrun
    exact absurd hrun (by simp [verify, bind, Except.bind])

/-- A live block that is freed leaves the live ones. -/
theorem Valid.giveBack (hbits : bits.Spec) (h : pool.Valid) (hblock : block ∈ pool.live)
    (hrun : pool.free bits block = .ok pool') : pool'.size = pool.size ∧
      { pool' with live := pool'.live.filter fun other => other.addr ≠ block.addr }.Valid := by
  obtain ⟨c, hc, hrun⟩ := Outcome.bind_eq_ok.mp hrun
  obtain ⟨-, hclass⟩ := mod_of_getAllocClass hbits (h.size block (h.live block hblock)) hc
  have hdrop := h.drop fun other => decide (other.addr ≠ block.addr)
  split at hrun
  · obtain rfl := Outcome.pure_eq_ok.mp hrun
    exact ⟨rfl, hdrop⟩
  · rename_i hsmall
    obtain rfl := Outcome.pure_eq_ok.mp hrun
    refine ⟨rfl, hdrop.push ⟨h.live block hblock, ?_, fun c' hfree => ?_⟩ hsmall hclass.symm⟩
    · simp
    · exact (h.free c' block hfree).2.2.2 hblock

/-- A live block is found by its offset. -/
theorem Valid.find?_live (h : pool.Valid) (hblock : block ∈ pool.live) :
    pool.live.find? (fun other => other.addr = block.addr) = some block := by
  obtain ⟨other, hother⟩ : ∃ other, pool.live.find? (fun other => other.addr = block.addr) =
      some other := by
    rw [← Option.isSome_iff_exists, List.find?_isSome]
    exact ⟨block, hblock, decide_eq_true rfl⟩
  have haddr : other.addr = block.addr := by
    have hfound := List.find?_some hother
    simpa using hfound
  have hmem := h.live other (List.mem_of_find?_eq_some hother)
  rw [hother, h.eq_of_header hmem (h.live block hblock) (Nat.add_right_cancel haddr)]

/-- **One action keeps the pool valid.** -/
theorem Valid.execute (hbits : bits.Spec) (h : pool.Valid) {action : MemoryAllocator.Action}
    (hallowed : pool.Allowed action) (hrun : pool.execute bits action = .ok pool') :
    pool'.Valid ∧ pool'.size = pool.size := by
  cases action with
  | allocate bytes =>
    obtain ⟨⟨offset, pool₁⟩, hallocate, hrun⟩ := Outcome.bind_eq_ok.mp hrun
    obtain rfl := Outcome.pure_eq_ok.mp hrun
    obtain ⟨hvalid, hsize, block, rfl, hblock, hfresh⟩ := h.allocate hbits hallocate
    have heq : (⟨locateBlockHeader block.addr, allocToPowerOf2 bits bytes⟩ : Block) = block := by
      rw [← hblock]
      rfl
    dsimp only
    rw [heq]
    exact ⟨hvalid.hold hfresh, hsize⟩
  | free offset =>
    obtain ⟨block, hblock, rfl⟩ := hallowed
    unfold Pool.execute at hrun
    dsimp only at hrun
    rw [h.find?_live hblock] at hrun
    obtain ⟨pool₁, hfree, hrun⟩ := Outcome.bind_eq_ok.mp hrun
    obtain rfl := Outcome.pure_eq_ok.mp hrun
    exact (h.giveBack hbits hblock hfree).symm
  | write offset byte =>
    obtain rfl := Except.ok.inj hrun
    exact ⟨h.setContents _, rfl⟩
  | reset =>
    obtain rfl := Except.ok.inj hrun
    exact ⟨valid_new _, rfl⟩

end Pool

end Whirl.Memory
