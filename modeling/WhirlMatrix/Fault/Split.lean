/-
# Random splits and shuffles

`GenerateSplit` and `RandomSplit` (`fault/net/split.cpp`) and `Shuffle`
(`fault/net/helpers.cpp`).  `node::rt::RandomNumber(lo, hi)` is a parameter: it returns any
number between its arguments.
-/
import WhirlMatrix.Fault.Star
import WhirlMatrix.World.Random
import Mathlib.Data.List.ProdSigma
import Mathlib.Tactic.Ring

namespace Whirl.Fault

open Net

variable {σ : Type}

/-! ## Draws of a node -/

/-- `RandomNumber(lo, hi)` of a node returns a number in `[lo, hi]`. -/
def IsRandomNumber (randomNumber : ℕ → ℕ → σ → ℕ × σ) : Prop :=
  ∀ lo hi source, lo ≤ hi →
    lo ≤ (randomNumber lo hi source).1 ∧ (randomNumber lo hi source).1 ≤ hi

/-- `size_t j = RandomNumber(i, pool.size() - 1)`. -/
def splitDraw (randomNumber : ℕ → ℕ → σ → ℕ × σ) (i size : ℕ) (source : σ) : Outcome (ℕ × σ) :=
  .ok (randomNumber i (size - 1) source)

/-- `int j = RandomNumber(i, pool.size() - 1)`. -/
def shuffleDraw (randomNumber : ℕ → ℕ → σ → ℕ × σ) (i size : ℕ) (source : σ) :
    Outcome (ℕ × σ) :=
  .ok (intIndex (randomNumber i (size - 1) source).1, (randomNumber i (size - 1) source).2)

variable {randomNumber : ℕ → ℕ → σ → ℕ × σ} {n : ℕ}

theorem inRange_splitDraw (hrandom : IsRandomNumber randomNumber) (n : ℕ) :
    InRange (splitDraw randomNumber) n := by
  intro i source hi
  obtain ⟨hlo, hhi⟩ := hrandom i (n - 1) source (by omega)
  exact ⟨_, _, rfl, hlo, by omega⟩

theorem shuffleDraw_eq (hrandom : IsRandomNumber randomNumber) (hn : n < 2 ^ 31) {i : ℕ}
    (hi : i < n) (source : σ) :
    shuffleDraw randomNumber i n source = .ok (randomNumber i (n - 1) source) := by
  obtain ⟨hlo, hhi⟩ := hrandom i (n - 1) source (by omega)
  rw [shuffleDraw, intIndex_of_lt (by omega)]

theorem inRange_shuffleDraw (hrandom : IsRandomNumber randomNumber) (hn : n < 2 ^ 31) :
    InRange (shuffleDraw randomNumber) n := by
  intro i source hi
  obtain ⟨hlo, hhi⟩ := hrandom i (n - 1) source (by omega)
  exact ⟨_, _, shuffleDraw_eq hrandom hn hi source, hlo, by omega⟩

/-! ## `Shuffle` -/

/-- `Shuffle`. -/
def shuffle (randomNumber : ℕ → ℕ → σ → ℕ × σ) (pool : List HostName) (source : σ) :
    Outcome (List HostName × σ) := do
  let (pool, _, source) ←
    swapLoop (shuffleDraw randomNumber) (fun _ _ => ()) (pool.length - 1) 0 pool () source
  return (pool, source)

variable {pool : List HostName}

theorem corresponds_shuffle (hrandom : IsRandomNumber randomNumber) (hpool : pool.Nodup)
    (hn : pool.length < 2 ^ 31) :
    Corresponds (shuffleDraw randomNumber) pool.length (pool.length - 1)
      (shuffle randomNumber pool)
      (fun js => (Draws.deal 0 pool js).1 ++ (Draws.deal 0 pool js).2) {sel | sel.Perm pool} := by
  constructor
  · intro source
    have hturns : 0 + (pool.length - 1) ≤ pool.length := by omega
    obtain ⟨js, source', hlength, hdraws, hdrawn⟩ :=
      (inRange_shuffleDraw hrandom hn).exists_drawn hturns source
    exact ⟨js, ⟨hlength, hdraws⟩, source', hdrawn⟩
  · rintro js ⟨hlength, hdraws⟩ source source' hdrawn
    rw [shuffle, ← hlength, swapLoop_zero hdrawn hdraws, Outcome.ok_bind]
    rfl
  · exact Draws.bijOn_shuffle hpool

/-- A source that returns numbers from a list as long as they are in range. -/
def scripted (lo hi : ℕ) : List ℕ → ℕ × List ℕ
  | [] => (lo, [])
  | j :: js => (if lo ≤ j ∧ j ≤ hi then j else lo, js)

theorem isRandomNumber_scripted : IsRandomNumber scripted := by
  intro lo hi js hle
  cases js with
  | nil => exact ⟨Nat.le_refl _, hle⟩
  | cons j js =>
    rw [scripted]
    split
    · rename_i hj
      exact hj
    · exact ⟨Nat.le_refl _, hle⟩

theorem drawn_scripted (hn : n < 2 ^ 31) {i : ℕ} {js : List ℕ} (hdraws : Draws.IsDraws n i js) :
    Drawn (shuffleDraw scripted) n i js js [] := by
  induction js generalizing i with
  | nil => exact .nil
  | cons j js ih =>
    obtain ⟨hj, hjs⟩ := Draws.isDraws_cons.mp hdraws
    have hdraw := shuffleDraw_eq isRandomNumber_scripted hn (Nat.lt_of_le_of_lt hj.1 hj.2) (j :: js)
    rw [scripted, if_pos ⟨hj.1, by omega⟩] at hdraw
    exact .cons hdraw (ih hjs)

/-- **Selections and shuffles are unbiased.**  The results of `GlobalRandomSelect` correspond
one to one to the numbers that it draws, and so do those of `Shuffle`: no item is repeated or
lost, and each arrangement comes from exactly one sequence of draws, which a source can
return. -/
theorem corresponds_globalRandomSelect_and_shuffle {α : Type} {items : List α}
    (hitems : items.Nodup) (hsize : items.length < 2 ^ 31) (hpool : pool.Nodup)
    (hn : pool.length < 2 ^ 31) (hrandom : IsRandomNumber randomNumber) :
    (∀ k ≤ items.length,
      Corresponds selectDraw items.length k (globalRandomSelect items k)
        (fun js => (Draws.deal 0 items js).1)
        {sel | sel.length = k ∧ sel.Nodup ∧ ∀ a ∈ sel, a ∈ items} ∧
      ∀ js ∈ Draws.draws items.length k, ∃ source source',
        Drawn selectDraw items.length 0 source js source') ∧
    Corresponds (shuffleDraw randomNumber) pool.length (pool.length - 1)
      (shuffle randomNumber pool)
      (fun js => (Draws.deal 0 pool js).1 ++ (Draws.deal 0 pool js).2) {sel | sel.Perm pool} ∧
    ∀ js ∈ Draws.draws pool.length (pool.length - 1),
      Drawn (shuffleDraw scripted) pool.length 0 js js [] := by
  refine ⟨?_, corresponds_shuffle hrandom hpool hn, ?_⟩
  · intro k hk
    refine ⟨corresponds_globalRandomSelect hitems hsize hk, ?_⟩
    rintro js ⟨-, hdraws⟩
    -- an engine that returns the offsets of the draws
    have himpl : ∀ t j, js[t]? = some j →
        ({ impl := fun t => UInt32.ofNat (js.getD t 0 - t) } : RandomSource).impl t
          = UInt32.ofNat (j - (0 + t)) := by
      intro t j hj
      show UInt32.ofNat (js.getD t 0 - t) = UInt32.ofNat (j - (0 + t))
      rw [List.getD_eq_getElem?_getD, hj, Nat.zero_add, Option.getD_some]
    obtain ⟨source', hdrawn⟩ := exists_drawn_selectDraw hsize hdraws himpl
    exact ⟨_, source', hdrawn⟩
  · rintro js ⟨-, hdraws⟩
    exact drawn_scripted hn hdraws

/-- Two of three items, and a pool of two hosts. -/
theorem corresponds_globalRandomSelect_and_shuffle_short :
    Corresponds selectDraw 3 2 (globalRandomSelect [10, 20, 30] 2)
        (fun js => (Draws.deal 0 [10, 20, 30] js).1)
        {sel | sel.length = 2 ∧ sel.Nodup ∧ ∀ a ∈ sel, a ∈ [10, 20, 30]} ∧
      Corresponds (shuffleDraw scripted) 2 1 (shuffle scripted ["S1", "S2"])
        (fun js => (Draws.deal 0 ["S1", "S2"] js).1 ++ (Draws.deal 0 ["S1", "S2"] js).2)
        {sel | sel.Perm ["S1", "S2"]} := by
  have hitems : [10, 20, 30].Nodup := by decide
  have hpool : ["S1", "S2"].Nodup := by decide
  obtain ⟨hselect, hshuffle, -⟩ := corresponds_globalRandomSelect_and_shuffle hitems (by decide)
    hpool (by decide) isRandomNumber_scripted
  exact ⟨(hselect 2 (by decide)).1, hshuffle⟩

/-! ## `GenerateSplit` -/

/-- `GenerateSplit`. -/
def generateSplit (randomNumber : ℕ → ℕ → σ → ℕ × σ) (pool : List HostName) (lhsSize : ℕ)
    (source : σ) : Outcome (Partition × σ) := do
  let (_, lhs, source) ←
    swapLoop (splitDraw randomNumber) (fun lhs host => lhs.insert host) lhsSize 0 pool [] source
  return (lhs, source)

/-- Distinct hosts that are inserted one after another. -/
theorem foldl_insert {dealt lhs : List HostName} (hnodup : (dealt ++ lhs).Nodup) :
    dealt.foldl (fun lhs host => lhs.insert host) lhs = dealt.reverse ++ lhs := by
  induction dealt generalizing lhs with
  | nil => rfl
  | cons host dealt ih =>
    obtain ⟨hnew, hnodup⟩ := List.nodup_cons.mp hnodup
    have hinsert : lhs.insert host = host :: lhs :=
      List.insert_of_not_mem fun hmem => hnew (List.mem_append_right _ hmem)
    rw [List.foldl_cons, hinsert, ih, List.reverse_cons, List.append_assoc,
      List.singleton_append]
    exact List.perm_middle.nodup_iff.mpr (List.nodup_cons.mpr ⟨hnew, hnodup⟩)

/-- The chosen hosts, and the others of the pool. -/
theorem exists_generateSplit (hrandom : IsRandomNumber randomNumber) (hpool : pool.Nodup) {k : ℕ}
    (hk : k ≤ pool.length) (source : σ) :
    ∃ lhs rhs source', generateSplit randomNumber pool k source = .ok (lhs, source') ∧
      lhs.length = k ∧ (lhs ++ rhs).Perm pool := by
  have hturns : 0 + k ≤ pool.length := by omega
  obtain ⟨js, source', hlength, hdraws, hdrawn⟩ :=
    (inRange_splitDraw hrandom pool.length).exists_drawn hturns source
  have hdraws' : Draws.IsDraws (0 + pool.length) 0 js := by rwa [Nat.zero_add]
  have hperm := Draws.deal_perm 0 pool js
  have hdealt : ((Draws.deal 0 pool js).1 ++ []).Nodup := by
    rw [List.append_nil]
    exact (List.nodup_append.mp (hperm.nodup_iff.mpr hpool)).1
  refine ⟨(Draws.deal 0 pool js).1.reverse, (Draws.deal 0 pool js).2, source', ?_, ?_, ?_⟩
  · rw [generateSplit, ← hlength, swapLoop_zero hdrawn hdraws, Outcome.ok_bind,
      foldl_insert hdealt, List.append_nil]
    rfl
  · rw [List.length_reverse, Draws.length_deal hdraws', hlength]
  · exact ((List.reverse_perm _).append_right _).trans hperm

/-! ## `RandomSplit` -/

/-- `RandomSplit`. -/
def randomSplit (randomNumber : ℕ → ℕ → σ → ℕ × σ) (net : Network) (pool : List HostName)
    (lhsSize : ℕ) (source : σ) : Outcome (Network × σ) := do
  let (lhs, source) ← generateSplit randomNumber pool lhsSize source
  -- cross split
  let net ← pauseBetween net pool fun start stop => lhs.contains start.1 != lhs.contains stop.1
  return (net, source)

/-- The pairs of hosts of which one is chosen. -/
def crossing (pool : List HostName) (lhs : Partition) : List (HostName × HostName) :=
  pairsBetween pool fun start stop => lhs.contains start.1 != lhs.contains stop.1

variable {lhs rhs : List HostName} {a b : HostName}

theorem mem_crossing : (a, b) ∈ crossing pool lhs ↔ a ∈ pool ∧ b ∈ pool ∧ (a ∈ lhs ↔ b ∉ lhs) := by
  have hcross : ∀ a b : HostName,
      (lhs.contains a != lhs.contains b) = true ↔ (a ∈ lhs ↔ b ∉ lhs) := by
    intro a b
    by_cases ha : a ∈ lhs
    · by_cases hb : b ∈ lhs
      · simp [ha, hb]
      · simp [ha, hb]
    · by_cases hb : b ∈ lhs
      · simp [ha, hb]
      · simp [ha, hb]
  rw [crossing, mem_pairsBetween]
  constructor
  · rintro ⟨i, j, hi, hj, hcut⟩
    exact ⟨List.mem_of_getElem? hi, List.mem_of_getElem? hj, (hcross a b).mp hcut⟩
  · rintro ⟨ha, hb, hcut⟩
    obtain ⟨i, hi⟩ := List.mem_iff_getElem?.mp ha
    obtain ⟨j, hj⟩ := List.mem_iff_getElem?.mp hb
    exact ⟨i, j, hi, hj, (hcross a b).mpr hcut⟩

/-- The pairs are those of a chosen host with another one, in both orders. -/
theorem length_crossing (hpool : pool.Nodup) (hperm : (lhs ++ rhs).Perm pool) :
    (crossing pool lhs).length = 2 * lhs.length * rhs.length := by
  have hnodup := List.nodup_append'.mp (hperm.nodup_iff.mpr hpool)
  obtain ⟨hlhs, hrhs, hdisjoint⟩ := hnodup
  have hmem : ∀ a, a ∈ pool ↔ a ∈ lhs ∨ a ∈ rhs := fun a => by
    rw [← hperm.mem_iff, List.mem_append]
  have hcrossing : (crossing pool lhs).Nodup := nodup_pairsBetween hpool _
  have hproducts : (lhs ×ˢ rhs ++ rhs ×ˢ lhs).Nodup := by
    rw [List.nodup_append']
    refine ⟨hlhs.product hrhs, hrhs.product hlhs, ?_⟩
    rintro ⟨a, b⟩ hab hba
    exact hdisjoint (List.mem_product.mp hab).1 (List.mem_product.mp hba).1
  have hboth : (crossing pool lhs).Perm (lhs ×ˢ rhs ++ rhs ×ˢ lhs) := by
    apply (List.perm_ext_iff_of_nodup hcrossing hproducts).mpr
    rintro ⟨a, b⟩
    rw [mem_crossing, List.mem_append, List.mem_product, List.mem_product, hmem, hmem]
    have ha := @hdisjoint a
    have hb := @hdisjoint b
    tauto
  rw [hboth.length_eq, List.length_append, List.length_product, List.length_product]
  ring

/-- What a random split does to the network: it pauses these links, with one call of
`PauseLink` for each of them. -/
structure Splits (net net' : Network) (pool : List HostName) (lhs : Partition)
    (links : List LinkId) : Prop where
  calls : ∃ pairs, net.pauseLinks pairs = .ok net' ∧
    pairs.map (fun pair => net.getLink pair.1 pair.2) = links.map Except.ok
  nodup : links.Nodup
  length : links.length = 2 * lhs.length * (pool.length - lhs.length)
  mem_iff : ∀ l, l ∈ links ↔
    ∃ a ∈ pool, ∃ b ∈ pool, (a ∈ lhs ↔ b ∉ lhs) ∧ net.getLink a b = .ok l
  paused_iff : ∀ l, net'.isPaused l = true ↔ net.isPaused l = true ∨ l ∈ links
  /-- None of them was paused before. -/
  unpaused : ∀ l ∈ links, net.isPaused l = false
  /-- None of them is a loopback link. -/
  proper : ∀ l ∈ links, ∃ ends, net.ends l = some ends ∧ ends.start ≠ ends.stop

theorem exists_map_ok {α β : Type} {f : α → Outcome β} {l : List α}
    (h : ∀ a ∈ l, ∃ b, f a = .ok b) : ∃ bs : List β, l.map f = bs.map Except.ok := by
  induction l with
  | nil => exact ⟨[], rfl⟩
  | cons a l ih =>
    obtain ⟨b, hb⟩ := h a (List.mem_cons_self ..)
    obtain ⟨bs, hbs⟩ := ih fun a' ha' => h a' (List.mem_cons_of_mem _ ha')
    refine ⟨b :: bs, ?_⟩
    rw [List.map_cons, List.map_cons, hb, hbs]

variable {net : Network}

/-- A pool of distinct hosts of the network whose links are open is split. -/
theorem exists_splits (hlinked : net.Linked) (hpool : pool.Nodup)
    (hhosts : ∀ a ∈ pool, a ∈ net.servers.map IServer.hostName)
    (hopen : ∀ a ∈ pool, ∀ b ∈ pool, ∀ l, net.getLink a b = .ok l → net.isPaused l = false)
    (hperm : (lhs ++ rhs).Perm pool) :
    ∃ net' links, pauseBetween net pool (fun start stop =>
        lhs.contains start.1 != lhs.contains stop.1) = .ok net' ∧
      Splits net net' pool lhs links := by
  obtain ⟨net', hrun, hpauses⟩ := exists_pauseBetween hlinked hpool hhosts hopen
    fun start stop => lhs.contains start.1 != lhs.contains stop.1
  obtain ⟨links, hlinks⟩ := exists_map_ok (l := crossing pool lhs)
    (f := fun pair => net.getLink pair.1 pair.2) fun ⟨a, b⟩ hpair => by
      obtain ⟨ha, hb, -⟩ := mem_crossing.mp hpair
      obtain ⟨l, -, hl, -⟩ := Network.exists_getLink hlinked (hhosts a ha) (hhosts b hb)
      exact ⟨l, hl⟩
  -- The links are those of the crossing pairs, and of no other pair.
  have hmem : ∀ l, l ∈ links ↔
      ∃ a ∈ pool, ∃ b ∈ pool, (a ∈ lhs ↔ b ∉ lhs) ∧ net.getLink a b = .ok l := by
    intro l
    have hok : l ∈ links ↔ (Except.ok l : Outcome LinkId) ∈ links.map Except.ok :=
      (List.mem_map_of_injective fun _ _ h => Except.ok.inj h).symm
    rw [hok, ← hlinks, List.mem_map]
    constructor
    · rintro ⟨⟨a, b⟩, hpair, hl⟩
      obtain ⟨ha, hb, hcross⟩ := mem_crossing.mp hpair
      exact ⟨a, ha, b, hb, hcross, hl⟩
    · rintro ⟨a, ha, b, hb, hcross, hl⟩
      exact ⟨(a, b), mem_crossing.mpr ⟨ha, hb, hcross⟩, hl⟩
  have hlength : links.length = (crossing pool lhs).length := by
    have hlengths := congrArg List.length hlinks
    rwa [List.length_map, List.length_map, eq_comm] at hlengths
  have hsizes := hperm.length_eq
  rw [List.length_append] at hsizes
  refine ⟨net', links, hrun, ?_, ?_, ?_, hmem, ?_, ?_, ?_⟩
  · rw [pauseBetween_eq] at hrun
    exact ⟨_, hrun, hlinks⟩
  · -- a link has one pair of host names
    apply List.Nodup.of_map Except.ok
    rw [← hlinks]
    apply (nodup_pairsBetween hpool _).map_on
    intro pair hpair pair' _ heq
    obtain ⟨ha, hb, -⟩ := mem_crossing.mp hpair
    obtain ⟨l, -, hl, -⟩ := Network.exists_getLink hlinked (hhosts _ ha) (hhosts _ hb)
    have hnames := Network.getLink_inj hlinked hl (heq.symm.trans hl)
    exact Prod.ext hnames.1 hnames.2
  · rw [hlength, length_crossing hpool hperm, ← hsizes, Nat.add_sub_cancel_left]
  · intro l
    rw [hpauses.paused_iff, hmem, Prod.exists]
    refine or_congr_right ⟨?_, ?_⟩
    · rintro ⟨a, b, hpair, hl⟩
      obtain ⟨ha, hb, hcross⟩ := mem_crossing.mp hpair
      exact ⟨a, ha, b, hb, hcross, hl⟩
    · rintro ⟨a, ha, b, hb, hcross, hl⟩
      exact ⟨a, b, mem_crossing.mpr ⟨ha, hb, hcross⟩, hl⟩
  · intro l hl
    obtain ⟨a, ha, b, hb, -, hl⟩ := (hmem l).mp hl
    exact hopen a ha b hb l hl
  · intro l hl
    obtain ⟨a, ha, b, hb, hcross, hl⟩ := (hmem l).mp hl
    obtain ⟨ends, hends, -, -, rfl, rfl⟩ := Network.getLink_eq_ok hlinked hl
    refine ⟨ends, hends, fun hsame => ?_⟩
    rw [hsame] at hcross
    tauto

/-- **Random splits have the requested shape**, for every source.  `GenerateSplit` chooses
`k` distinct hosts of the pool.  `RandomSplit` pauses the `2 * k * (n - k)` links between
chosen hosts and the others, each of them once, and no loopback link. -/
theorem splits_of_randomSplit {servers : List IServer} {now : ℕ} {s : NetState}
    (hrun : Runs.Reaches NetState.execute (fun _ _ => True) (NetState.start servers now) s)
    (hpool : pool.Nodup) (hhosts : ∀ a ∈ pool, a ∈ s.net.servers.map IServer.hostName)
    (hopen : ∀ a ∈ pool, ∀ b ∈ pool, ∀ l, s.net.getLink a b = .ok l → s.net.isPaused l = false)
    (hrandom : IsRandomNumber randomNumber) {k : ℕ} (hk : k ≤ pool.length) (source : σ) :
    ∃ lhs source' net' links, generateSplit randomNumber pool k source = .ok (lhs, source') ∧
      lhs.length = k ∧ lhs.Nodup ∧ (∀ a ∈ lhs, a ∈ pool) ∧
      randomSplit randomNumber s.net pool k source = .ok (net', source') ∧
      Splits s.net net' pool lhs links := by
  obtain ⟨lhs, rhs, source', hgenerate, hlength, hperm⟩ :=
    exists_generateSplit hrandom hpool hk source
  obtain ⟨net', links, hpause, hsplits⟩ :=
    exists_splits (NetState.linked_of_reaches hrun) hpool hhosts hopen hperm
  refine ⟨lhs, source', net', links, hgenerate, hlength, ?_, ?_, ?_, hsplits⟩
  · exact (List.nodup_append.mp (hperm.nodup_iff.mpr hpool)).1
  · exact fun a ha => hperm.mem_iff.mp (List.mem_append_left _ ha)
  · rw [randomSplit, hgenerate, Outcome.ok_bind]
    dsimp only
    rw [hpause]
    rfl

/-- One of two hosts is cut off. -/
theorem splits_of_randomSplit_raysRun :
    ∃ lhs source' net' links, generateSplit scripted ["S1", "S2"] 1 [1] = .ok (lhs, source') ∧
      lhs.length = 1 ∧ lhs.Nodup ∧ (∀ a ∈ lhs, a ∈ ["S1", "S2"]) ∧
      randomSplit scripted raysRun.net ["S1", "S2"] 1 [1] = .ok (net', source') ∧
      Splits raysRun.net net' ["S1", "S2"] lhs links := by
  have hopen : ∀ a ∈ ["S1", "S2"], ∀ b ∈ ["S1", "S2"], ∀ l, raysRun.net.getLink a b = .ok l →
      raysRun.net.isPaused l = false := by
    intro a ha b hb l hl
    have hall : ∀ a ∈ ["S1", "S2"], ∀ b ∈ ["S1", "S2"],
        (raysRun.net.getLink a b).toOption.map raysRun.net.isPaused = some false := by decide
    have hfound := hall a ha b hb
    rw [hl] at hfound
    exact Option.some.inj hfound
  exact splits_of_randomSplit Runs.Reaches.refl (by decide) (by decide) hopen
    isRandomNumber_scripted (by decide) [1]

end Whirl.Fault
