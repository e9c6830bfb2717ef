/-
# Stars and isolated hosts

`MakeStar` (`fault/net/star.cpp`), `Isolate` and `PauseIncomingLinks`
(`fault/net/isolate.cpp`).  Each of them pauses links between hosts of a pool, one after
another.  A star loses the loopback links of its rays, too, which `Network::Split` leaves
alone, and `PauseIncomingLinks` pauses the links in both directions, as `Isolate` does.
-/
import WhirlMatrix.Fault.PauseLinks
import Mathlib.Data.List.Nodup

namespace Whirl.Fault

open Net

/-! ## Stars -/

/-- Two nested loops over the hosts of a pool with their indices, which pause some of the
links. -/
def pauseBetween (net : Network) (pool : List HostName)
    (cut : HostName × ℕ → HostName × ℕ → Bool) : Outcome Network :=
  pool.zipIdx.foldlM (fun net start => pool.zipIdx.foldlM (fun net stop =>
    if cut start stop then net.pauseLink start.1 stop.1 else .ok net) net) net

/-- `MakeStar`. -/
def makeStar (net : Network) (pool : List HostName) (center : ℕ) : Outcome Network :=
  pauseBetween net pool fun start stop => start.2 != center && stop.2 != center

/-- The pairs that the loops visit. -/
def pairsBetween (pool : List HostName) (cut : HostName × ℕ → HostName × ℕ → Bool) :
    List (HostName × HostName) :=
  pool.zipIdx.flatMap fun start => pool.zipIdx.flatMap fun stop =>
    if cut start stop then [(start.1, stop.1)] else []

variable {net net' : Network} {pool : List HostName} {cut : HostName × ℕ → HostName × ℕ → Bool}
  {a b : HostName}

theorem pauseBetween_eq (net : Network) (pool : List HostName)
    (cut : HostName × ℕ → HostName × ℕ → Bool) :
    pauseBetween net pool cut = net.pauseLinks (pairsBetween pool cut) := by
  rw [Network.pauseLinks, pairsBetween, Runs.foldlM_flatMap, pauseBetween]
  congr 1
  funext net start
  rw [Runs.foldlM_flatMap]
  congr 1
  funext net stop
  split
  · rw [List.foldlM_cons]
    exact (bind_pure _).symm
  · rfl

/-- A visit contributes at most its own pair. -/
theorem mem_ite_singleton {α : Type} {c : Bool} {x y : α} :
    (x ∈ if c = true then [y] else []) ↔ x = y ∧ c = true := by
  cases c <;> simp

theorem mem_pairsBetween : (a, b) ∈ pairsBetween pool cut ↔ ∃ i j, pool[i]? = some a ∧
    pool[j]? = some b ∧ cut (a, i) (b, j) = true := by
  simp only [pairsBetween, List.mem_flatMap, Prod.exists, List.mem_zipIdx_iff_getElem?,
    mem_ite_singleton, Prod.mk.injEq]
  constructor
  · rintro ⟨_, i, hi, _, j, hj, ⟨rfl, rfl⟩, hcut⟩
    exact ⟨i, j, hi, hj, hcut⟩
  · rintro ⟨i, j, hi, hj, hcut⟩
    exact ⟨a, i, hi, b, j, hj, ⟨rfl, rfl⟩, hcut⟩

/-- In a pool of distinct hosts no pair is visited twice. -/
theorem nodup_pairsBetween (hpool : pool.Nodup) (cut : HostName × ℕ → HostName × ℕ → Bool) :
    (pairsBetween pool cut).Nodup := by
  have hhosts : pool.zipIdx.Pairwise fun x y => x.1 ≠ y.1 := by
    rw [← List.pairwise_map (f := Prod.fst), List.zipIdx_map_fst]
    exact hpool
  rw [pairsBetween, List.nodup_flatMap]
  constructor
  · intro start _
    rw [List.nodup_flatMap]
    constructor
    · intro stop _
      split
      · exact List.nodup_singleton _
      · exact List.nodup_nil
    · apply hhosts.imp
      intro x y hne pair hx hy
      obtain rfl := (mem_ite_singleton.mp hx).1
      exact hne (Prod.mk.inj (mem_ite_singleton.mp hy).1).2
  · apply hhosts.imp
    intro x y hne pair hx hy
    -- the pairs of two rows have different first hosts
    obtain ⟨_, -, hx⟩ := List.mem_flatMap.mp hx
    obtain ⟨_, -, hy⟩ := List.mem_flatMap.mp hy
    obtain rfl := (mem_ite_singleton.mp hx).1
    exact hne (Prod.mk.inj (mem_ite_singleton.mp hy).1).1

/-- A double loop over a pool of distinct hosts of the network whose links are open. -/
theorem exists_pauseBetween (hlinked : net.Linked) (hpool : pool.Nodup)
    (hhosts : ∀ a ∈ pool, a ∈ net.servers.map IServer.hostName)
    (hopen : ∀ a ∈ pool, ∀ b ∈ pool, ∀ l, net.getLink a b = .ok l → net.isPaused l = false)
    (cut : HostName × ℕ → HostName × ℕ → Bool) :
    ∃ net', pauseBetween net pool cut = .ok net' ∧ net.Pauses (pairsBetween pool cut) net' := by
  rw [pauseBetween_eq]
  apply Network.exists_pauseLinks hlinked (nodup_pairsBetween hpool cut)
  intro pair hpair
  obtain ⟨i, j, hi, hj, -⟩ := mem_pairsBetween.mp hpair
  have ha := List.mem_of_getElem? hi
  have hb := List.mem_of_getElem? hj
  obtain ⟨l, link, hl, hlink⟩ := Network.exists_getLink hlinked (hhosts _ ha) (hhosts _ hb)
  refine ⟨l, link, hl, hlink, ?_⟩
  rw [← Network.isPaused_eq hlink]
  exact hopen _ ha _ hb l hl

/-- The rays of a star are the hosts that are not its center. -/
theorem mem_star (hpool : pool.Nodup) {center : ℕ} {c : HostName}
    (hcenter : pool[center]? = some c) :
    (a, b) ∈ pairsBetween pool (fun start stop => start.2 != center && stop.2 != center) ↔
      a ∈ pool ∧ b ∈ pool ∧ a ≠ c ∧ b ≠ c := by
  have hray : ∀ i host, pool[i]? = some host → ((i != center) = true ↔ host ≠ c) := by
    intro i host hi
    rw [bne_iff_ne, not_iff_not]
    constructor
    · rintro rfl
      exact Option.some.inj (hi.symm.trans hcenter)
    · rintro rfl
      exact (List.getElem?_inj (List.getElem?_eq_some_iff.mp hi).1 hpool).mp (hi.trans hcenter.symm)
  simp only [mem_pairsBetween, Bool.and_eq_true]
  constructor
  · rintro ⟨i, j, hi, hj, hi', hj'⟩
    exact ⟨List.mem_of_getElem? hi, List.mem_of_getElem? hj, (hray i a hi).mp hi',
      (hray j b hj).mp hj'⟩
  · rintro ⟨ha, hb, hac, hbc⟩
    obtain ⟨i, hi⟩ := List.mem_iff_getElem?.mp ha
    obtain ⟨j, hj⟩ := List.mem_iff_getElem?.mp hb
    exact ⟨i, j, hi, hj, (hray i a hi).mpr hac, (hray j b hj).mpr hbc⟩

/-- The links of a pool that are paused are those between two different rays. -/
def IsStar (net net' : Network) (pool : List HostName) (center : HostName) : Prop :=
  ∀ a ∈ pool, ∀ b ∈ pool, ∀ l, net.getLink a b = .ok l →
    (net'.isPaused l = true ↔ a ≠ b ∧ a ≠ center ∧ b ≠ center)

/-- In a pool without rays the center is alone. -/
theorem eq_singleton {c : HostName} (hpool : pool.Nodup) (hc : c ∈ pool)
    (hall : ∀ a ∈ pool, a = c) : pool = [c] := by
  cases pool with
  | nil => exact absurd hc List.not_mem_nil
  | cons a rest =>
    obtain rfl := hall a (List.mem_cons_self ..)
    have hrest : rest = [] := by
      rw [List.eq_nil_iff_forall_not_mem]
      intro b hb
      obtain rfl := hall b (List.mem_cons_of_mem _ hb)
      exact (List.nodup_cons.mp hpool).1 hb
    rw [hrest]

/-- **A star loses its loopback links.**  `MakeStar` pauses the links between its rays, each
of them once, and also the link of each ray to itself.  So it makes a star, as `Split` would
make partitions, if and only if the center is alone in the pool. -/
theorem makeStar_iff {servers : List IServer} {now : ℕ} {s : NetState}
    (hrun : Runs.Reaches NetState.execute (fun _ _ => True) (NetState.start servers now) s)
    (hpool : pool.Nodup) (hhosts : ∀ a ∈ pool, a ∈ s.net.servers.map IServer.hostName)
    (hopen : ∀ a ∈ pool, ∀ b ∈ pool, ∀ l, s.net.getLink a b = .ok l → s.net.isPaused l = false)
    {center : ℕ} {c : HostName} (hcenter : pool[center]? = some c) :
    ((∃ net', makeStar s.net pool center = .ok net' ∧ IsStar s.net net' pool c) ↔ pool = [c]) ∧
      ∃ net', makeStar s.net pool center = .ok net' ∧ ∀ l, net'.isPaused l = true ↔
        s.net.isPaused l = true ∨
          ∃ a ∈ pool, ∃ b ∈ pool, a ≠ c ∧ b ≠ c ∧ s.net.getLink a b = .ok l := by
  have hlinked := NetState.linked_of_reaches hrun
  obtain ⟨net', hstar, hpauses⟩ := exists_pauseBetween hlinked hpool hhosts hopen
    fun start stop => start.2 != center && stop.2 != center
  have hpaused : ∀ l, net'.isPaused l = true ↔ s.net.isPaused l = true ∨
      ∃ a ∈ pool, ∃ b ∈ pool, a ≠ c ∧ b ≠ c ∧ s.net.getLink a b = .ok l := by
    intro l
    rw [hpauses.paused_iff, Prod.exists]
    simp only [mem_star hpool hcenter]
    refine or_congr_right ⟨?_, ?_⟩
    · rintro ⟨a, b, ⟨ha, hb, hac, hbc⟩, hl⟩
      exact ⟨a, ha, b, hb, hac, hbc, hl⟩
    · rintro ⟨a, ha, b, hb, hac, hbc, hl⟩
      exact ⟨a, b, ⟨ha, hb, hac, hbc⟩, hl⟩
  refine ⟨⟨?_, ?_⟩, net', hstar, hpaused⟩
  · rintro ⟨net'', hstar', hisStar⟩
    obtain rfl := Except.ok.inj (hstar.symm.trans hstar')
    apply eq_singleton hpool (List.mem_of_getElem? hcenter)
    intro a ha
    by_contra hac
    -- the loopback link of a ray
    obtain ⟨l, -, hl, -⟩ := Network.exists_getLink hlinked (hhosts a ha) (hhosts a ha)
    have hloop : net'.isPaused l = true := (hpaused l).mpr (Or.inr ⟨a, ha, a, ha, hac, hac, hl⟩)
    exact ((hisStar a ha a ha l hl).mp hloop).1 rfl
  · intro halone
    refine ⟨net', hstar, ?_⟩
    intro a ha b hb l hl
    rw [halone] at ha hb
    obtain rfl := List.mem_singleton.mp ha
    obtain rfl := List.mem_singleton.mp hb
    apply iff_of_false _ fun hne => hne.1 rfl
    intro hpause
    rw [hpaused, hopen _ (by simp [halone]) _ (by simp [halone]) l hl] at hpause
    obtain hpause | ⟨a, ha, -, -, hne, -, -⟩ := hpause
    · cases hpause
    · rw [halone] at ha
      exact hne (List.mem_singleton.mp ha)

/-- Three hosts and their links. -/
def threeHosts : NetState := NetState.start [⟨0, "S1"⟩, ⟨1, "S2"⟩, ⟨2, "S3"⟩] 0

/-- All links between the three hosts are open at first. -/
theorem open_threeHosts : ∀ a ∈ ["S1", "S2", "S3"], ∀ b ∈ ["S1", "S2", "S3"], ∀ l,
    threeHosts.net.getLink a b = .ok l → threeHosts.net.isPaused l = false := by
  have hopen : ∀ a ∈ ["S1", "S2", "S3"], ∀ b ∈ ["S1", "S2", "S3"],
      (threeHosts.net.getLink a b).toOption.map threeHosts.net.isPaused = some false := by decide
  intro a ha b hb l hl
  have hlink := hopen a ha b hb
  rw [hl] at hlink
  exact Option.some.inj hlink

/-- A star of one host; and among three hosts with the center S1 the links between S2 and S3
are paused and their loopback links, too. -/
theorem makeStar_iff_alone :
    (∃ net', makeStar threeHosts.net ["S1"] 0 = .ok net' ∧
      IsStar threeHosts.net net' ["S1"] "S1") ∧
      (¬ ∃ net', makeStar threeHosts.net ["S1", "S2", "S3"] 0 = .ok net' ∧
        IsStar threeHosts.net net' ["S1", "S2", "S3"] "S1") ∧
      ∃ net', makeStar threeHosts.net ["S1", "S2", "S3"] 0 = .ok net' ∧
        ∀ l < 9, net'.isPaused l = true ↔ l ∈ [4, 5, 7, 8] := by
  have halone : ∀ a ∈ ["S1"], a ∈ ["S1", "S2", "S3"] := by decide
  have hcenter : ["S1"][0]? = some "S1" := rfl
  have hcenter' : ["S1", "S2", "S3"][0]? = some "S1" := rfl
  obtain ⟨hone, -⟩ := makeStar_iff (s := threeHosts) Runs.Reaches.refl (by decide) (by decide)
    (fun a ha b hb => open_threeHosts a (halone a ha) b (halone b hb)) hcenter
  obtain ⟨hall, net', hstar, hpaused⟩ := makeStar_iff (s := threeHosts) Runs.Reaches.refl
    (by decide) (by decide) open_threeHosts hcenter'
  refine ⟨hone.mpr rfl, fun hisStar => absurd (hall.mp hisStar) (by decide), net', hstar, ?_⟩
  intro l hl
  have hlinks : ∀ l < 9, (threeHosts.net.isPaused l = true ∨ ∃ a ∈ ["S1", "S2", "S3"],
      ∃ b ∈ ["S1", "S2", "S3"], a ≠ "S1" ∧ b ≠ "S1" ∧ threeHosts.net.getLink a b = .ok l) ↔
        l ∈ [4, 5, 7, 8] := by decide
  exact (hpaused l).trans (hlinks l hl)

/-- Two hosts and their links. -/
def raysRun : NetState := NetState.start [⟨0, "S1"⟩, ⟨1, "S2"⟩] 0

/-- The only ray of a star of two hosts loses its loopback link. -/
theorem not_isStar_raysRun : ¬ ∃ net', makeStar raysRun.net ["S1", "S2"] 0 = .ok net' ∧
    IsStar raysRun.net net' ["S1", "S2"] "S1" := by
  rintro ⟨net', hstar, hisStar⟩
  obtain rfl := Except.ok.inj hstar
  exact ((hisStar "S2" (by decide) "S2" (by decide) 3 rfl).mp (by decide)).1 rfl

/-! ## Isolated hosts -/

/-- A loop over the hosts of a pool, which pauses the links from and to a victim. -/
def pauseBothWays (net : Network) (pool : List HostName) (victim : HostName) : Outcome Network :=
  pool.foldlM (fun net host =>
    if host != victim then do
      let net ← net.pauseLink host victim
      net.pauseLink victim host
    else
      .ok net) net

/-- `Isolate`. -/
def isolate (net : Network) (pool : List HostName) (victim : HostName) : Outcome Network :=
  pauseBothWays net pool victim

/-- `PauseIncomingLinks`, with the same body. -/
def pauseIncomingLinks (net : Network) (pool : List HostName) (victim : HostName) :
    Outcome Network :=
  pauseBothWays net pool victim

/-- The pairs that the loop visits. -/
def pairsWith (pool : List HostName) (victim : HostName) : List (HostName × HostName) :=
  pool.flatMap fun host => if host != victim then [(host, victim), (victim, host)] else []

variable {victim : HostName}

theorem pauseBothWays_eq (net : Network) (pool : List HostName) (victim : HostName) :
    pauseBothWays net pool victim = net.pauseLinks (pairsWith pool victim) := by
  rw [Network.pauseLinks, pairsWith, Runs.foldlM_flatMap, pauseBothWays]
  congr 1
  funext net host
  split
  · rw [List.foldlM_cons]
    refine congrArg _ (funext fun net => ?_)
    rw [List.foldlM_cons]
    exact (bind_pure _).symm
  · rfl

/-- A visit contributes the two pairs of a host that is not the victim. -/
theorem mem_both {host : HostName} {pair : HostName × HostName} :
    (pair ∈ if (host != victim) = true then [(host, victim), (victim, host)] else []) ↔
      host ≠ victim ∧ (pair = (host, victim) ∨ pair = (victim, host)) := by
  split
  · rename_i hne
    simp [bne_iff_ne.mp hne]
  · rename_i heq
    have heq : host = victim := by simpa using heq
    simp [heq]

theorem mem_pairsWith : (a, b) ∈ pairsWith pool victim ↔
    ∃ host ∈ pool, host ≠ victim ∧ ((a = host ∧ b = victim) ∨ (a = victim ∧ b = host)) := by
  simp only [pairsWith, List.mem_flatMap, mem_both, Prod.mk.injEq]

/-- In a pool of distinct hosts no pair is visited twice. -/
theorem nodup_pairsWith (hpool : pool.Nodup) (victim : HostName) :
    (pairsWith pool victim).Nodup := by
  rw [pairsWith, List.nodup_flatMap]
  constructor
  · intro host _
    split
    · rename_i hne
      have hne : (host, victim) ≠ (victim, host) := fun heq =>
        bne_iff_ne.mp hne (Prod.mk.inj heq).1
      exact List.nodup_cons.mpr ⟨fun hmem => hne (List.mem_singleton.mp hmem),
        List.nodup_singleton _⟩
    · exact List.nodup_nil
  · apply hpool.imp
    intro x y hne pair hx hy
    obtain ⟨hxv, rfl | rfl⟩ := mem_both.mp hx
    · obtain ⟨-, heq | heq⟩ := mem_both.mp hy
      · exact hne (Prod.mk.inj heq).1
      · exact hxv (Prod.mk.inj heq).1
    · obtain ⟨-, heq | heq⟩ := mem_both.mp hy
      · exact hxv (Prod.mk.inj heq).2
      · exact hne (Prod.mk.inj heq).2

/-- The links that were paused are those between the victim and the other hosts of the pool,
in both directions. -/
def IsIsolated (net net' : Network) (pool : List HostName) (victim : HostName) : Prop :=
  ∀ l, net'.isPaused l = true ↔ net.isPaused l = true ∨ ∃ host ∈ pool, host ≠ victim ∧
    (net.getLink host victim = .ok l ∨ net.getLink victim host = .ok l)

/-- The links that were paused are those from other hosts of the pool into the victim. -/
def IsDeafened (net net' : Network) (pool : List HostName) (victim : HostName) : Prop :=
  ∀ l, net'.isPaused l = true ↔ net.isPaused l = true ∨ ∃ host ∈ pool, host ≠ victim ∧
    net.getLink host victim = .ok l

/-- A pool and a victim whose links are open. -/
theorem exists_pauseBothWays (hlinked : net.Linked) (hpool : pool.Nodup)
    (hhosts : ∀ a ∈ pool, a ∈ net.servers.map IServer.hostName)
    (hvictim : victim ∈ net.servers.map IServer.hostName)
    (hopen : ∀ a ∈ pool, ∀ l, net.getLink a victim = .ok l ∨ net.getLink victim a = .ok l →
      net.isPaused l = false) :
    ∃ net', pauseBothWays net pool victim = .ok net' ∧ IsIsolated net net' pool victim := by
  have hready : ∀ pair ∈ pairsWith pool victim, net.Open pair := by
    rintro ⟨a, b⟩ hpair
    obtain ⟨host, hhost, -, ⟨rfl, rfl⟩ | ⟨rfl, rfl⟩⟩ := mem_pairsWith.mp hpair
    · obtain ⟨l, link, hl, hlink⟩ := Network.exists_getLink hlinked (hhosts a hhost) hvictim
      refine ⟨l, link, hl, hlink, ?_⟩
      rw [← Network.isPaused_eq hlink]
      exact hopen a hhost l (Or.inl hl)
    · obtain ⟨l, link, hl, hlink⟩ := Network.exists_getLink hlinked hvictim (hhosts b hhost)
      refine ⟨l, link, hl, hlink, ?_⟩
      rw [← Network.isPaused_eq hlink]
      exact hopen b hhost l (Or.inr hl)
  obtain ⟨net', hrun, hpauses⟩ :=
    Network.exists_pauseLinks hlinked (nodup_pairsWith hpool victim) hready
  refine ⟨net', (pauseBothWays_eq net pool victim).trans hrun, ?_⟩
  intro l
  rw [hpauses.paused_iff, Prod.exists]
  simp only [mem_pairsWith]
  refine or_congr_right ⟨?_, ?_⟩
  · rintro ⟨a, b, ⟨host, hhost, hne, ⟨rfl, rfl⟩ | ⟨rfl, rfl⟩⟩, hl⟩
    · exact ⟨a, hhost, hne, Or.inl hl⟩
    · exact ⟨b, hhost, hne, Or.inr hl⟩
  · rintro ⟨host, hhost, hne, hl | hl⟩
    · exact ⟨host, victim, ⟨host, hhost, hne, Or.inl ⟨rfl, rfl⟩⟩, hl⟩
    · exact ⟨victim, host, ⟨host, hhost, hne, Or.inr ⟨rfl, rfl⟩⟩, hl⟩

/-- **`PauseIncomingLinks` pauses outgoing links, too.**  `Isolate` pauses both directions
between the victim and the others, each link once.  `PauseIncomingLinks` does the same, so it
pauses exactly the incoming links if and only if there are no others. -/
theorem isolate_and_pauseIncomingLinks_iff {servers : List IServer} {now : ℕ} {s : NetState}
    (hrun : Runs.Reaches NetState.execute (fun _ _ => True) (NetState.start servers now) s)
    (hpool : pool.Nodup) (hhosts : ∀ a ∈ pool, a ∈ s.net.servers.map IServer.hostName)
    (hvictim : victim ∈ s.net.servers.map IServer.hostName)
    (hopen : ∀ a ∈ pool, ∀ l, s.net.getLink a victim = .ok l ∨ s.net.getLink victim a = .ok l →
      s.net.isPaused l = false) :
    (∃ net', isolate s.net pool victim = .ok net' ∧ IsIsolated s.net net' pool victim) ∧
      ((∃ net', pauseIncomingLinks s.net pool victim = .ok net' ∧
        IsDeafened s.net net' pool victim) ↔ ∀ host ∈ pool, host = victim) := by
  have hlinked := NetState.linked_of_reaches hrun
  obtain ⟨net', hboth, hisolated⟩ := exists_pauseBothWays hlinked hpool hhosts hvictim hopen
  refine ⟨⟨net', hboth, hisolated⟩, ?_⟩
  constructor
  · rintro ⟨net'', hincoming, hdeafened⟩ host hhost
    obtain rfl := Except.ok.inj (hboth.symm.trans hincoming)
    by_contra hne
    -- the link from the victim to another host
    obtain ⟨l, -, hl, -⟩ := Network.exists_getLink hlinked hvictim (hhosts host hhost)
    have hpaused : net'.isPaused l = true :=
      (hisolated l).mpr (Or.inr ⟨host, hhost, hne, Or.inr hl⟩)
    rcases (hdeafened l).mp hpaused with hbefore | ⟨other, -, hother, hl'⟩
    · rw [hopen host hhost l (Or.inr hl)] at hbefore
      cases hbefore
    · exact hother (Network.getLink_inj hlinked hl hl').1.symm
  · intro halone
    refine ⟨net', hboth, ?_⟩
    intro l
    rw [hisolated l]
    refine or_congr_right ⟨?_, ?_⟩
    · rintro ⟨host, hhost, hne, -⟩
      exact absurd (halone host hhost) hne
    · rintro ⟨host, hhost, hne, -⟩
      exact absurd (halone host hhost) hne

/-- A victim that is alone in its pool; and among three hosts both calls pause the links from
S1 and those to S1, but for its loopback link. -/
theorem isolate_and_pauseIncomingLinks_iff_alone :
    (∃ net', pauseIncomingLinks threeHosts.net ["S1"] "S1" = .ok net' ∧
      IsDeafened threeHosts.net net' ["S1"] "S1") ∧
      (¬ ∃ net', pauseIncomingLinks threeHosts.net ["S1", "S2", "S3"] "S1" = .ok net' ∧
        IsDeafened threeHosts.net net' ["S1", "S2", "S3"] "S1") ∧
      ∃ net', isolate threeHosts.net ["S1", "S2", "S3"] "S1" = .ok net' ∧
        ∀ l < 9, net'.isPaused l = true ↔ l ∈ [1, 2, 3, 6] := by
  have halone : ∀ a ∈ ["S1"], a ∈ ["S1", "S2", "S3"] := by decide
  have hopen : ∀ a ∈ ["S1", "S2", "S3"], ∀ l, threeHosts.net.getLink a "S1" = .ok l ∨
      threeHosts.net.getLink "S1" a = .ok l → threeHosts.net.isPaused l = false := by
    rintro a ha l (hl | hl)
    · exact open_threeHosts a ha "S1" (by decide) l hl
    · exact open_threeHosts "S1" (by decide) a ha l hl
  have hnodup : ["S1"].Nodup := by decide
  obtain ⟨-, hone⟩ := isolate_and_pauseIncomingLinks_iff (s := threeHosts) Runs.Reaches.refl
    hnodup (by decide) (by decide) fun a ha => hopen a (halone a ha)
  obtain ⟨⟨net', hisolate, hpaused⟩, hall⟩ := isolate_and_pauseIncomingLinks_iff
    (s := threeHosts) Runs.Reaches.refl (by decide) (by decide) (by decide) hopen
  refine ⟨hone.mpr (by decide), fun hdeafened => absurd (hall.mp hdeafened) (by decide), net',
    hisolate, ?_⟩
  intro l hl
  have hlinks : ∀ l < 9, (threeHosts.net.isPaused l = true ∨ ∃ host ∈ ["S1", "S2", "S3"],
      host ≠ "S1" ∧ (threeHosts.net.getLink host "S1" = .ok l ∨
        threeHosts.net.getLink "S1" host = .ok l)) ↔ l ∈ [1, 2, 3, 6] := by decide
  exact (hpaused l).trans (hlinks l hl)

/-- With two hosts the victim cannot send either. -/
theorem not_isDeafened_raysRun : ¬ ∃ net', pauseIncomingLinks raysRun.net ["S1", "S2"] "S1" = .ok net' ∧
    IsDeafened raysRun.net net' ["S1", "S2"] "S1" := by
  rintro ⟨net', hincoming, hdeafened⟩
  obtain rfl := Except.ok.inj hincoming
  -- link 1 leads from the victim to the other host
  rcases (hdeafened 1).mp (by decide) with hbefore | ⟨host, hhost, hne, hl⟩
  · exact absurd hbefore (by decide)
  · rcases List.mem_pair.mp hhost with rfl | rfl
    · exact hne rfl
    · exact absurd hl (by decide)

end Whirl.Fault
