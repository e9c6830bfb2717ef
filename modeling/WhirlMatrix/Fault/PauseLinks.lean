/-
# Pausing many links

The faults of `matrix/fault/net` pause one link after another.  On a network whose links
were built, pairs of host names that differ name different links; so if no link of some
pairs is paused yet, all of them can be paused, and nothing else changes.
-/
import WhirlMatrix.Library.Runs
import WhirlMatrix.Network.EventsInStep
import WhirlMatrix.Network.Routing

namespace Whirl.Net

namespace Network

variable {net net' : Network} {l : LinkId} {a b : HostName}

/-! ## Links by host names -/

/-- `ServerToIndex` finds a server for every host name. -/
theorem exists_serverToIndex (h : a ∈ net.servers.map IServer.hostName) :
    ∃ i server, net.serverToIndex a = .ok i ∧ net.servers[i]? = some server := by
  obtain ⟨server, hserver, rfl⟩ := List.mem_map.mp h
  have hfound : (net.servers.findIdx? fun other => server.hostName == other.hostName).isSome := by
    rw [List.findIdx?_isSome, List.any_eq_true]
    exact ⟨server, hserver, beq_self_eq_true _⟩
  obtain ⟨i, hi⟩ := Option.isSome_iff_exists.mp hfound
  have hlt : i < net.servers.length := (List.findIdx?_eq_some_iff_getElem.mp hi).1
  refine ⟨i, net.servers[i], ?_, List.getElem?_eq_getElem hlt⟩
  rw [serverToIndex, hi]

/-- `ServerToIndex` finds the only server with a host name. -/
theorem serverToIndex_of_nodup (hnodup : (net.servers.map IServer.hostName).Nodup) {i : ℕ}
    {server : IServer} (hserver : net.servers[i]? = some server) :
    net.serverToIndex server.hostName = .ok i := by
  obtain ⟨j, other, hj, -⟩ :=
    exists_serverToIndex (List.mem_map_of_mem (List.mem_of_getElem? hserver))
  obtain ⟨other', hother', hname⟩ := serverToIndex_eq_ok hj
  have hij : i = j := index_eq_of_nodup_map hnodup hserver hother' hname.symm
  rw [hj, hij]

/-- The link at the entry of two servers in the table. -/
theorem getLink_of_serverToIndex {i j : ℕ} (hi : net.serverToIndex a = .ok i)
    (hj : net.serverToIndex b = .ok j) (hlt : net.getLinkIndex i j < net.links.length) :
    net.getLink a b = .ok (net.getLinkIndex i j) := by
  rw [getLink, hi, hj, Outcome.ok_bind, Outcome.ok_bind, if_pos hlt]
  rfl

/-- There is a link between any two hosts. -/
theorem exists_getLink (hlinked : net.Linked) (ha : a ∈ net.servers.map IServer.hostName)
    (hb : b ∈ net.servers.map IServer.hostName) :
    ∃ l link, net.getLink a b = .ok l ∧ net.links[l]? = some link := by
  obtain ⟨i, start, hi, hstart⟩ := exists_serverToIndex ha
  obtain ⟨j, stop, hj, hstop⟩ := exists_serverToIndex hb
  obtain ⟨opposite, hends⟩ := hlinked.between i j start stop hstart hstop
  obtain ⟨link, hlink, -⟩ := Option.map_eq_some_iff.mp hends
  have hlt : net.getLinkIndex i j < net.links.length := (List.getElem?_eq_some_iff.mp hlink).1
  exact ⟨_, link, getLink_of_serverToIndex hi hj hlt, hlink⟩

/-- A link has one pair of host names. -/
theorem getLink_inj (hlinked : net.Linked) {a' b' : HostName} (h : net.getLink a b = .ok l)
    (h' : net.getLink a' b' = .ok l) : a = a' ∧ b = b' := by
  obtain ⟨e, he, -, -, rfl, rfl⟩ := getLink_eq_ok hlinked h
  obtain ⟨e', he', -, -, rfl, rfl⟩ := getLink_eq_ok hlinked h'
  obtain rfl := Option.some.inj (he.symm.trans he')
  exact ⟨rfl, rfl⟩

/-- `GetLink` reads the servers and the size of the table of links. -/
theorem getLink_congr (hservers : net'.servers = net.servers)
    (hlength : net'.links.length = net.links.length) (a b : HostName) :
    net'.getLink a b = net.getLink a b := by
  have hindex : ∀ host, net'.serverToIndex host = net.serverToIndex host := fun host => by
    rw [serverToIndex, serverToIndex, hservers]
  simp only [getLink, hindex, getLinkIndex, hservers, hlength]
  rfl

/-! ## Pausing -/

/-- `PauseLink` for pairs of host names, one after another. -/
def pauseLinks (net : Network) (pairs : List (HostName × HostName)) : Outcome Network :=
  pairs.foldlM (fun net pair => net.pauseLink pair.1 pair.2) net

/-- The link of a pair exists and is not paused. -/
def Open (net : Network) (pair : HostName × HostName) : Prop :=
  ∃ l link, net.getLink pair.1 pair.2 = .ok l ∧ net.links[l]? = some link ∧ link.paused = false

/-- The links of the pairs were paused, and nothing else changed. -/
structure Pauses (net : Network) (pairs : List (HostName × HostName)) (net' : Network) : Prop where
  paused_iff : ∀ l, net'.isPaused l = true ↔ net.isPaused l = true ∨
    ∃ pair ∈ pairs, net.getLink pair.1 pair.2 = .ok l
  servers : net'.servers = net.servers
  links : ∀ l, net'.links[l]? = (net.links[l]?).map fun link : Link =>
    { link with paused := net'.isPaused l }
  events : net'.events = net.events
  framesLog : net'.framesLog = net.framesLog

/-- One link is paused. -/
theorem pauses_one {link : Link} (hlink : net.links[l]? = some link) :
    (∀ l', (net.setLink l { link with paused := true }).isPaused l' = true ↔
      net.isPaused l' = true ∨ l = l') ∧
      ∀ l', (net.setLink l { link with paused := true }).links[l']? = (net.links[l']?).map
        fun link' : Link =>
          { link' with paused := (net.setLink l { link with paused := true }).isPaused l' } := by
  constructor
  · intro l'
    rw [isPaused_setLink hlink]
    by_cases heq : l = l'
    · simp [heq]
    · simp [heq]
  · intro l'
    rw [isPaused_setLink hlink]
    by_cases heq : l = l'
    · subst heq
      rw [getElem?_setLink hlink, hlink, if_pos rfl]
      rfl
    · rw [getElem?_setLink_ne net heq, if_neg heq]
      cases hlink' : net.links[l']? with
      | none => rfl
      | some link' => rw [isPaused_eq hlink', Option.map_some]

/-- **All links that are open can be paused.**  Induction on the pairs: pausing the first
link leaves the others open, because they are other links. -/
theorem exists_pauseLinks (hlinked : net.Linked) {pairs : List (HostName × HostName)}
    (hnodup : pairs.Nodup) (hopen : ∀ pair ∈ pairs, net.Open pair) :
    ∃ net', net.pauseLinks pairs = .ok net' ∧ net.Pauses pairs net' := by
  induction pairs generalizing net with
  | nil =>
    refine ⟨net, rfl, fun l => ?_, rfl, fun l => ?_, rfl, rfl⟩
    · simp
    · cases hlink : net.links[l]? with
      | none => rfl
      | some link => rw [isPaused_eq hlink, Option.map_some]
  | cons pair pairs ih =>
    obtain ⟨hne, hnodup⟩ := List.nodup_cons.mp hnodup
    obtain ⟨l, link, hl, hlink, hclosed⟩ := hopen pair (List.mem_cons_self ..)
    have hpause : net.pauseLink pair.1 pair.2
        = .ok (net.setLink l { link with paused := true }) := by
      rw [pauseLink, hl, Outcome.ok_bind, pause, hlink]
      show (link.pause >>= _) = _
      rw [Link.pause_eq_ok.mpr ⟨hclosed, rfl⟩]
      rfl
    obtain ⟨hpaused, hlinks⟩ := pauses_one hlink
    have hquiet := quiet_pauseLink hpause
    have hlength : (net.setLink l { link with paused := true }).links.length = net.links.length :=
      List.length_set
    have hgetLink : ∀ a b, (net.setLink l { link with paused := true }).getLink a b
        = net.getLink a b := getLink_congr rfl hlength
    obtain ⟨net', hrun, hpauses⟩ := ih (hlinked.congr hquiet.servers hquiet.ends) hnodup
      fun other hother => by
        obtain ⟨l', link', hl', hlink', hclosed'⟩ := hopen other (List.mem_cons_of_mem _ hother)
        refine ⟨l', link', (hgetLink ..).trans hl', ?_, hclosed'⟩
        rwa [getElem?_setLink_ne]
        rintro rfl
        have hpair := getLink_inj hlinked hl hl'
        exact hne (Prod.ext hpair.1 hpair.2 ▸ hother)
    refine ⟨net', ?_, ?_, hpauses.servers, ?_, hpauses.events, hpauses.framesLog⟩
    · rw [pauseLinks, List.foldlM_cons, hpause]
      exact hrun
    · intro l'
      rw [hpauses.paused_iff, hpaused]
      simp only [hgetLink, List.mem_cons, exists_eq_or_imp, hl, Except.ok.injEq, or_assoc]
    · intro l'
      rw [hpauses.links, hlinks, Option.map_map]
      rfl

end Network

/-! ## Networks in runs -/

/-- The links of a network in a run are those that were built. -/
theorem NetState.linked_of_reaches {servers : List IServer} {now : ℕ} {s : NetState}
    (hrun : Runs.Reaches NetState.execute (fun _ _ => True) (NetState.start servers now) s) :
    s.net.Linked := by
  apply hrun.invariant (I := fun s => s.net.Linked) (Network.linked_buildLinks servers).2
  intro s op s' hlinked _ hstep
  have hquiet : s.net.Quiet s'.net → s'.net.Linked := fun hquiet =>
    hlinked.congr hquiet.servers hquiet.ends
  cases NetState.executed_of_execute hstep with
  | tick _ => exact hlinked
  | send hnet =>
    obtain ⟨-, -, -, hservers, hends, -, -⟩ := Network.add_spec hnet
    exact hlinked.congr hservers hends
  | pauseLink hnet => exact hquiet (Network.quiet_pauseLink hnet)
  | resumeLink hnet => exact hquiet (Network.quiet_resumeLink hnet)
  | split hnet => exact hquiet (Network.quiet_split hnet)
  | heal hnet => exact hquiet (Network.quiet_heal hnet)
  | step _ _ hnet => exact hquiet (Network.quiet_step hnet).1

end Whirl.Net
