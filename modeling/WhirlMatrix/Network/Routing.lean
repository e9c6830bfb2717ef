/-
# Routing

Where links lead and what they carry.  `BuildLinks` fixes the ends and the opposite
of every link; no later operation of the network changes them.  Only `Link::Add`
puts a frame on a link: pausing, resuming, splitting, healing and stepping are
`Quiet`, they carry and log only frames that were on the way before.
-/
import WhirlMatrix.Network.Network
import Mathlib.Data.List.Nodup

namespace Whirl.Net

/-- The fixed part of a link. -/
structure LinkEnds where
  start : IServer
  stop : IServer
  opposite : Option LinkId
  deriving DecidableEq, Repr

/-- The fixed part of a link. -/
def Link.ends (link : Link) : LinkEnds := ⟨link.startServer, link.endServer, link.opposite⟩

namespace Network

/-- The fixed part of the link with index `l`. -/
def ends (net : Network) (l : LinkId) : Option LinkEnds := (net.links[l]?).map Link.ends

/-- A frame is on its way over link `l`. -/
def InFlight (net : Network) (l : LinkId) (frame : Frame) : Prop :=
  ∃ link, net.links[l]? = some link ∧ ∃ event ∈ link.frames.held, event.frame = frame

theorem ends_eq {net : Network} {l : LinkId} {link : Link} (h : net.links[l]? = some link) :
    net.ends l = some link.ends := by
  rw [ends, h, Option.map_some]

/-! ## Operations that send nothing -/

/-- Nothing new is on the way in `net'`, and no link leads elsewhere. -/
structure Quiet (net net' : Network) : Prop where
  servers : net'.servers = net.servers
  ends : ∀ l, net'.ends l = net.ends l
  inFlight : ∀ l frame, net'.InFlight l frame → net.InFlight l frame
  logged : ∀ frame ∈ net'.framesLog, frame ∈ net.framesLog ∨ ∃ l, net.InFlight l frame
  kept : ∀ frame ∈ net.framesLog, frame ∈ net'.framesLog

variable {net net' net'' : Network} {l : LinkId} {link : Link}

theorem Quiet.refl (net : Network) : Quiet net net where
  servers := rfl
  ends _ := rfl
  inFlight _ _ h := h
  logged _ h := Or.inl h
  kept _ h := h

theorem Quiet.trans (h : Quiet net net') (h' : Quiet net' net'') : Quiet net net'' where
  servers := h'.servers.trans h.servers
  ends l := (h'.ends l).trans (h.ends l)
  inFlight l frame hframe := h.inFlight l frame (h'.inFlight l frame hframe)
  logged frame hframe := by
    rcases h'.logged frame hframe with hlog | ⟨l, hl⟩
    · exact h.logged frame hlog
    · exact Or.inr ⟨l, h.inFlight l frame hl⟩
  kept frame hframe := h'.kept frame (h.kept frame hframe)

/-- A link is replaced by one with the same ends and no other frames. -/
theorem Quiet.setLink (hlink : net.links[l]? = some link) {link' : Link}
    (hends : link'.ends = link.ends) (hframes : ∀ f ∈ link'.frames.held, f ∈ link.frames.held) :
    Quiet net (net.setLink l link') where
  servers := rfl
  ends l' := by
    rcases eq_or_ne l l' with rfl | hne
    · rw [ends_eq hlink, ends_eq (getElem?_setLink hlink link'), hends]
    · rw [Network.ends, Network.ends, getElem?_setLink_ne net hne]
  inFlight l' frame h := by
    obtain ⟨link'', hlink'', f, hf, rfl⟩ := h
    rcases eq_or_ne l l' with rfl | hne
    · rw [getElem?_setLink hlink] at hlink''
      obtain rfl := Option.some.inj hlink''
      exact ⟨link, hlink, f, hframes f hf, rfl⟩
    · rw [getElem?_setLink_ne net hne] at hlink''
      exact ⟨link'', hlink'', f, hf, rfl⟩
  logged _ h := Or.inl h
  kept _ h := h

/-- A change of the wake-ups alone. -/
theorem Quiet.setEvents (net : Network) (events : PriorityQueue LinkEvent) :
    Quiet net { net with events := events } where
  servers := rfl
  ends _ := rfl
  inFlight _ _ h := h
  logged _ h := Or.inl h
  kept _ h := h

/-! ## Sending a frame -/

theorem ends_addFrame (net : Network) (l : LinkId) (frame : Frame) (d : ℕ) (l' : LinkId) :
    (net.addFrame l frame d).ends l' = net.ends l' := by
  rw [ends, ends, addFrame, List.getElem?_modify]
  cases net.links[l']? with
  | none => rfl
  | some link =>
    show some (Link.ends (if l = l' then _ else _)) = _
    split <;> rfl

/-- What is on the way after a frame was sent. -/
theorem inFlight_addFrame {frame frame' : Frame} {d : ℕ} {l' : LinkId}
    (h : (net.addFrame l frame d).InFlight l' frame') :
    net.InFlight l' frame' ∨ (l' = l ∧ frame' = frame) := by
  obtain ⟨link', hlink', f, hf, rfl⟩ := h
  rw [addFrame, List.getElem?_modify] at hlink'
  obtain ⟨link, hlink, rfl⟩ := Option.map_eq_some_iff.mp hlink'
  split at hf
  · rename_i heq
    rcases List.mem_cons.mp hf with rfl | hf
    · exact Or.inr ⟨heq.symm, rfl⟩
    · exact Or.inl ⟨link, hlink, f, hf, rfl⟩
  · exact Or.inl ⟨link, hlink, f, hf, rfl⟩

/-- What `Link::Add` does: the frame of the packet is on the way, and nothing else is new. -/
theorem add_spec {packet : Packet} {now flightTime : ℕ}
    (h : net.add l packet now flightTime = .ok net') :
    ∃ frame, frame.packet = packet ∧
      (∃ ends, net.ends l = some ends ∧ frame.header.sourceHost = ends.start.hostName) ∧
      net'.servers = net.servers ∧ (∀ l', net'.ends l' = net.ends l') ∧
      (∀ l' frame', net'.InFlight l' frame' →
        net.InFlight l' frame' ∨ (l' = l ∧ frame' = frame)) ∧
      net'.framesLog = net.framesLog ++ [frame] := by
  obtain ⟨link, hlink, rfl⟩ := add_eq_ok h
  exact ⟨link.makeFrame packet now, rfl, ⟨link.ends, ends_eq hlink, rfl⟩, rfl,
    ends_addFrame net l _ _, fun l' frame' h' => inFlight_addFrame h', rfl⟩

/-! ## Faults and steps are quiet -/

theorem quiet_pause (h : net.pause l = .ok net') : Quiet net net' := by
  obtain ⟨link, hlink, -, rfl⟩ := pause_eq_ok h
  exact Quiet.setLink hlink (by rfl) fun f hf => hf

/-- Induction on the turns of the loop: each turn takes a frame off the link and sends
the same frame again. -/
theorem quiet_resumeLoop {now tests : ℕ} (h : resumeLoop now l tests net = .ok net') :
    Quiet net net' := by
  induction tests generalizing net with
  | zero => exact absurd h (by simp [resumeLoop])
  | succ tests ih =>
    obtain ⟨link, f, hlink, -, ⟨-, rfl⟩ | ⟨-, q, hextract, h⟩⟩ := resumeLoop_succ h
    · exact Quiet.refl _
    · have hperm := PriorityQueue.extract_perm hextract
      have hf : f ∈ link.frames.held := hperm.mem_iff.mp (List.mem_cons_self ..)
      have hq : ∀ f' ∈ q.held, f' ∈ link.frames.held := fun f' hf' =>
        hperm.mem_iff.mp (List.mem_cons_of_mem _ hf')
      have hset : Quiet net (net.setLink l { link with frames := q }) :=
        Quiet.setLink hlink (by rfl) hq
      have hloop := ih h
      refine ⟨hloop.servers, fun l' => ?_, fun l' frame hframe => ?_, fun frame hframe => ?_,
        fun frame hframe => ?_⟩
      · rw [hloop.ends, ends_addFrame, hset.ends]
      · rcases inFlight_addFrame (hloop.inFlight l' frame hframe) with hframe | ⟨rfl, rfl⟩
        · exact hset.inFlight l' frame hframe
        · exact ⟨link, hlink, f, hf, rfl⟩
      · rcases hloop.logged frame hframe with hframe | ⟨l', hframe⟩
        · rcases List.mem_append.mp hframe with hframe | hframe
          · exact Or.inl hframe
          · rw [List.mem_singleton.mp hframe]
            exact Or.inr ⟨l, link, hlink, f, hf, rfl⟩
        · rcases inFlight_addFrame hframe with hframe | ⟨rfl, rfl⟩
          · exact Or.inr ⟨l', hset.inFlight l' frame hframe⟩
          · exact Or.inr ⟨l', link, hlink, f, hf, rfl⟩
      · exact hloop.kept frame (List.mem_append_left _ hframe)

theorem quiet_resume {now : ℕ} (h : net.resume l now = .ok net') : Quiet net net' := by
  obtain ⟨link, hlink, ⟨-, rfl⟩ | ⟨-, hrest⟩⟩ := resume_eq_ok h
  · exact Quiet.refl _
  · have hset : Quiet net (net.setLink l { link with paused := false }) :=
      Quiet.setLink hlink (by rfl) fun f hf => hf
    rcases hrest with ⟨-, rfl⟩ | hloop
    · exact hset
    · exact hset.trans (quiet_resumeLoop hloop)

theorem quiet_pauseLink {start stop : HostName} (h : net.pauseLink start stop = .ok net') :
    Quiet net net' := by
  obtain ⟨l, -, h⟩ := Outcome.bind_eq_ok.mp h
  exact quiet_pause h

theorem quiet_resumeLink {start stop : HostName} {now : ℕ}
    (h : net.resumeLink start stop now = .ok net') : Quiet net net' := by
  obtain ⟨l, -, h⟩ := Outcome.bind_eq_ok.mp h
  exact quiet_resume h

theorem quiet_split {lhs : Partition} (h : net.split lhs = .ok net') : Quiet net net' :=
  split_induction (I := Quiet net) h (Quiet.refl net)
    fun _ _ _ hI h => hI.trans (quiet_pause h)

theorem quiet_heal {now : ℕ} (h : net.heal now = .ok net') : Quiet net net' :=
  heal_induction (I := Quiet net) h (Quiet.refl net)
    fun _ _ _ hI h => hI.trans (quiet_resume h)

/-- A step is quiet, and delivers a frame that was on the way to the end of its link. -/
theorem quiet_step {delivery : Option Delivery} (h : net.step = .ok (net', delivery)) :
    Quiet net net' ∧ ∀ d, delivery = some d →
      ∃ l frame ends, net.InFlight l frame ∧ frame.packet = d.packet ∧ net.ends l = some ends ∧
        d.receiver = ends.stop ∧ d.out = ends.opposite := by
  obtain ⟨e, events, link, -, hlink, ⟨-, rfl, rfl⟩ | ⟨-, f, frames, hextract, -, rfl, rfl⟩⟩ :=
    step_eq_ok h
  · exact ⟨Quiet.setEvents net events, fun d hd => absurd hd (by simp)⟩
  · have hperm := PriorityQueue.extract_perm hextract
    have hlink' : ({ net with events := events } : Network).links[e.link]? = some link := hlink
    refine ⟨(Quiet.setEvents net events).trans (Quiet.setLink hlink' (by rfl) fun f' hf' =>
      hperm.mem_iff.mp (List.mem_cons_of_mem _ hf')), fun d hd => ?_⟩
    obtain rfl := Option.some.inj hd
    exact ⟨e.link, f.frame, link.ends,
      ⟨link, hlink, f, hperm.mem_iff.mp (List.mem_cons_self ..), rfl⟩, rfl, ends_eq hlink, rfl, rfl⟩

/-! ## The links that `BuildLinks` makes -/

/-- The links of a network lead from server to server, and opposites lead back. -/
structure Linked (net : Network) : Prop where
  start : ∀ l e, net.ends l = some e → e.start ∈ net.servers
  between : ∀ i j a b, net.servers[i]? = some a → net.servers[j]? = some b →
    ∃ opposite, net.ends (net.getLinkIndex i j) = some ⟨a, b, opposite⟩
  back : ∀ l e o, net.ends l = some e → e.opposite = some o →
    ∃ opposite, net.ends o = some ⟨e.stop, e.start, opposite⟩

/-- The entry of a table of all pairs, written row by row. -/
theorem getElem?_allPairs {α β γ : Type} (f : α → β → γ) (l : List α) (m : List β) (i : ℕ) {j : ℕ}
    (hj : j < m.length) :
    (l.flatMap fun a => m.map (f a))[i * m.length + j]?
      = (l[i]?).bind fun a => (m[j]?).map (f a) := by
  induction l generalizing i with
  | nil => simp
  | cons a l ih =>
    rw [List.flatMap_cons]
    cases i with
    | zero =>
      rw [List.getElem?_append_left (by rw [List.length_map]; omega)]
      simp
    | succ i =>
      have hidx : (i + 1) * m.length + j - m.length = i * m.length + j := by
        rw [Nat.succ_mul]
        omega
      have hle : m.length ≤ (i + 1) * m.length + j := by
        rw [Nat.succ_mul]
        omega
      rw [List.getElem?_append_right (by rwa [List.length_map]), List.length_map, hidx, ih]
      simp

/-- Before the links are paired, each leads from the server of its row to that of its column. -/
theorem ends_of_allPairs {net : Network} {servers : List IServer}
    (hlinks : net.links = servers.flatMap fun start =>
      servers.map fun stop => { startServer := start, endServer := stop })
    {i j : ℕ} {a b : IServer} (hi : servers[i]? = some a) (hj : servers[j]? = some b) :
    net.ends (i * servers.length + j) = some ⟨a, b, none⟩ := by
  have hj' : j < servers.length := (List.getElem?_eq_some_iff.mp hj).1
  have hpair := getElem?_allPairs
    (fun start stop => ({ startServer := start, endServer := stop } : Link)) servers servers i hj'
  rw [hi, hj] at hpair
  rw [ends, hlinks, hpair]
  rfl

theorem ends_setOpposite (net : Network) (l opposite l' : LinkId) :
    (net.setOpposite l opposite).ends l' = (net.ends l').map fun e =>
      if l = l' then { e with opposite := some opposite } else e := by
  rw [ends, ends, getElem?_setOpposite]
  cases net.links[l']? with
  | none => rfl
  | some link =>
    show some (Link.ends (if l = l' then _ else _)) = some (if l = l' then _ else _)
    split <;> rfl

/-- The links that are built lead between all servers. -/
theorem linked_buildLinks (servers : List IServer) :
    (({ servers := servers } : Network).buildLinks).servers = servers ∧
      (({ servers := servers } : Network).buildLinks).Linked := by
  refine buildLinks_induction (P := fun net => net.servers = servers ∧ net.Linked)
    ⟨rfl, ?_, ?_, ?_⟩ ?_
  · intro l e he
    obtain ⟨link, hlink, rfl⟩ := Option.map_eq_some_iff.mp he
    have hmem := List.mem_of_getElem? hlink
    simp only [List.nil_append, List.mem_flatMap, List.mem_map] at hmem
    obtain ⟨_, hstart, _, -, rfl⟩ := hmem
    exact hstart
  · intro i j a b hi hj
    exact ⟨none, ends_of_allPairs (List.nil_append _) hi hj⟩
  · intro l e o he ho
    -- no link has an opposite yet
    obtain ⟨link, hlink, rfl⟩ := Option.map_eq_some_iff.mp he
    have hmem := List.mem_of_getElem? hlink
    simp only [List.nil_append, List.mem_flatMap, List.mem_map] at hmem
    obtain ⟨_, -, _, -, rfl⟩ := hmem
    exact absurd ho (by simp [Link.ends])
  · intro net i j _ hi hj h
    obtain ⟨hservers, hlinked⟩ := h
    have hends := ends_setOpposite net (net.getLinkIndex i j) (net.getLinkIndex j i)
    have hbetween : ∀ i' j' a b, net.servers[i']? = some a → net.servers[j']? = some b →
        ∃ opposite, (net.setOpposite (net.getLinkIndex i j) (net.getLinkIndex j i)).ends
          (net.getLinkIndex i' j') = some ⟨a, b, opposite⟩ := by
      intro i' j' a b ha hb
      obtain ⟨opposite, ho⟩ := hlinked.between i' j' a b ha hb
      rw [hends, ho, Option.map_some]
      split
      · exact ⟨_, rfl⟩
      · exact ⟨_, rfl⟩
    refine ⟨hservers, fun l e he => ?_, hbetween, fun l e o he ho => ?_⟩
    · rw [hends, Option.map_eq_some_iff] at he
      obtain ⟨e', he', rfl⟩ := he
      have hstart := hlinked.start l e' he'
      split <;> exact hstart
    rw [hends, Option.map_eq_some_iff] at he
    obtain ⟨e', he', rfl⟩ := he
    split at ho
    · rename_i hl
      subst hl
      obtain rfl := Option.some.inj ho
      have hi' : ∃ a, net.servers[i]? = some a :=
        ⟨_, by rw [hservers]; exact List.getElem?_eq_getElem hi⟩
      have hj' : ∃ b, net.servers[j]? = some b :=
        ⟨_, by rw [hservers]; exact List.getElem?_eq_getElem hj⟩
      obtain ⟨_, hi'⟩ := hi'
      obtain ⟨_, hj'⟩ := hj'
      obtain ⟨_, hij⟩ := hlinked.between i j _ _ hi' hj'
      obtain rfl := Option.some.inj (he'.symm.trans hij)
      rw [if_pos rfl]
      exact hbetween j i _ _ hj' hi'
    · rename_i hl
      rw [if_neg hl]
      obtain ⟨opposite, hopposite⟩ := hlinked.back l e' o he' ho
      rw [hends, hopposite, Option.map_some]
      split
      · exact ⟨_, rfl⟩
      · exact ⟨_, rfl⟩

/-- Being linked depends on the fixed part of the network alone. -/
theorem Linked.congr (h : net.Linked) (hservers : net'.servers = net.servers)
    (hends : ∀ l, net'.ends l = net.ends l) : net'.Linked where
  start l e he := by
    rw [hends] at he
    rw [hservers]
    exact h.start l e he
  between i j a b ha hb := by
    rw [hservers] at ha hb
    rw [hends, getLinkIndex, hservers]
    exact h.between i j a b ha hb
  back l e o he ho := by
    rw [hends] at he
    rw [hends]
    exact h.back l e o he ho

/-- `ServerToIndex` finds a server with the host name. -/
theorem serverToIndex_eq_ok {hostname : HostName} {i : ℕ}
    (h : net.serverToIndex hostname = .ok i) :
    ∃ server, net.servers[i]? = some server ∧ server.hostName = hostname := by
  rw [serverToIndex] at h
  split at h
  · rename_i i' hfind
    obtain rfl := Except.ok.inj h
    obtain ⟨hlt, hname, -⟩ := List.findIdx?_eq_some_iff_getElem.mp hfind
    exact ⟨_, List.getElem?_eq_getElem hlt, (beq_iff_eq.mp hname).symm⟩
  · exact absurd h (by simp)

/-- `GetLink` finds the link between two servers with the host names. -/
theorem exists_of_getLink {start stop : HostName} (h : net.getLink start stop = .ok l) :
    ∃ i j a b, net.servers[i]? = some a ∧ net.servers[j]? = some b ∧ a.hostName = start ∧
      b.hostName = stop ∧ l = net.getLinkIndex i j := by
  obtain ⟨i, hi, h⟩ := Outcome.bind_eq_ok.mp h
  obtain ⟨j, hj, h⟩ := Outcome.bind_eq_ok.mp h
  split at h
  · obtain rfl := Outcome.pure_eq_ok.mp h
    obtain ⟨a, ha, hstart⟩ := serverToIndex_eq_ok hi
    obtain ⟨b, hb, hstop⟩ := serverToIndex_eq_ok hj
    exact ⟨i, j, a, b, ha, hb, hstart, hstop, rfl⟩
  · exact absurd h (by simp)

/-- This link leads from the one to the other. -/
theorem getLink_eq_ok {start stop : HostName} (hlinked : net.Linked)
    (h : net.getLink start stop = .ok l) :
    ∃ e, net.ends l = some e ∧ e.start ∈ net.servers ∧ e.stop ∈ net.servers ∧
      e.start.hostName = start ∧ e.stop.hostName = stop := by
  obtain ⟨i, j, a, b, ha, hb, hstart, hstop, rfl⟩ := exists_of_getLink h
  obtain ⟨opposite, hends⟩ := hlinked.between i j a b ha hb
  exact ⟨_, hends, List.mem_of_getElem? ha, List.mem_of_getElem? hb, hstart, hstop⟩

end Network

end Whirl.Net
