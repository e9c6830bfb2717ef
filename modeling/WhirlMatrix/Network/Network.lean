/-
# Links and the network

`Link` of `network/link.hpp` and `Network` of `network/network.hpp`.  A pointer to
a server is its number together with the host name it answers (`IServer`), a
pointer to a link is its index in `links_`.  `GlobalNow` and the flight time that
the time model chooses are arguments.
-/
import WhirlMatrix.Helpers.PriorityQueue
import WhirlMatrix.Library.Runs
import WhirlMatrix.Network.Packet
import Mathlib.Data.List.Basic
import Mathlib.Data.List.Nodup

namespace Whirl.Net

/-- A pointer to an `IServer`: two pointers are equal when their `id`s are. -/
structure IServer where
  id : ℕ
  hostName : HostName
  deriving DecidableEq, Repr

/-- In a list with distinct keys, an entry is found by its key. -/
theorem index_eq_of_nodup_map {α β : Type*} {f : α → β} {l : List α} (hnodup : (l.map f).Nodup)
    {i j : ℕ} {a b : α} (ha : l[i]? = some a) (hb : l[j]? = some b) (hkey : f a = f b) : i = j := by
  have hlt : i < (l.map f).length := by
    rw [List.length_map]
    exact (List.getElem?_eq_some_iff.mp ha).1
  apply (List.getElem?_inj hlt hnodup).mp
  rw [List.getElem?_map, List.getElem?_map, ha, hb, Option.map_some, Option.map_some, hkey]

/-! ## Links -/

/-- `Link::FrameEvent`. -/
structure FrameEvent where
  frame : Frame
  time : ℕ
  deriving DecidableEq, Repr

instance : LT FrameEvent := ⟨fun a b => a.time < b.time⟩

instance : DecidableLT FrameEvent := fun a b => inferInstanceAs (Decidable (a.time < b.time))

instance : IsStrictWeakOrder FrameEvent (· < ·) :=
  isStrictWeakOrder_of_time FrameEvent.time

/-- `Link`. -/
structure Link where
  startServer : IServer
  endServer : IServer
  frames : PriorityQueue FrameEvent := {}
  paused : Bool := false
  opposite : Option LinkId := none
  deriving DecidableEq, Repr

namespace Link

/-- `IsLoopBack` compares the pointers. -/
def isLoopBack (link : Link) : Bool := link.startServer.id == link.endServer.id

/-- `HasFrames`. -/
def hasFrames (link : Link) : Bool := !link.frames.isEmpty

/-- `NextFrameTime`. -/
def nextFrameTime (link : Link) : Outcome ℕ := do
  let smallest ← link.frames.smallest
  return smallest.time

/-- `ExtractNextFrame`. -/
def extractNextFrame (link : Link) : Outcome (Frame × Link) := do
  verify (!link.paused) "Link is paused"
  let (event, frames) ← link.frames.extract
  return (event.frame, { link with frames := frames })

theorem nextFrameTime_eq_ok {link : Link} {t : ℕ} :
    link.nextFrameTime = .ok t ↔ ∃ f, link.frames.smallest = .ok f ∧ f.time = t := by
  simp only [nextFrameTime, Outcome.bind_eq_ok, Outcome.pure_eq_ok]

theorem extractNextFrame_eq_ok {link link' : Link} {frame : Frame} :
    link.extractNextFrame = .ok (frame, link') ↔ link.paused = false ∧ ∃ f q,
      link.frames.extract = .ok (f, q) ∧ f.frame = frame ∧ { link with frames := q } = link' := by
  simp only [extractNextFrame, Outcome.bind_eq_ok, Outcome.verify_eq_ok, Outcome.pure_eq_ok,
    Prod.exists, Prod.mk.injEq, exists_const, Bool.not_eq_true']

/-- `MakeFrame`. -/
def makeFrame (link : Link) (packet : Packet) (now : ℕ) : Frame :=
  ⟨⟨link.startServer.hostName, link.endServer.hostName, now⟩, packet⟩

/-- `Pause`. -/
def pause (link : Link) : Outcome Link := do
  verify (!link.paused) "Link is already paused"
  return { link with paused := true }

theorem pause_eq_ok {link link' : Link} :
    link.pause = .ok link' ↔ link.paused = false ∧ { link with paused := true } = link' := by
  simp only [pause, Outcome.bind_eq_ok, Outcome.verify_eq_ok, Outcome.pure_eq_ok, exists_const,
    Bool.not_eq_true']

end Link

/-! ## The network -/

/-- `Network::LinkEvent`. -/
structure LinkEvent where
  time : ℕ
  link : LinkId
  deriving DecidableEq, Repr

instance : LT LinkEvent := ⟨fun a b => a.time < b.time⟩

instance : DecidableLT LinkEvent := fun a b => inferInstanceAs (Decidable (a.time < b.time))

instance : IsStrictWeakOrder LinkEvent (· < ·) :=
  isStrictWeakOrder_of_time LinkEvent.time

/-- `Network`. -/
structure Network where
  servers : List IServer := []
  links : List Link := []
  events : PriorityQueue LinkEvent := {}
  framesLog : List Frame := []
  deriving DecidableEq, Repr

/-- `fault::Partition`, a set of host names. -/
abbrev Partition := List HostName

/-- What `Step` hands to the receiver: the packet, the receiving server and the link
that leads back. -/
structure Delivery where
  packet : Packet
  receiver : IServer
  out : Option LinkId
  deriving DecidableEq, Repr

namespace Network

/-- `AddServer`. -/
def addServer (net : Network) (server : IServer) : Network :=
  { net with servers := net.servers ++ [server] }

/-- `GetLinkIndex`. -/
def getLinkIndex (net : Network) (i j : ℕ) : LinkId := i * net.servers.length + j

/-- A write through a pointer to the link with index `l`. -/
def setLink (net : Network) (l : LinkId) (link : Link) : Network :=
  { net with links := net.links.set l link }

theorem getElem?_setLink {net : Network} {l : LinkId} {link : Link}
    (h : net.links[l]? = some link) (link' : Link) :
    (net.setLink l link').links[l]? = some link' := by
  have hlt : l < net.links.length := (List.getElem?_eq_some_iff.mp h).1
  rw [setLink, List.getElem?_set_self hlt]

theorem getElem?_setLink_ne (net : Network) {l l' : LinkId} (hne : l ≠ l') (link' : Link) :
    (net.setLink l link').links[l']? = net.links[l']? := by
  rw [setLink, List.getElem?_set_ne hne]

/-- `SetOpposite` on the link with index `l`. -/
def setOpposite (net : Network) (l opposite : LinkId) : Network :=
  { net with links := net.links.modify l fun link => { link with opposite := some opposite } }

/-- `BuildLinks`: a one-way link between each pair of servers, then each link learns
its opposite. -/
def buildLinks (net : Network) : Network :=
  let net := { net with
    links := net.links ++ net.servers.flatMap fun start =>
      net.servers.map fun stop => { startServer := start, endServer := stop } }
  (List.range net.servers.length).foldl (fun net i =>
    (List.range' i (net.servers.length - i)).foldl (fun net j =>
      let ij := net.getLinkIndex i j
      let ji := net.getLinkIndex j i
      (net.setOpposite ij ji).setOpposite ji ij) net) net

theorem getElem?_setOpposite (net : Network) (l opposite l' : LinkId) :
    (net.setOpposite l opposite).links[l']? = (net.links[l']?).map fun link =>
      if l = l' then { link with opposite := some opposite } else link := by
  rw [setOpposite, List.getElem?_modify]
  split <;> simp_all

/-- What holds of the links without their opposites and is kept by `SetOpposite` holds
of the built network. -/
theorem buildLinks_induction {P : Network → Prop} {net : Network}
    (hbase : P { net with
      links := net.links ++ net.servers.flatMap fun start =>
        net.servers.map fun stop => { startServer := start, endServer := stop } })
    (hstep : ∀ (net' : Network) (i j : ℕ), net'.servers = net.servers →
      i < net.servers.length → j < net.servers.length → P net' →
        P (net'.setOpposite (net'.getLinkIndex i j) (net'.getLinkIndex j i))) :
    P net.buildLinks := by
  have hboth : P net.buildLinks ∧ net.buildLinks.servers = net.servers := by
    refine List.foldlRecOn (motive := fun net' => P net' ∧ net'.servers = net.servers) _ _
      ⟨hbase, rfl⟩ fun net' h i hi => ?_
    refine List.foldlRecOn (motive := fun net' => P net' ∧ net'.servers = net.servers) _ _
      h fun net'' h' j hj => ?_
    obtain ⟨hP, hservers⟩ := h'
    rw [List.mem_range] at hi
    rw [List.mem_range'_1] at hj
    have hlen : net'.servers.length = net.servers.length := by rw [h.2]
    have hi' : i < net.servers.length := hi
    have hj' : j < net.servers.length := by omega
    have hij := hstep net'' i j hservers hi' hj' hP
    refine ⟨?_, hservers⟩
    exact hstep (net''.setOpposite _ _) j i hservers hj' hi' hij
  exact hboth.1

/-- Nothing waits on the links that `BuildLinks` makes. -/
theorem held_buildLinks (servers : List IServer) :
    ∀ link ∈ (({ servers := servers } : Network).buildLinks).links, link.frames.held = [] := by
  refine buildLinks_induction (P := fun net => ∀ link ∈ net.links, link.frames.held = []) ?_ ?_
  · intro link hlink
    simp only [List.nil_append, List.mem_flatMap, List.mem_map] at hlink
    obtain ⟨_, -, _, -, rfl⟩ := hlink
    rfl
  · intro net i j _ _ _ hnet link hlink
    obtain ⟨l, hl⟩ := List.mem_iff_getElem?.mp hlink
    rw [getElem?_setOpposite, Option.map_eq_some_iff] at hl
    obtain ⟨link', hlink', rfl⟩ := hl
    split
    · exact hnet link' (List.mem_of_getElem? hlink')
    · exact hnet link' (List.mem_of_getElem? hlink')

theorem events_buildLinks (servers : List IServer) :
    (({ servers := servers } : Network).buildLinks).events = {} :=
  buildLinks_induction (P := fun net => net.events = {}) rfl fun _ _ _ _ _ _ h => h

theorem framesLog_buildLinks (servers : List IServer) :
    (({ servers := servers } : Network).buildLinks).framesLog = [] :=
  buildLinks_induction (P := fun net => net.framesLog = []) rfl fun _ _ _ _ _ _ h => h

/-- `ServerToIndex`: the first server with the host name. -/
def serverToIndex (net : Network) (hostname : HostName) : Outcome ℕ :=
  match net.servers.findIdx? fun server => hostname == server.hostName with
  | some i => .ok i
  | none => .error .unreachable

/-- `GetLink`. -/
def getLink (net : Network) (start stop : HostName) : Outcome LinkId := do
  let i ← net.serverToIndex start
  let j ← net.serverToIndex stop
  if net.getLinkIndex i j < net.links.length then
    return net.getLinkIndex i j
  else
    .error .outOfRange

/-- The private `Link::Add`: the frame joins the queue of the link, its wake-up the
queue of the network, and the listener's log grows. -/
def addFrame (net : Network) (l : LinkId) (frame : Frame) (deliveryTime : ℕ) : Network where
  servers := net.servers
  links := net.links.modify l fun link => { link with frames := link.frames.insert ⟨frame, deliveryTime⟩ }
  events := net.events.insert ⟨deliveryTime, l⟩
  framesLog := net.framesLog ++ [frame]

/-- The public `Link::Add`, which sends a packet; `flightTime` is the time model's
choice. -/
def add (net : Network) (l : LinkId) (packet : Packet) (now : ℕ) (flightTime : ℕ) :
    Outcome Network :=
  match net.links[l]? with
  | none => .error .undefined
  | some link => .ok (net.addFrame l (link.makeFrame packet now) (addTime now flightTime))

/-- `IsRunnable`. -/
def isRunnable (net : Network) : Bool := !net.events.isEmpty

/-- `NextStepTime`. -/
def nextStepTime (net : Network) : Outcome ℕ := do
  let smallest ← net.events.smallest
  return smallest.time

/-- `Step`, up to the call of the receiver's `HandlePacket`. -/
def step (net : Network) : Outcome (Network × Option Delivery) := do
  let (event, events) ← net.events.extract
  let net := { net with events := events }
  match net.links[event.link]? with
  | none => .error .undefined
  | some link =>
    if link.paused then
      -- skip this step
      return (net, none)
    verify link.hasFrames "Broken net"
    let nextFrameTime ← link.nextFrameTime
    verify (nextFrameTime == event.time) "Broken net"
    let (frame, link) ← link.extractNextFrame
    return (net.setLink event.link link, some ⟨frame.packet, link.endServer, link.opposite⟩)

/-! ## Faults -/

/-- `Link::Pause` on the link with index `l`. -/
def pause (net : Network) (l : LinkId) : Outcome Network :=
  match net.links[l]? with
  | none => .error .undefined
  | some link => do
    let link ← link.pause
    return net.setLink l link

/-- The loop of `Link::Resume`: overdue frames are sent again.  The first argument
bounds the number of tests of the loop condition. -/
def resumeLoop (now : ℕ) (l : LinkId) : ℕ → Network → Outcome Network
  | 0, _ => .error .diverges
  | tests + 1, net =>
    match net.links[l]? with
    | none => .error .undefined
    | some link => do
      let smallest ← link.frames.smallest
      if smallest.time < now then
        let (event, frames) ← link.frames.extract
        let net := net.setLink l { link with frames := frames }
        resumeLoop now l tests (net.addFrame l event.frame (addTime now 1))
      else
        return net

/-- `Link::Resume` on the link with index `l`. -/
def resume (net : Network) (l : LinkId) (now : ℕ) : Outcome Network :=
  match net.links[l]? with
  | none => .error .undefined
  | some link =>
    if !link.paused then
      .ok net
    else
      let net := net.setLink l { link with paused := false }
      if link.frames.isEmpty then
        .ok net
      else
        resumeLoop now l (link.frames.size + 1) net

/-- `PauseLink`. -/
def pauseLink (net : Network) (start stop : HostName) : Outcome Network := do
  let l ← net.getLink start stop
  net.pause l

/-- `ResumeLink`. -/
def resumeLink (net : Network) (start stop : HostName) (now : ℕ) : Outcome Network := do
  let l ← net.getLink start stop
  net.resume l now

/-- `IsSystem`. -/
def isSystem (server : IServer) : Bool := server.hostName.toList.head? == some 'S'

/-- `Cross`. -/
def cross (link : Link) (lhs : Partition) : Bool :=
  lhs.contains link.startServer.hostName != lhs.contains link.endServer.hostName

/-- Whether `Split` pauses a link. -/
def isSplit (link : Link) (lhs : Partition) : Bool :=
  !link.isLoopBack && isSystem link.startServer && isSystem link.endServer && cross link lhs

/-- The body of the loop of `Split`. -/
def splitLink (lhs : Partition) (net : Network) (l : LinkId) : Outcome Network :=
  match net.links[l]? with
  | none => .error .undefined
  | some link => if isSplit link lhs then net.pause l else .ok net

/-- `Split`. -/
def split (net : Network) (lhs : Partition) : Outcome Network :=
  (List.range net.links.length).foldlM (splitLink lhs) net

/-- `Heal`. -/
def heal (net : Network) (now : ℕ) : Outcome Network :=
  (List.range net.links.length).foldlM (fun net l => net.resume l now) net

/-! ## What the operations do -/

variable {net net' : Network} {l : LinkId}

/-- `Link::Add` makes a frame and sends it. -/
theorem add_eq_ok {packet : Packet} {now flightTime : ℕ}
    (h : net.add l packet now flightTime = .ok net') :
    ∃ link, net.links[l]? = some link ∧
      net' = net.addFrame l (link.makeFrame packet now) (addTime now flightTime) := by
  rw [add] at h
  split at h
  · exact absurd h (by simp)
  · rename_i link hlink
    exact ⟨link, hlink, (Except.ok.inj h).symm⟩

/-- `Step` takes the next event and, unless its link is paused, the next frame of the link. -/
theorem step_eq_ok {delivery : Option Delivery} (h : net.step = .ok (net', delivery)) :
    ∃ e events link, net.events.extract = .ok (e, events) ∧ net.links[e.link]? = some link ∧
      ((link.paused = true ∧ net' = { net with events := events } ∧ delivery = none) ∨
        link.paused = false ∧ ∃ f frames, link.frames.extract = .ok (f, frames) ∧
          f.time = e.time ∧
          net' = ({ net with events := events } : Network).setLink e.link
            { link with frames := frames } ∧
          delivery = some ⟨f.frame.packet, link.endServer, link.opposite⟩) := by
  obtain ⟨⟨e, events⟩, hextract, h⟩ := Outcome.bind_eq_ok.mp h
  dsimp only at h
  split at h
  · exact absurd h (by simp)
  · rename_i link hlink
    refine ⟨e, events, link, hextract, hlink, ?_⟩
    split at h
    · rename_i hpaused
      obtain ⟨rfl, rfl⟩ := Prod.mk.inj (Outcome.pure_eq_ok.mp h)
      exact Or.inl ⟨hpaused, rfl, rfl⟩
    · simp only [Outcome.bind_eq_ok, Outcome.verify_eq_ok, Outcome.pure_eq_ok, beq_iff_eq,
        Link.nextFrameTime_eq_ok, Link.extractNextFrame_eq_ok, Prod.exists, Prod.mk.injEq] at h
      obtain ⟨-, -, time, ⟨f, hsmallest, rfl⟩, -, htime, frame, link', ⟨hopen, f', frames, hf', rfl,
        rfl⟩, rfl, rfl⟩ := h
      -- the frame looked at and the frame taken are the same
      obtain ⟨q, hq⟩ := PriorityQueue.smallest_eq_ok.mp hsmallest
      obtain ⟨rfl, rfl⟩ := Prod.mk.inj (Except.ok.inj (hq.symm.trans hf'))
      exact Or.inr ⟨hopen, f, q, hq, htime, rfl, rfl⟩

/-- `Link::Pause` marks an open link. -/
theorem pause_eq_ok (h : net.pause l = .ok net') :
    ∃ link, net.links[l]? = some link ∧ link.paused = false ∧
      net' = net.setLink l { link with paused := true } := by
  rw [pause] at h
  split at h
  · exact absurd h (by simp)
  · rename_i link hlink
    obtain ⟨link', hlink', h⟩ := Outcome.bind_eq_ok.mp h
    obtain ⟨hopen, rfl⟩ := Link.pause_eq_ok.mp hlink'
    exact ⟨link, hlink, hopen, (Outcome.pure_eq_ok.mp h).symm⟩

/-- One turn of the loop of `Link::Resume`: an overdue frame is sent again. -/
theorem resumeLoop_succ {now tests : ℕ}
    (h : resumeLoop now l (tests + 1) net = .ok net') :
    ∃ link f, net.links[l]? = some link ∧ link.frames.smallest = .ok f ∧
      ((now ≤ f.time ∧ net' = net) ∨
        f.time < now ∧ ∃ q, link.frames.extract = .ok (f, q) ∧
          resumeLoop now l tests
            ((net.setLink l { link with frames := q }).addFrame l f.frame (addTime now 1))
              = .ok net') := by
  rw [resumeLoop] at h
  split at h
  · exact absurd h (by simp)
  · rename_i link hlink
    obtain ⟨f, hsmallest, h⟩ := Outcome.bind_eq_ok.mp h
    refine ⟨link, f, hlink, hsmallest, ?_⟩
    split at h
    · rename_i hlt
      obtain ⟨⟨f', q⟩, hextract, h⟩ := Outcome.bind_eq_ok.mp h
      obtain ⟨q', hq'⟩ := PriorityQueue.smallest_eq_ok.mp hsmallest
      obtain ⟨rfl, rfl⟩ := Prod.mk.inj (Except.ok.inj (hq'.symm.trans hextract))
      exact Or.inr ⟨hlt, q', hextract, h⟩
    · rename_i hge
      exact Or.inl ⟨Nat.not_lt.mp hge, (Outcome.pure_eq_ok.mp h).symm⟩

/-- `Link::Resume` opens a paused link and then sends its overdue frames again. -/
theorem resume_eq_ok {now : ℕ} (h : net.resume l now = .ok net') :
    ∃ link, net.links[l]? = some link ∧ ((link.paused = false ∧ net' = net) ∨
      link.paused = true ∧
        ((link.frames.held = [] ∧ net' = net.setLink l { link with paused := false }) ∨
          resumeLoop now l (link.frames.size + 1) (net.setLink l { link with paused := false })
            = .ok net')) := by
  rw [resume] at h
  split at h
  · exact absurd h (by simp)
  · rename_i link hlink
    refine ⟨link, hlink, ?_⟩
    cases hpaused : link.paused with
    | false =>
      rw [hpaused] at h
      exact Or.inl ⟨rfl, (Except.ok.inj h).symm⟩
    | true =>
      simp only [hpaused, Bool.not_true, Bool.false_eq_true, if_false] at h
      refine Or.inr ⟨rfl, ?_⟩
      split at h
      · rename_i hempty
        exact Or.inl ⟨PriorityQueue.isEmpty_iff.mp hempty, (Except.ok.inj h).symm⟩
      · exact Or.inr h

/-- What every pause keeps holds after `Split`. -/
theorem split_induction {I : Network → Prop} {lhs : Partition} (h : net.split lhs = .ok net')
    (hinit : I net) (hpause : ∀ net l net', I net → pause net l = .ok net' → I net') : I net' := by
  refine Runs.foldlM_invariant (I := I) h hinit fun net₁ l net₂ _ hI h => ?_
  rw [splitLink] at h
  split at h
  · exact absurd h (by simp)
  · split at h
    · exact hpause net₁ l net₂ hI h
    · obtain rfl := Except.ok.inj h
      exact hI

/-- What every resume keeps holds after `Heal`. -/
theorem heal_induction {I : Network → Prop} {now : ℕ} (h : net.heal now = .ok net')
    (hinit : I net) (hresume : ∀ net l net', I net → resume net l now = .ok net' → I net') : I net' :=
  Runs.foldlM_invariant (I := I) h hinit fun net₁ l net₂ _ hI h => hresume net₁ l net₂ hI h

end Network

end Whirl.Net
