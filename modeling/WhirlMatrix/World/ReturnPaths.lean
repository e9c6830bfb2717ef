/-
# Return paths

Every packet belongs to an exchange that a client socket began: it is a packet of the
socket, or an answer to a packet of the exchange.  Packets of the socket travel on its link;
an answer travels on the opposite of the link on which the packet it answers came, with the
ports exchanged and the same timestamp.  So it arrives where the exchange began, whichever
of the three ways of answering made it.
-/
import WhirlMatrix.Fault.PauseLinks
import WhirlMatrix.Network.Delivered
import WhirlMatrix.World.Connections

namespace Whirl

open Net

/-! ## Exchanges -/

namespace Net

/-- The client socket that began the exchange. -/
def Origin.socket : Origin → ClientSocket
  | client socket => socket
  | answer request => request.socket

/-- Whether the packet goes from the client to the server; an answer goes the other way
than the packet that it answers. -/
def Origin.isForth : Origin → Bool
  | client _ => true
  | answer request => !request.isForth

namespace Network

/-- Link `l` is the one on which a packet with this origin travels. -/
def Way (net : Network) (origin : Origin) (l : LinkId) : Prop :=
  if origin.isForth then
    l = origin.socket.link
  else
    ∃ ends, net.ends origin.socket.link = some ends ∧ ends.opposite = some l

/-- A packet on link `l` belongs to the exchange of one of the client sockets. -/
structure Follows (net : Network) (created : List ClientSocket) (l : LinkId) (packet : Packet) :
    Prop where
  created : packet.origin.socket ∈ created
  way : net.Way packet.origin l
  sourcePort : packet.header.sourcePort =
    if packet.origin.isForth then packet.origin.socket.selfPort else packet.origin.socket.serverPort
  destPort : packet.header.destPort =
    if packet.origin.isForth then packet.origin.socket.serverPort else packet.origin.socket.selfPort
  ts : packet.header.ts = packet.origin.socket.ts

variable {net net' : Network} {created created' : List ClientSocket} {l out : LinkId}
  {packet : Packet}

theorem Follows.mono (h : net.Follows created l packet) (hends : ∀ l, net'.ends l = net.ends l)
    (hcreated : ∀ socket ∈ created, socket ∈ created') : net'.Follows created' l packet where
  created := hcreated _ h.created
  way := by
    have hway := h.way
    rw [Way] at hway ⊢
    rwa [hends]
  sourcePort := h.sourcePort
  destPort := h.destPort
  ts := h.ts

/-- A packet that a client socket makes. -/
theorem follows_of_ofSocket {socket : ClientSocket} (horigin : packet.origin = .client socket)
    (hcreated : socket ∈ created) (hof : OfSocket packet socket) :
    net.Follows created socket.link packet where
  created := by rwa [horigin]
  way := by
    rw [horigin]
    exact rfl
  sourcePort := by
    rw [horigin]
    exact hof.sourcePort
  destPort := by
    rw [horigin]
    exact hof.destPort
  ts := by
    rw [horigin]
    exact hof.ts

/-- The opposite of the link on which a packet came is the way of an answer. -/
theorem way_answer {origin : Origin} {ends : LinkEnds}
    (hmated : ∃ o a b, net.Mated origin.socket.link o a b) (hway : net.Way origin l)
    (hends : net.ends l = some ends) (hout : ends.opposite = some out) :
    net.Way (.answer origin) out := by
  rw [Way] at hway
  rw [Way, Origin.isForth, Origin.socket]
  cases hforth : origin.isForth with
  | true =>
    rw [if_pos hforth] at hway
    subst hway
    exact ⟨ends, hends, hout⟩
  | false =>
    -- the opposite of the opposite is the link of the socket
    rw [if_neg (by simp [hforth])] at hway
    obtain ⟨o, a, b, hmated⟩ := hmated
    obtain ⟨ends', hends', hopposite⟩ := hway
    obtain ⟨-, rfl⟩ := hmated.eq_of_opposite hends' hopposite
    exact (hmated.symm.eq_of_opposite hends hout).2

/-- **An answer belongs to the exchange**, when its ports are exchanged and its timestamp is
that of the packet it answers. -/
theorem Follows.answer {reply : Packet} {ends : LinkEnds} (h : net.Follows created l packet)
    (hmated : ∃ o a b, net.Mated packet.origin.socket.link o a b)
    (hends : net.ends l = some ends) (hout : ends.opposite = some out)
    (horigin : reply.origin = .answer packet.origin)
    (hsource : reply.header.sourcePort = packet.header.destPort)
    (hdest : reply.header.destPort = packet.header.sourcePort)
    (hts : reply.header.ts = packet.header.ts) : net.Follows created out reply where
  created := by
    rw [horigin]
    exact h.created
  way := by
    rw [horigin]
    exact way_answer hmated h.way hends hout
  sourcePort := by
    rw [hsource, h.destPort, horigin, Origin.isForth, Origin.socket]
    cases packet.origin.isForth <;> rfl
  destPort := by
    rw [hdest, h.sourcePort, horigin, Origin.isForth, Origin.socket]
    cases packet.origin.isForth <;> rfl
  ts := by
    rw [hts, h.ts, horigin]
    rfl

end Network

end Net

namespace World

/-! ## The invariant -/

/-- All packets under way, and all that reply sockets would send, belong to exchanges. -/
structure Exchanging (w : World) (hosts : List HostName) : Prop where
  hosts : w.network.servers = hosts.mapIdx fun i host => ⟨i, host⟩
  paired : w.network.Paired
  mated : ∀ socket ∈ w.created, ∃ o a b, w.network.Mated socket.link o a b
  inFlight : ∀ l frame, w.network.InFlight l frame →
    w.network.Follows w.created l frame.packet
  held : ∀ (i : ℕ) (server : Server) back, w.servers[i]? = some server → server.Holds back →
    ∀ message, w.network.Follows w.created back.link (back.makePacket message)

variable {w w' : World} {hosts : List HostName}

/-- An action after which only such packets are new. -/
theorem Exchanging.update (h : w.Exchanging hosts)
    (hservers : w'.network.servers = w.network.servers)
    (hends : ∀ l, w'.network.ends l = w.network.ends l)
    (hkept : ∀ socket ∈ w.created, socket ∈ w'.created)
    (hmated : ∀ socket ∈ w'.created, socket ∈ w.created ∨
      ∃ o a b, w.network.Mated socket.link o a b)
    (hflight : ∀ l frame, w'.network.InFlight l frame → w.network.InFlight l frame ∨
      w.network.Follows w'.created l frame.packet)
    (hheld : ∀ (i : ℕ) (server : Server) back, w'.servers[i]? = some server → server.Holds back →
      (∃ server', w.servers[i]? = some server' ∧ server'.Holds back) ∨
        ∀ message, w.network.Follows w.created back.link (back.makePacket message)) :
    w'.Exchanging hosts where
  hosts := hservers.trans h.hosts
  paired i j a b ha hb := by
    rw [hservers] at ha hb
    have hpair := (h.paired i j a b ha hb).congr hends
    rwa [Network.getLinkIndex, Network.getLinkIndex, hservers]
  mated socket hsocket := by
    have hold : ∃ o a b, w.network.Mated socket.link o a b := by
      rcases hmated socket hsocket with hold | hnew
      · exact h.mated socket hold
      · exact hnew
    obtain ⟨o, a, b, hmated⟩ := hold
    exact ⟨o, a, b, hmated.congr hends⟩
  inFlight l frame hframe := by
    rcases hflight l frame hframe with hold | hnew
    · exact (h.inFlight l frame hold).mono hends hkept
    · exact hnew.mono hends fun _ hsocket => hsocket
  held i server back hserver hback message := by
    rcases hheld i server back hserver hback with ⟨server', hserver', hold⟩ | hnew
    · exact (h.held i server' back hserver' hold message).mono hends hkept
    · exact (hnew message).mono hends hkept

/-- The servers hold what they held, and nothing is sent. -/
theorem Exchanging.quiet (h : w.Exchanging hosts) (hservers : w'.servers = w.servers)
    (hquiet : w.network.Quiet w'.network) (hcreated : w'.created = w.created) : w'.Exchanging hosts := by
  apply h.update hquiet.servers hquiet.ends
  · rw [hcreated]
    exact fun _ hsocket => hsocket
  · rw [hcreated]
    exact fun _ hsocket => Or.inl hsocket
  · exact fun l frame hframe => Or.inl (hquiet.inFlight l frame hframe)
  · intro i server back hserver hback
    rw [hservers] at hserver
    exact Or.inl ⟨server, hserver, hback⟩

/-- A server gets a new value that holds no new reply sockets, and nothing is sent. -/
theorem Exchanging.setServer (h : w.Exchanging hosts) {i : ℕ} {server server' : Server}
    (hserver : w.servers[i]? = some server)
    (hservers : w'.servers = (w.setServer i server').servers)
    (hholds : ∀ back, server'.Holds back → server.Holds back)
    (hquiet : w.network.Quiet w'.network) (hkept : ∀ socket ∈ w.created, socket ∈ w'.created)
    (hmated : ∀ socket ∈ w'.created, socket ∈ w.created ∨
      ∃ o a b, w.network.Mated socket.link o a b) : w'.Exchanging hosts := by
  apply h.update hquiet.servers hquiet.ends hkept hmated
  · exact fun l frame hframe => Or.inl (hquiet.inFlight l frame hframe)
  · intro j server'' back hserver'' hback
    rw [hservers] at hserver''
    apply Or.inl
    rcases eq_or_ne i j with rfl | hne
    · rw [getElem?_setServer hserver] at hserver''
      obtain rfl := Option.some.inj hserver''
      exact ⟨server, hserver, hholds back hback⟩
    · rw [getElem?_setServer_ne w hne] at hserver''
      exact ⟨server'', hserver'', hback⟩

/-- The same when no client socket is made. -/
theorem Exchanging.shrink (h : w.Exchanging hosts) {i : ℕ} {server server' : Server}
    (hserver : w.servers[i]? = some server)
    (hservers : w'.servers = (w.setServer i server').servers)
    (hshrinks : Server.Shrinks server server') (hquiet : w.network.Quiet w'.network)
    (hcreated : w'.created = w.created) : w'.Exchanging hosts := by
  apply h.setServer hserver hservers hshrinks.holds hquiet
  · rw [hcreated]
    exact fun _ hsocket => hsocket
  · rw [hcreated]
    exact fun _ hsocket => Or.inl hsocket

/-- A packet of an exchange is sent. -/
theorem Exchanging.send (h : w.Exchanging hosts) {net : Network} {l : LinkId} {packet : Packet}
    {now flightTime : ℕ} (hservers : w'.servers = w.servers) (hcreated : w'.created = w.created)
    (hnetwork : w'.network = net) (hadd : w.network.add l packet now flightTime = .ok net)
    (hfollows : w.network.Follows w.created l packet) : w'.Exchanging hosts := by
  obtain ⟨frame, rfl, -, hnetServers, hends, hinFlight, -⟩ := Network.add_spec hadd
  rw [← hnetwork] at hnetServers hends hinFlight
  apply h.update hnetServers hends
  · rw [hcreated]
    exact fun _ hsocket => hsocket
  · rw [hcreated]
    exact fun _ hsocket => Or.inl hsocket
  · intro l' frame' hframe'
    rcases hinFlight l' frame' hframe' with hold | ⟨rfl, rfl⟩
    · exact Or.inl hold
    · rw [hcreated]
      exact Or.inr hfollows
  · intro i server back hserver hback
    rw [hservers] at hserver
    exact Or.inl ⟨server, hserver, hback⟩

/-! ## One action -/

/-- A step sends at most an answer to the packet that it delivers, and hands over at most
the reply socket for it. -/
theorem Exchanging.step {flightTime : ℕ} (h : w.Exchanging hosts)
    (hw : w.execute (.step flightTime) = .ok w') : w'.Exchanging hosts := by
  cases stepped_of_execute hw with
  | deadlock => exact h.quiet rfl (Network.Quiet.refl _) rfl
  | ran hserver hstep =>
    exact h.shrink hserver rfl (Server.shrinks_step hstep) (Network.Quiet.refl _) rfl
  | skipped hquiet => exact h.quiet rfl hquiet rfl
  | @answered t net net' l out frame ends type payload hquiet hframe hends hout hadd =>
    have hmid : World.Exchanging { w with network := net } hosts := h.quiet rfl hquiet rfl
    have hfollows : w.network.Follows w.created l frame.packet := h.inFlight l frame hframe
    have hreply : w.network.Follows w.created out (Replier.reply frame.packet type payload) :=
      hfollows.answer (h.mated _ hfollows.created) hends hout rfl rfl rfl rfl
    exact hmid.send rfl rfl rfl hadd (hreply.mono hquiet.ends fun _ hsocket => hsocket)
  | @accepted t net l out frame ends server host task hquiet hframe hends hout hserver htask =>
    obtain ⟨endpoint, -, -, -, hkind⟩ := Transport.handlePacket_eq_scheduled htask
    have hfollows : w.network.Follows w.created l frame.packet := h.inFlight l frame hframe
    refine h.update hquiet.servers hquiet.ends ?_ ?_ ?_ ?_
    · exact fun _ hsocket => hsocket
    · exact fun _ hsocket => Or.inl hsocket
    · exact fun l frame hframe => Or.inl (hquiet.inFlight l frame hframe)
    · intro j server' back hserver' hback
      rcases eq_or_ne ends.stop.id j with rfl | hne
      · have hserver' := (getElem?_setServer hserver _).symm.trans hserver'
        obtain rfl := Option.some.inj hserver'
        rcases hback with hback | ⟨scheduled, hscheduled, handler, message, hmessage⟩
        · exact Or.inl ⟨server, hserver, Or.inl hback⟩
        · rcases List.mem_cons.mp hscheduled with rfl | hscheduled
          · -- the reply socket of the packet that was accepted
            rw [Task.transport.inj hmessage] at hkind
            rcases hkind with ⟨-, hcallback⟩ | ⟨-, hcallback⟩
            · cases hcallback
            · obtain ⟨-, rfl⟩ := Callback.message.inj hcallback
              exact Or.inr fun _ =>
                hfollows.answer (h.mated _ hfollows.created) hends hout rfl rfl rfl rfl
          · exact Or.inl ⟨server, hserver, Or.inr ⟨scheduled, hscheduled, handler, message, hmessage⟩⟩
      · have hserver' := (getElem?_setServer_ne w hne _).symm.trans hserver'
        exact Or.inl ⟨server', hserver', hback⟩

/-- A client socket leads from one server to another. -/
theorem exists_mated (hpaired : w.network.Paired) {start stop : HostName} {l : LinkId}
    (h : w.network.getLink start stop = .ok l) : ∃ o a b, w.network.Mated l o a b := by
  obtain ⟨i, j, a, b, ha, hb, -, -, rfl⟩ := Network.exists_of_getLink h
  exact ⟨_, a, b, hpaired i j a b ha hb⟩

/-- **One action keeps all packets in their exchanges.** -/
theorem Exchanging.execute {action : Action} (h : w.Exchanging hosts) (hrouted : w.Routed)
    (hw : w.execute action = .ok w') : w'.Exchanging hosts := by
  cases action with
  | step flightTime => exact h.step hw
  | schedule delay id =>
    obtain ⟨i, server, -, hserver, rfl⟩ := execute_schedule hw
    exact h.shrink hserver rfl (Server.shrinks_schedule server _ id) (Network.Quiet.refl _) rfl
  | connectTo address flightTime =>
    obtain ⟨i, server, socket, transport, net, -, hserver, hconnect, rfl⟩ := execute_connectTo hw
    obtain ⟨hlink, -, -, -, -, -, -, -, hnet⟩ := Transport.connectTo_spec hconnect
    have hself : socket ∈ w.created ++ [socket] := by simp
    have hmid : World.Exchanging { w.setServer i ({ server with transport := transport }.setHandler
        w.nextObject (some (.socket (some socket)))) with
        nextObject := w.nextObject + 1
        created := w.created ++ [socket] } hosts := by
      refine h.setServer hserver rfl (fun _ hback => ?_) (Network.Quiet.refl _) ?_ ?_
      · exact hback
      · exact fun socket' hsocket' => List.mem_append_left _ hsocket'
      · intro socket' hsocket'
        rcases List.mem_append.mp hsocket' with hsocket' | hsocket'
        · exact Or.inl hsocket'
        · rw [List.mem_singleton.mp hsocket']
          exact Or.inr (exists_mated h.paired hlink)
    rcases hnet with rfl | hadd
    · exact hmid
    · exact hmid.send rfl rfl rfl hadd
        (Network.follows_of_ofSocket rfl hself (ofSocket_connectPing socket))
  | serve port =>
    obtain ⟨i, server, transport, -, hserver, -, rfl⟩ := execute_serve hw
    exact h.setServer hserver rfl (fun _ hback => hback) (Network.Quiet.refl _)
      (fun _ hsocket => hsocket) fun _ hsocket => Or.inl hsocket
  | close object =>
    obtain ⟨i, server, server', -, hserver, hclose, rfl⟩ := execute_close hw
    exact h.shrink hserver rfl (Server.shrinks_close hclose) (Network.Quiet.refl _) rfl
  | destroy object =>
    obtain ⟨i, server, server', -, hserver, hclose, rfl⟩ := execute_destroy hw
    exact h.shrink hserver rfl
      ((Server.shrinks_close hclose).trans (Server.shrinks_drop server' object))
      (Network.Quiet.refl _) rfl
  | send object message flightTime =>
    obtain ⟨i, server, socket, net, -, hserver, hobject, hadd, rfl⟩ := execute_send hw
    have hcreated := (hrouted.sockets i server object socket hserver hobject).1
    exact h.send rfl rfl rfl hadd
      (Network.follows_of_ofSocket rfl hcreated (ofSocket_makePacket socket message))
  | reply index message flightTime =>
    obtain ⟨i, server, socket, net, -, hserver, hmem, hadd, rfl⟩ := execute_reply hw
    exact h.send rfl rfl rfl hadd (h.held i server socket hserver (Or.inl hmem) message)
  | serverFault target fault =>
    obtain ⟨-, server, server', hserver, hfault, rfl⟩ := execute_serverFault hw
    exact h.shrink hserver rfl (Server.shrinks_fault hfault) (Network.Quiet.refl _) rfl
  | networkFault fault =>
    obtain ⟨net, hfault, rfl⟩ := execute_networkFault hw
    exact h.quiet rfl (quiet_fault hfault) rfl
  | restartServer target =>
    obtain ⟨server, server', hserver, hfault, rfl⟩ := execute_restartServer hw
    exact h.shrink hserver rfl (Server.shrinks_fault hfault) (Network.Quiet.refl _) rfl

/-- Nothing is under way when a world starts. -/
theorem exchanging_of_start {adversary : Bool} {startTime : ℕ}
    (hstart : (deploy hosts adversary).start startTime = .ok w) : w.Exchanging hosts := by
  obtain ⟨servers, rfl, hservers⟩ := start_eq_ok hstart
  constructor
  · exact (Network.linked_buildLinks _).1
  · exact Network.paired_buildLinks _
  · exact fun _ hsocket => absurd hsocket List.not_mem_nil
  · exact fun l frame hframe => absurd hframe (Network.not_inFlight_buildLinks _ l frame)
  · intro i server back hserver hback
    have hserver := (hservers i).symm.trans hserver
    obtain ⟨host, -, rfl⟩ := Option.map_eq_some_iff.mp hserver
    rcases hback with hback | ⟨scheduled, hscheduled, handler, message, htask⟩
    · exact absurd hback List.not_mem_nil
    · rcases List.mem_cons.mp hscheduled with rfl | hscheduled
      · cases htask
      · exact absurd hscheduled List.not_mem_nil

theorem exchanging_of_reaches {adversary : Bool} {startTime : ℕ} {w₀ : World}
    (hstart : (deploy hosts adversary).start startTime = .ok w₀)
    (hrun : Runs.Reaches execute anyAction w₀ w) : w.Routed ∧ w.Exchanging hosts := by
  apply hrun.invariant (I := fun w => w.Routed ∧ w.Exchanging hosts)
  · exact ⟨Started.routed ⟨hosts, adversary, startTime, hstart⟩, exchanging_of_start hstart⟩
  · intro w action w' ⟨hrouted, hexchanging⟩ _ hw
    exact ⟨hrouted.execute hw, hexchanging.execute hrouted hw⟩

end World

/-! ## Routes -/

namespace Net.Network

variable {net : Network} {a b : IServer} {l o : LinkId}

/-- The links between two servers there and back, as `GetLink` finds them. -/
structure Routes (net : Network) (a b : IServer) (l o : LinkId) : Prop where
  there : net.getLink a.hostName b.hostName = .ok l
  back : net.getLink b.hostName a.hostName = .ok o
  mated : net.Mated l o a b
  /-- A loopback link is its own opposite. -/
  loopback : a = b → o = l

/-- With distinct host names, `GetLink` finds the links between any two servers. -/
theorem exists_routes (hpaired : net.Paired) (hnodup : (net.servers.map IServer.hostName).Nodup)
    (ha : a ∈ net.servers) (hb : b ∈ net.servers) : ∃ l o, net.Routes a b l o := by
  obtain ⟨i, hi⟩ := List.mem_iff_getElem?.mp ha
  obtain ⟨j, hj⟩ := List.mem_iff_getElem?.mp hb
  have hindex := serverToIndex_of_nodup hnodup hi
  have hindex' := serverToIndex_of_nodup hnodup hj
  have hmated := hpaired i j a b hi hj
  have hlt : ∀ {l : LinkId} {ends : LinkEnds}, net.ends l = some ends → l < net.links.length := by
    intro l ends hends
    obtain ⟨link, hlink, -⟩ := Option.map_eq_some_iff.mp hends
    exact (List.getElem?_eq_some_iff.mp hlink).1
  refine ⟨net.getLinkIndex i j, net.getLinkIndex j i, ?_, ?_, hmated, ?_⟩
  · exact getLink_of_serverToIndex hindex hindex' (hlt hmated.there)
  · exact getLink_of_serverToIndex hindex' hindex (hlt hmated.back)
  · rintro rfl
    obtain rfl := Except.ok.inj (hindex.symm.trans hindex')
    rfl

/-- The link that `GetLink` finds leads between the servers with these host names. -/
theorem exists_mated_of_getLink (hpaired : net.Paired) {start stop : HostName}
    (h : net.getLink start stop = .ok l) :
    ∃ o a b, net.Mated l o a b ∧ a ∈ net.servers ∧ a.hostName = start ∧ b.hostName = stop := by
  obtain ⟨i, j, a, b, ha, hb, hstart, hstop, rfl⟩ := exists_of_getLink h
  exact ⟨_, a, b, hpaired i j a b ha hb, List.mem_of_getElem? ha, hstart, hstop⟩

end Net.Network

/-! ## Deliveries -/

namespace World

variable {w w' : World} {hosts : List HostName} {a b : IServer} {delivery : Delivery}

/-- The client socket was made by the transport of `a` and connects it to `b`. -/
def Connects (w : World) (socket : ClientSocket) (a b : IServer) : Prop :=
  socket ∈ w.created ∧ ∃ o, w.network.Mated socket.link o a b

/-- The packet is handled by the transport of the server `host`, with an out-link that
leads back to `peer`. -/
structure HandledBy (w : World) (delivery : Delivery) (host peer : IServer) : Prop where
  receiver : delivery.receiver = host
  server : ∃ server, w.servers[host.id]? = some server ∧ server.hostName = host.hostName
  out : ∃ out opposite, delivery.out = some out ∧
    w.network.ends out = some ⟨host, peer, opposite⟩
  handled : ∀ flightTime, ∃ w', w.handlePacket delivery flightTime = .ok w'

theorem exists_handlePacket {server : Server} {out : LinkId} {ends : LinkEnds}
    (hserver : w.servers[delivery.receiver.id]? = some server) (hout : delivery.out = some out)
    (hends : w.network.ends out = some ends) (flightTime : ℕ) :
    ∃ w', w.handlePacket delivery flightTime = .ok w' := by
  obtain ⟨link, hlink, -⟩ := Option.map_eq_some_iff.mp hends
  rw [handlePacket, hserver, hout]
  dsimp only
  rw [hends]
  dsimp only
  split
  · exact ⟨_, rfl⟩
  · rw [Network.add, hlink]
    exact ⟨_, rfl⟩
  · exact ⟨_, rfl⟩

/-- A packet that came on one of two mated links is handled at its end, and the other one
leads back. -/
theorem handledBy_of_mated (hrouted : w.Routed) {l o : LinkId} {host peer : IServer}
    (hmated : w.network.Mated l o peer host) (hreceiver : delivery.receiver = host)
    (hout : delivery.out = some o) : w.HandledBy delivery host peer := by
  obtain ⟨server, hserver, hname⟩ := hrouted.start_eq hmated.back
  refine ⟨hreceiver, ⟨server, hserver, hname.symm⟩, ⟨o, some l, hout, hmated.back⟩, ?_⟩
  rw [← hreceiver] at hserver
  exact exists_handlePacket hserver hout hmated.back

/-- A world in whose step the network delivers a packet, when the receiver handles it. -/
def delivering (w : World) (net : Network) (t : ℕ) : World :=
  { w with
    stepNumber := w.stepNumber + 1
    time := ⟨t⟩
    network := net
    current := none }

/-- The packet and where it is handled, when it belongs to a client socket of `a` that is
connected to `b`: a packet of the socket is handled by `b`, an answer to it by `a`. -/
structure Returns (w : World) (delivery : Delivery) (a b : IServer) : Prop where
  forth : delivery.packet.origin.isForth = true → w.HandledBy delivery b a ∧
    delivery.packet.header.sourcePort = delivery.packet.origin.socket.selfPort ∧
    delivery.packet.header.destPort = delivery.packet.origin.socket.serverPort
  back : delivery.packet.origin.isForth = false → w.HandledBy delivery a b ∧
    delivery.packet.header.sourcePort = delivery.packet.origin.socket.serverPort ∧
    delivery.packet.header.destPort = delivery.packet.origin.socket.selfPort
  ts : delivery.packet.header.ts = delivery.packet.origin.socket.ts

/-- A packet of an exchange is handled at the end of its way. -/
theorem Exchanging.returns (h : w.Exchanging hosts) (hrouted : w.Routed) {net : Network}
    (hstep : w.network.step = .ok (net, some delivery)) :
    delivery.packet.origin.socket ∈ w.created ∧
      ∀ a b, w.Connects delivery.packet.origin.socket a b →
        ∀ t, (w.delivering net t).Returns delivery a b := by
  obtain ⟨hquiet, hdelivery⟩ := Network.quiet_step hstep
  obtain ⟨l, frame, ends, hframe, hpacket, hends, hreceiver, hout⟩ := hdelivery _ rfl
  have hfollows := h.inFlight l frame hframe
  rw [hpacket] at hfollows
  refine ⟨hfollows.created, fun a b ⟨_, o, hmated⟩ t => ?_⟩
  have hrouted' : (w.delivering net t).Routed :=
    hrouted.updateNetwork rfl hquiet.servers hquiet.ends rfl rfl (Nat.le_succ _)
      (hrouted.carrying.quiet hquiet)
  have hmated' : net.Mated delivery.packet.origin.socket.link o a b := hmated.congr hquiet.ends
  have hway := hfollows.way
  have hsource := hfollows.sourcePort
  have hdest := hfollows.destPort
  rw [Network.Way] at hway
  constructor
  · intro hforth
    rw [if_pos hforth] at hway hsource hdest
    subst hway
    obtain rfl := Option.some.inj (hmated.there.symm.trans hends)
    exact ⟨handledBy_of_mated hrouted' hmated' hreceiver hout, hsource, hdest⟩
  · intro hback
    rw [if_neg (by simp [hback])] at hway hsource hdest
    obtain ⟨ends', hends', hopposite⟩ := hway
    obtain ⟨-, rfl⟩ := hmated.eq_of_opposite hends' hopposite
    obtain rfl := Option.some.inj (hmated.back.symm.trans hends)
    exact ⟨handledBy_of_mated hrouted' hmated'.symm hreceiver hout, hsource, hdest⟩
  · exact hfollows.ts

theorem Connects.execute {socket : ClientSocket} {action : Action} (h : w.Connects socket a b)
    (hw : w.execute action = .ok w') : w'.Connects socket a b := by
  obtain ⟨hcreated, o, hmated⟩ := h
  exact ⟨created_subset hw socket hcreated, o, hmated.congr (ends_execute hw)⟩

/-- A client socket that the transport of a server makes connects it to the host of the
address. -/
theorem Exchanging.connectTo (h : w.Exchanging hosts) (hrouted : w.Routed)
    (hnodup : (w.network.servers.map IServer.hostName).Nodup) {address : Address} {flightTime : ℕ}
    (hw : w.execute (.connectTo address flightTime) = .ok w') :
    ∃ i server socket b, w.actor = .ok (i, server) ∧ b.hostName = address.host ∧
      socket.serverPort = address.port ∧ w'.created = w.created ++ [socket] ∧
      w'.Connects socket ⟨i, server.hostName⟩ b := by
  have hends := ends_execute hw
  obtain ⟨i, server, socket, transport, net, hcurrent, hserver, hconnect, rfl⟩ :=
    execute_connectTo hw
  obtain ⟨hlink, -, -, hport, -⟩ := Transport.connectTo_spec hconnect
  obtain ⟨o, a, b, hmated, ha, hstart, hstop⟩ := Network.exists_mated_of_getLink h.paired hlink
  have hactor : w.actor = .ok (i, server) := by
    rw [actor, hcurrent]
    dsimp only
    rw [hserver]
  -- the server with this name is the one that runs
  have hi : w.network.servers[i]? = some ⟨i, server.hostName⟩ := by
    rw [hrouted.hosts, hserver, Option.map_some]
  have hname : a = ⟨i, server.hostName⟩ := by
    obtain ⟨j, hj⟩ := List.mem_iff_getElem?.mp ha
    have hindex := Network.serverToIndex_of_nodup hnodup hj
    have hindex' := Network.serverToIndex_of_nodup hnodup hi
    rw [hstart] at hindex
    obtain rfl := Except.ok.inj (hindex.symm.trans hindex')
    exact Option.some.inj (hj.symm.trans hi)
  subst hname
  refine ⟨i, server, socket, b, hactor, hstop, hport, rfl, ?_, o, hmated.congr hends⟩
  exact List.mem_append_right _ (List.mem_singleton.mpr rfl)

/-- **Routing and return paths are right.**  In every run of distinct hosts there are links
between any two hosts there and back; a client socket stays connected to the host of its
address; its packets are handled there, with a link back, and every answer is handled by the
host that made the socket, with the ports exchanged and the same timestamp. -/
theorem returns_of_reaches {adversary : Bool} {startTime : ℕ} {w₀ : World}
    (hstart : (deploy hosts adversary).start startTime = .ok w₀) (hdistinct : hosts.Nodup)
    (hrun : Runs.Reaches execute anyAction w₀ w) :
    w.network.servers = (hosts.mapIdx fun i host => ⟨i, host⟩) ∧
      (∀ a ∈ w.network.servers, ∀ b ∈ w.network.servers, ∃ l o, w.network.Routes a b l o) ∧
      (∀ address flightTime w', w.execute (.connectTo address flightTime) = .ok w' →
        ∃ i server socket b, w.actor = .ok (i, server) ∧ b.hostName = address.host ∧
          socket.serverPort = address.port ∧ w'.created = w.created ++ [socket] ∧
          ∀ w'', Runs.Reaches execute anyAction w' w'' →
            w''.Connects socket ⟨i, server.hostName⟩ b) ∧
      ∀ net delivery, w.network.step = .ok (net, some delivery) →
        delivery.packet.origin.socket ∈ w.created ∧
          ∀ a b, w.Connects delivery.packet.origin.socket a b →
            ∀ t, (w.delivering net t).Returns delivery a b := by
  obtain ⟨hrouted, hexchanging⟩ := exchanging_of_reaches hstart hrun
  have hnodup : (w.network.servers.map IServer.hostName).Nodup := by
    rw [hexchanging.hosts, map_hostName_mapIdx]
    exact hdistinct
  refine ⟨hexchanging.hosts, ?_, ?_, ?_⟩
  · intro a ha b hb
    exact Network.exists_routes hexchanging.paired hnodup ha hb
  · intro address flightTime w' hw
    obtain ⟨i, server, socket, b, hactor, hhost, hport, hcreated, hconnects⟩ :=
      hexchanging.connectTo hrouted hnodup hw
    refine ⟨i, server, socket, b, hactor, hhost, hport, hcreated, fun w'' hrun' => ?_⟩
    exact hrun'.invariant (I := fun w => w.Connects socket ⟨i, server.hostName⟩ b) hconnects
      fun _ _ _ hI _ hw => hI.execute hw
  · intro net delivery hstep
    exact hexchanging.returns hrouted hstep

/-- The server has replied to a message of the client. -/
def replying : World :=
  (Runs.exec execute anyAction started [.step 0, .serve 42, .step 0, .connectTo ⟨"Server-1", 42⟩ 5,
    .send 1 [7] 5, .step 0, .step 0, .reply 0 [8] 5]).getD {}

/-- The reply is handled by the client. -/
theorem returns_of_reaches_replying :
    ∃ net delivery, replying.network.step = .ok (net, some delivery) ∧
      delivery.packet.origin = .answer (.client ⟨1, 2, 1, 42, 2⟩) ∧
      ∀ t, (replying.delivering net t).Returns delivery ⟨1, "Client-1"⟩ ⟨0, "Server-1"⟩ := by
  have hstart : (deploy ["Server-1", "Client-1"] false).start 0 = .ok started := rfl
  have hrun : Runs.exec execute anyAction started [.step 0, .serve 42, .step 0,
      .connectTo ⟨"Server-1", 42⟩ 5, .send 1 [7] 5, .step 0, .step 0, .reply 0 [8] 5]
        = some replying := rfl
  obtain ⟨-, -, -, hreturns⟩ :=
    returns_of_reaches hstart (by decide) (Runs.reaches_of_exec hrun)
  have hconnects : replying.Connects ⟨1, 2, 1, 42, 2⟩ ⟨1, "Client-1"⟩ ⟨0, "Server-1"⟩ :=
    ⟨by decide, 1, rfl, rfl⟩
  refine ⟨_, _, rfl, rfl, ?_⟩
  exact (hreturns _ _ rfl).2 _ _ hconnects

end World

end Whirl
