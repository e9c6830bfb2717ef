/-
# Replies reach only the requester

In the exchange that a client socket began, every other packet is an answer that goes back to
the host and port of the socket with its timestamp: the answers to its packets, the answers to
those by which the client answered in turn, and so on.  Such a packet is accepted by the endpoint
of the socket itself, in every run in which no endpoint is registered at a port through which a
packet was already sent in the same step.  Without this condition a port that is closed and
taken again within one step has two endpoints with one timestamp.
-/
import WhirlMatrix.World.ReturnPaths

namespace Whirl

open Net

namespace Net

/-- A packet was sent through the client socket. -/
def Network.Sent (net : Network) (socket : ClientSocket) : Prop :=
  ∃ frame ∈ net.framesLog, frame.packet.origin = .client socket

variable {net net' : Network} {socket : ClientSocket}

theorem Network.Sent.mono (h : net.Sent socket)
    (hlog : ∀ frame ∈ net.framesLog, frame ∈ net'.framesLog) : net'.Sent socket := by
  obtain ⟨frame, hframe, horigin⟩ := h
  exact ⟨frame, hlog frame hframe, horigin⟩

/-- What was sent through a client socket after a packet was added. -/
theorem Network.sent_add {l : LinkId} {packet : Packet} {now flightTime : ℕ}
    (hadd : net.add l packet now flightTime = .ok net') (h : net'.Sent socket) :
    net.Sent socket ∨ packet.origin = .client socket := by
  obtain ⟨frame, rfl, -, -, -, -, hlog⟩ := Network.add_spec hadd
  obtain ⟨frame', hframe', horigin⟩ := h
  rw [hlog] at hframe'
  rcases List.mem_append.mp hframe' with hframe' | hframe'
  · exact Or.inl ⟨frame', hframe', horigin⟩
  · rw [List.mem_singleton.mp hframe'] at horigin
    exact Or.inr horigin

/-- Nothing new is sent by a quiet operation. -/
theorem Network.sent_quiet {created : List ClientSocket} (hcarrying : net.Carrying created)
    (hquiet : net.Quiet net') (h : net'.Sent socket) : net.Sent socket := by
  obtain ⟨frame, hframe, horigin⟩ := h
  rcases hquiet.logged frame hframe with hframe | ⟨l, hframe⟩
  · exact ⟨frame, hframe, horigin⟩
  · exact ⟨frame, (hcarrying.requests l frame socket hframe horigin).2.2.2, horigin⟩

end Net

namespace World

/-! ## The condition -/

/-- No packet was sent from this port of the server whose step is going on, with the
number of the step as its timestamp. -/
def PortUnused (w : World) (port : Port) : Prop :=
  ∀ (i : ℕ) (server : Server), w.current = some i → w.servers[i]? = some server →
    ∀ frame ∈ w.network.framesLog, frame.header.sourceHost = server.hostName →
      frame.packet.header.sourcePort = port → frame.packet.header.ts ≠ w.stepNumber

/-- An endpoint is registered only at a port that is unused in this sense. -/
def RegistersUnused (w : World) : Action → Prop
  | .serve port => PortUnused w port
  | .connectTo _ _ => ∀ (i : ℕ) (server : Server) port nextPort, w.current = some i →
      w.servers[i]? = some server →
      Transport.findFreePort server.transport.endpoints (2 ^ 16) server.transport.nextPort
        = .ok (port, nextPort) → PortUnused w port
  | _ => True

/-! ## The invariant -/

/-- An endpoint at the port of a client socket through which a packet was sent belongs to
the socket, or has a greater timestamp. -/
def Owned (w : World) : Prop :=
  ∀ socket, w.network.Sent socket → ∀ ends, w.network.ends socket.link = some ends →
    ∀ e, w.endpointAt ends.start.id socket.selfPort = some e → e.ts ≤ socket.ts →
      e.handler = socket.handler

/-- An exchange begins with a packet of its client socket, and of the answers that go back to a
client socket only this one took any. -/
structure Answering (w : World) : Prop where
  distinct : (w.servers.map Server.hostName).Nodup
  inFlight : ∀ l frame, w.network.InFlight l frame → w.network.Sent frame.packet.origin.socket
  held : ∀ (i : ℕ) (server : Server) back, w.servers[i]? = some server → server.Holds back →
    w.network.Sent back.request.socket
  owned : w.Owned
  accepted : ∀ a ∈ w.accepted, a.packet.origin.isForth = false →
    a.task.handler = a.packet.origin.socket.handler

variable {w w' : World} {hosts : List HostName}

/-- With distinct host names, a link from the host of a server starts at that server. -/
theorem start_id_eq (h : w.Routed) (hdistinct : (w.servers.map Server.hostName).Nodup)
    {l : LinkId} {ends : LinkEnds} (hends : w.network.ends l = some ends) {i : ℕ} {server : Server}
    (hserver : w.servers[i]? = some server) (hname : ends.start.hostName = server.hostName) :
    ends.start.id = i := by
  obtain ⟨server', hserver', hname'⟩ := h.start_eq hends
  exact index_eq_of_nodup_map hdistinct hserver' hserver (hname'.symm.trans hname)

/-- The host names of the servers never change. -/
theorem map_hostName_setServer {i : ℕ} {server server' : Server}
    (hserver : w.servers[i]? = some server) (hname : server'.hostName = server.hostName) :
    (w.setServer i server').servers.map Server.hostName = w.servers.map Server.hostName := by
  refine List.ext_getElem? fun j => ?_
  rw [List.getElem?_map, List.getElem?_map]
  rcases eq_or_ne i j with rfl | hne
  · rw [getElem?_setServer hserver, hserver, Option.map_some, Option.map_some, hname]
  · rw [getElem?_setServer_ne w hne]

/-- A server gets a new value in which nothing new is open, and no packet is sent. -/
theorem Answering.shrink (h : w.Answering) (hrouted : w.Routed) {i : ℕ} {server server' : Server}
    (hserver : w.servers[i]? = some server)
    (hservers : w'.servers = (w.setServer i server').servers)
    (hshrinks : Server.Shrinks server server') (hquiet : w.network.Quiet w'.network)
    (haccepted : w'.accepted = w.accepted) : w'.Answering where
  distinct := by
    rw [hservers, map_hostName_setServer hserver hshrinks.hostName]
    exact h.distinct
  inFlight l frame hframe :=
    (h.inFlight l frame (hquiet.inFlight l frame hframe)).mono hquiet.kept
  held := by
    intro j newServer back hnewServer hback
    rw [hservers] at hnewServer
    exact forall_setServer (P := fun _ server => server.Holds back →
        w'.network.Sent back.request.socket)
      (fun j server hserver hback => (h.held j server back hserver hback).mono hquiet.kept)
      (fun hback => (h.held i server back hserver (hshrinks.holds back hback)).mono hquiet.kept)
      j newServer hnewServer hback
  owned socket hsent ends hends e he hle := by
    have hsent := Network.sent_quiet hrouted.carrying hquiet hsent
    rw [hquiet.ends] at hends
    have hold := endpointAt_setServer (P := fun _ => False) hserver hservers
      (fun port e he => Or.inl (hshrinks.endpoints port e he)) _ _ e he
    exact h.owned socket hsent ends hends e (hold.resolve_right id) hle
  accepted := by
    rw [haccepted]
    exact h.accepted

/-- Only the network changes: a client socket sends a packet, or an answer is sent. -/
theorem Answering.send (h : w.Answering) {net : Network} {l : LinkId} {packet : Packet}
    {now flightTime : ℕ} (hservers : w'.servers = w.servers) (hnetwork : w'.network = net)
    (haccepted : w'.accepted = w.accepted)
    (hadd : w.network.add l packet now flightTime = .ok net)
    (hbegun : packet.origin = .client packet.origin.socket ∨
      w.network.Sent packet.origin.socket)
    (hrequest : ∀ socket, packet.origin = .client socket →
      ∀ ends, w.network.ends socket.link = some ends →
        ∀ e, w.endpointAt ends.start.id socket.selfPort = some e → e.ts ≤ socket.ts →
          e.handler = socket.handler) : w'.Answering := by
  obtain ⟨frame, rfl, -, -, hends, hinFlight, hlog⟩ := Network.add_spec hadd
  have hkept : ∀ frame' ∈ w.network.framesLog, frame' ∈ net.framesLog := by
    rw [hlog]
    exact fun _ hframe' => List.mem_append_left _ hframe'
  subst hnetwork
  refine ⟨by rw [hservers]; exact h.distinct, fun l' frame' hframe' => ?_,
    fun i server back hserver hback => ?_, fun socket hsent ends hends' e he hle => ?_,
    by rw [haccepted]; exact h.accepted⟩
  · rcases hinFlight l' frame' hframe' with hold | ⟨rfl, rfl⟩
    · exact (h.inFlight l' frame' hold).mono hkept
    · rcases hbegun with horigin | hsent
      · refine ⟨frame', ?_, horigin⟩
        rw [hlog]
        exact List.mem_append_right _ (List.mem_singleton_self _)
      · exact hsent.mono hkept
  · rw [hservers] at hserver
    exact (h.held i server back hserver hback).mono hkept
  · rw [hends] at hends'
    rw [endpointAt, hservers] at he
    rcases Network.sent_add hadd hsent with hsent | horigin
    · exact h.owned socket hsent ends hends' e he hle
    · exact hrequest socket horigin ends hends' e he hle

/-! ## One action -/

/-- A new endpoint at an unused port takes no answer to an older packet. -/
theorem owned_of_register (h : w.Answering) (hrouted : w.Routed) {i : ℕ} {server server' : Server}
    {port : Port} {object : ObjectId} (hcurrent : w.current = some i)
    (hserver : w.servers[i]? = some server)
    (hservers : w'.servers = (w.setServer i server').servers)
    (hendpoints : server'.transport.endpoints
      = Function.update server.transport.endpoints port (some ⟨object, w.stepNumber⟩))
    (hunused : PortUnused w port) {socket : ClientSocket} (hsent : w.network.Sent socket)
    {ends : LinkEnds} (hends : w.network.ends socket.link = some ends) {e : Endpoint}
    (he : w'.endpointAt ends.start.id socket.selfPort = some e) (hle : e.ts ≤ socket.ts) :
    e.handler = socket.handler := by
  rcases eq_or_ne i ends.start.id with hi | hne
  · obtain ⟨newServer, hnewServer, he⟩ := endpointAt_eq_some.mp he
    rw [hservers, ← hi, getElem?_setServer hserver] at hnewServer
    obtain rfl := Option.some.inj hnewServer
    rw [hendpoints] at he
    rcases eq_or_ne socket.selfPort port with hport | hne
    · -- the log shows a packet from this very port with the number of the step
      rw [hport, Function.update_self] at he
      obtain rfl := Option.some.inj he
      obtain ⟨frame, hframe, horigin⟩ := hsent
      obtain ⟨hcreated, hof, ends', hends', hsource⟩ :=
        hrouted.carrying.logged frame hframe socket horigin
      obtain rfl := Option.some.inj (hends.symm.trans hends')
      obtain ⟨startServer, hstart, hname⟩ := hrouted.start_eq hends
      rw [← hi, hserver] at hstart
      obtain rfl := Option.some.inj hstart
      have hold : socket.ts ≤ w.stepNumber := hrouted.numbered socket hcreated
      refine absurd ?_ (hunused i server hcurrent hserver frame hframe (hsource.trans hname)
        (hof.sourcePort.trans hport))
      rw [hof.ts]
      exact Nat.le_antisymm hold hle
    · rw [Function.update_of_ne hne] at he
      refine h.owned socket hsent ends hends e (endpointAt_eq_some.mpr ⟨server, ?_, he⟩) hle
      rw [← hi, hserver]
  · rw [endpointAt, hservers, getElem?_setServer_ne w hne] at he
    exact h.owned socket hsent ends hends e he hle

/-- The endpoint at the port of an open client socket is its own. -/
theorem owned_of_open (h : w.Answering) (hrouted : w.Routed) {i : ℕ} {server : Server}
    {object : ObjectId} {socket : ClientSocket} (hserver : w.servers[i]? = some server)
    (hobject : server.process.handlers object = some (.socket (some socket))) {ends : LinkEnds}
    (hends : w.network.ends socket.link = some ends) {e : Endpoint}
    (he : w.endpointAt ends.start.id socket.selfPort = some e) : e.handler = socket.handler := by
  obtain ⟨-, ends', hends', -, hname⟩ := hrouted.sockets i server object socket hserver hobject
  obtain rfl := Option.some.inj (hends.symm.trans hends')
  rw [start_id_eq hrouted h.distinct hends hserver hname] at he
  obtain ⟨server', hserver', he⟩ := endpointAt_eq_some.mp he
  obtain rfl := Option.some.inj (hserver.symm.trans hserver')
  obtain ⟨hhandler, hendpoint⟩ := (hrouted.booked i server hserver).client object socket hobject
  obtain rfl := Option.some.inj (hendpoint.symm.trans he)
  exact hhandler.symm

/-- A packet that goes back ends at the client socket that began the exchange. -/
theorem Exchanging.back (h : w.Exchanging hosts) {l : LinkId} {frame : Frame} {ends : LinkEnds}
    (hframe : w.network.InFlight l frame) (hends : w.network.ends l = some ends)
    (hback : frame.packet.origin.isForth = false) :
    ∃ ends', w.network.ends frame.packet.origin.socket.link = some ends' ∧
      ends.stop = ends'.start ∧
      frame.packet.header.destPort = frame.packet.origin.socket.selfPort ∧
      frame.packet.header.ts = frame.packet.origin.socket.ts := by
  have hfollows := h.inFlight l frame hframe
  have hway := hfollows.way
  have hport := hfollows.destPort
  have hnot : ¬ frame.packet.origin.isForth = true := by simp [hback]
  rw [Network.Way, if_neg hnot] at hway
  rw [if_neg hnot] at hport
  obtain ⟨ends', hends', hopposite⟩ := hway
  obtain ⟨o, a, b, hmated⟩ := h.mated _ hfollows.created
  obtain ⟨rfl, rfl⟩ := hmated.eq_of_opposite hends' hopposite
  obtain rfl := Option.some.inj (hends.symm.trans hmated.back)
  exact ⟨_, hends', rfl, hport, hfollows.ts⟩

/-- Nothing is sent: the network goes on quietly. -/
theorem Answering.quiet (h : w.Answering) (hrouted : w.Routed)
    (hservers : w'.servers = w.servers) (hquiet : w.network.Quiet w'.network)
    (haccepted : w'.accepted = w.accepted) : w'.Answering := by
  refine ⟨by rw [hservers]; exact h.distinct, fun l frame hframe => ?_,
    fun i server back hserver hback => ?_, fun socket hsent ends hends e he hle => ?_,
    by rw [haccepted]; exact h.accepted⟩
  · exact (h.inFlight l frame (hquiet.inFlight l frame hframe)).mono hquiet.kept
  · rw [hservers] at hserver
    exact (h.held i server back hserver hback).mono hquiet.kept
  · rw [hquiet.ends] at hends
    rw [endpointAt, hservers] at he
    exact h.owned socket (Network.sent_quiet hrouted.carrying hquiet hsent) ends hends e he hle

/-- A step hands on answers, and an answer that goes back is taken by the requester. -/
theorem Answering.step {flightTime : ℕ} (h : w.Answering) (hrouted : w.Routed)
    (hexchanging : w.Exchanging hosts)
    (hw : w.execute (.step flightTime) = .ok w') : w'.Answering := by
  cases stepped_of_execute hw with
  | deadlock => exact h.quiet hrouted rfl (Network.Quiet.refl _) rfl
  | ran hserver hstep =>
    exact h.shrink hrouted hserver rfl (Server.shrinks_step hstep) (Network.Quiet.refl _) rfl
  | skipped hquiet => exact h.quiet hrouted rfl hquiet rfl
  | @answered t net net' l out frame ends type payload hquiet hframe hends hout hadd =>
    have hmid : World.Answering { w with network := net } := h.quiet hrouted rfl hquiet rfl
    have hsent : w.network.Sent frame.packet.origin.socket := h.inFlight l frame hframe
    exact hmid.send rfl rfl rfl hadd (Or.inr (hsent.mono hquiet.kept)) fun socket horigin =>
      absurd horigin (by simp [Replier.reply])
  | @accepted t net l out frame ends server host task hquiet hframe hends hout hserver htask =>
    obtain ⟨endpoint, hendpoint, hts, hhandler, hkind⟩ := Transport.handlePacket_eq_scheduled htask
    refine ⟨?_, ?_, ?_, ?_, ?_⟩
    · have hnames : (w.setServer ends.stop.id { server with
          scheduler := server.scheduler.scheduleAsap (.transport task) t }).servers.map Server.hostName
            = w.servers.map Server.hostName := map_hostName_setServer hserver rfl
      exact hnames ▸ h.distinct
    · exact fun l' frame' hframe' =>
        (h.inFlight l' frame' (hquiet.inFlight l' frame' hframe')).mono hquiet.kept
    · intro j newServer back hnewServer hback
      refine forall_setServer (P := fun _ server => server.Holds back →
          net.Sent back.request.socket)
        (fun j server hserver hback => (h.held j server back hserver hback).mono hquiet.kept)
        (fun hback => ?_) j newServer hnewServer hback
      rcases hback with hback | ⟨scheduled, hscheduled, handler, message, hmessage⟩
      · exact (h.held _ server back hserver (Or.inl hback)).mono hquiet.kept
      · rcases List.mem_cons.mp hscheduled with rfl | hscheduled
        · -- the reply socket of the packet that was accepted
          rcases hkind with ⟨-, hcallback⟩ | ⟨-, hcallback⟩
          · rw [Task.transport.inj hmessage] at hcallback
            exact absurd hcallback (by simp)
          · rw [Task.transport.inj hmessage] at hcallback
            obtain ⟨-, rfl⟩ := Callback.message.inj hcallback
            exact (h.inFlight l frame hframe).mono hquiet.kept
        · exact (h.held _ server back hserver
            (Or.inr ⟨scheduled, hscheduled, handler, message, hmessage⟩)).mono hquiet.kept
    · intro socket hsent ends' hends' e he hle
      have hends' : w.network.ends socket.link = some ends' := (hquiet.ends _).symm.trans hends'
      have hkeep : ∀ port e, ({ server with
          scheduler := server.scheduler.scheduleAsap (.transport task) t } : Server).transport.endpoints
            port = some e → server.transport.endpoints port = some e ∨ False :=
        fun port e he => Or.inl he
      have hold := endpointAt_setServer hserver rfl hkeep _ _ e he
      exact h.owned socket (Network.sent_quiet hrouted.carrying hquiet hsent) ends' hends' e
        (hold.resolve_right id) hle
    · intro a ha hback
      rcases List.mem_append.mp ha with ha | ha
      · exact h.accepted a ha hback
      · rw [List.mem_singleton.mp ha] at hback ⊢
        -- the answer went back to the requester
        obtain ⟨ends', hends', hstop, hport, hts'⟩ := hexchanging.back hframe hends hback
        rw [hport] at hendpoint
        rw [hts'] at hts
        have howned := h.owned _ (h.inFlight l frame hframe) ends' hends' endpoint
          (endpointAt_eq_some.mpr ⟨server, hstop ▸ hserver, hendpoint⟩) hts
        exact hhandler.trans howned

/-- A server opens a socket at an unused port, and nothing is sent. -/
theorem Answering.register (h : w.Answering) (hrouted : w.Routed) {i : ℕ}
    {server server' : Server} {port : Port} {object : ObjectId} (hcurrent : w.current = some i)
    (hserver : w.servers[i]? = some server)
    (hservers : w'.servers = (w.setServer i server').servers)
    (hname : server'.hostName = server.hostName)
    (hendpoints : server'.transport.endpoints
      = Function.update server.transport.endpoints port (some ⟨object, w.stepNumber⟩))
    (hholds : ∀ back, server'.Holds back → server.Holds back) (hunused : PortUnused w port)
    (hnetwork : w'.network = w.network) (haccepted : w'.accepted = w.accepted) : w'.Answering := by
  refine ⟨?_, by rw [hnetwork]; exact h.inFlight, fun j newServer back hnewServer hback => ?_,
    fun socket hsent ends hends e he hle => ?_, by rw [haccepted]; exact h.accepted⟩
  · rw [hservers, map_hostName_setServer hserver hname]
    exact h.distinct
  · rw [hservers] at hnewServer
    rw [hnetwork]
    exact forall_setServer (P := fun _ server => server.Holds back →
        w.network.Sent back.request.socket)
      (fun j server hserver hback => h.held j server back hserver hback)
      (fun hback => h.held i server back hserver (hholds back hback)) j newServer hnewServer hback
  · rw [hnetwork] at hsent hends
    exact owned_of_register h hrouted hcurrent hserver hservers hendpoints hunused hsent hends he hle

/-- **One action keeps the answers for the requester.** -/
theorem Answering.execute {action : Action} (h : w.Answering) (hrouted : w.Routed)
    (hexchanging : w.Exchanging hosts) (hunused : RegistersUnused w action)
    (hw : w.execute action = .ok w') : w'.Answering := by
  cases action with
  | step flightTime => exact h.step hrouted hexchanging hw
  | schedule delay id =>
    obtain ⟨i, server, -, hserver, rfl⟩ := execute_schedule hw
    exact h.shrink hrouted hserver rfl (Server.shrinks_schedule server _ id)
      (Network.Quiet.refl _) rfl
  | connectTo address flightTime =>
    obtain ⟨i, server, socket, transport, net, hcurrent, hserver, hconnect, rfl⟩ :=
      execute_connectTo hw
    obtain ⟨hlink, hhandler, hts, -, hport, hfree, hhost, hendpoints, hnet⟩ :=
      Transport.connectTo_spec hconnect
    obtain ⟨ends', hends', -, -, hname, -⟩ := Network.getLink_eq_ok hrouted.linked hlink
    have hmid : World.Answering { w.setServer i ({ server with transport := transport }.setHandler
        w.nextObject (some (.socket (some socket)))) with
        nextObject := w.nextObject + 1
        created := w.created ++ [socket] } :=
      h.register hrouted hcurrent hserver rfl hhost hendpoints (fun _ hback => hback)
        (hunused i server _ _ hcurrent hserver hport) rfl rfl
    rcases hnet with rfl | hadd
    · exact hmid
    · refine hmid.send rfl rfl rfl hadd (Or.inl rfl) fun socket' horigin ends hends e he _ => ?_
      -- the endpoint of the new socket is its own
      obtain rfl : socket = socket' := Origin.client.inj horigin
      obtain rfl := Option.some.inj (hends.symm.trans hends')
      rw [start_id_eq hrouted h.distinct hends' hserver hname] at he
      obtain ⟨server', hserver', he⟩ := endpointAt_eq_some.mp he
      have hserver' := (getElem?_setServer hserver _).symm.trans hserver'
      obtain rfl := Option.some.inj hserver'
      have he : transport.endpoints socket.selfPort = some e := he
      rw [hendpoints, Function.update_self] at he
      obtain rfl := Option.some.inj he
      exact hhandler.symm
  | serve port =>
    obtain ⟨i, server, transport, hcurrent, hserver, hserve, rfl⟩ := execute_serve hw
    obtain ⟨hfree, hhost, hendpoints⟩ := Transport.serve_spec hserve
    exact h.register hrouted hcurrent hserver rfl hhost hendpoints (fun _ hback => hback) hunused
      rfl rfl
  | close object =>
    obtain ⟨i, server, server', -, hserver, hclose, rfl⟩ := execute_close hw
    exact h.shrink hrouted hserver rfl (Server.shrinks_close hclose) (Network.Quiet.refl _) rfl
  | destroy object =>
    obtain ⟨i, server, server', -, hserver, hclose, rfl⟩ := execute_destroy hw
    exact h.shrink hrouted hserver rfl
      ((Server.shrinks_close hclose).trans (Server.shrinks_drop server' object))
      (Network.Quiet.refl _) rfl
  | send object message flightTime =>
    obtain ⟨i, server, socket, net, -, hserver, hobject, hadd, rfl⟩ := execute_send hw
    refine h.send rfl rfl rfl hadd (Or.inl rfl) fun socket' horigin ends hends e he _ => ?_
    obtain rfl : socket = socket' := Origin.client.inj horigin
    exact owned_of_open h hrouted hserver hobject hends he
  | reply index message flightTime =>
    obtain ⟨i, server, socket, net, -, hserver, hmem, hadd, rfl⟩ := execute_reply hw
    exact h.send rfl rfl rfl hadd (Or.inr (h.held i server socket hserver (Or.inl hmem)))
      fun socket' horigin => absurd horigin (by simp [ReplySocket.makePacket])
  | serverFault target fault =>
    obtain ⟨-, server, server', hserver, hfault, rfl⟩ := execute_serverFault hw
    exact h.shrink hrouted hserver rfl (Server.shrinks_fault hfault) (Network.Quiet.refl _) rfl
  | networkFault fault =>
    obtain ⟨net, hfault, rfl⟩ := execute_networkFault hw
    exact h.quiet hrouted rfl (quiet_fault hfault) rfl
  | restartServer target =>
    obtain ⟨server, server', hserver, hfault, rfl⟩ := execute_restartServer hw
    exact h.shrink hrouted hserver rfl (Server.shrinks_fault hfault) (Network.Quiet.refl _) rfl

/-- A world starts without answers. -/
theorem Started.answering {adversary : Bool} {startTime : ℕ}
    (hstart : (deploy hosts adversary).start startTime = .ok w) (hdistinct : hosts.Nodup) :
    w.Answering := by
  obtain ⟨servers, rfl, hservers⟩ := start_eq_ok hstart
  constructor
  · -- the servers have the names of the hosts
    have hnames : servers.map Server.hostName = hosts := by
      refine List.ext_getElem? fun i => ?_
      rw [List.getElem?_map, hservers, Option.map_map]
      exact Option.map_id'
    rw [hnames]
    exact hdistinct
  · intro l frame hframe
    exact absurd hframe (Network.not_inFlight_buildLinks _ l frame)
  · intro i server back hserver hback
    rw [hservers, Option.map_eq_some_iff] at hserver
    obtain ⟨host, -, rfl⟩ := hserver
    rcases hback with hback | ⟨scheduled, hscheduled, handler, message, htask⟩
    · exact absurd hback List.not_mem_nil
    · obtain rfl := List.mem_singleton.mp hscheduled
      exact absurd htask (by simp)
  · intro socket ⟨frame, hframe, _⟩
    rw [Network.framesLog_buildLinks] at hframe
    exact absurd hframe List.not_mem_nil
  · intro a ha
    exact absurd ha List.not_mem_nil

/-- **Replies reach only the requester**, in every run with distinct host names in which
endpoints are registered at unused ports: an answer that goes back to a client socket, however
many answers came before it, is accepted by the object of the socket. -/
theorem handler_of_accepted_answer {adversary : Bool} {startTime : ℕ} {w₀ : World}
    (hstart : (deploy hosts adversary).start startTime = .ok w₀) (hdistinct : hosts.Nodup)
    (hrun : Runs.Reaches execute RegistersUnused w₀ w) :
    ∀ a ∈ w.accepted, a.packet.origin.isForth = false →
      a.task.handler = a.packet.origin.socket.handler := by
  have hinv : (w.Routed ∧ w.Exchanging hosts) ∧ w.Answering := by
    refine hrun.invariant (I := fun w => (w.Routed ∧ w.Exchanging hosts) ∧ w.Answering)
      ⟨⟨Started.routed ⟨hosts, adversary, startTime, hstart⟩, exchanging_of_start hstart⟩,
        Started.answering hstart hdistinct⟩ ?_
    rintro v action v' ⟨⟨hrouted, hexchanging⟩, hanswering⟩ hunused hv
    exact ⟨⟨hrouted.execute hv, hexchanging.execute hrouted hv⟩,
      hanswering.execute hrouted hexchanging hunused hv⟩
  exact hinv.2.accepted

/-! ## Two short runs -/

/-- Whether an action registers an endpoint. -/
def Action.registers : Action → Bool
  | .serve _ => true
  | .connectTo _ _ => true
  | _ => false

/-- Nothing was sent so far, or no endpoint is registered. -/
def Silent (w : World) (action : Action) : Prop :=
  w.network.framesLog = [] ∨ action.registers = false

instance (w : World) (action : Action) : Decidable (Silent w action) :=
  inferInstanceAs (Decidable (_ ∨ _))

theorem registersUnused_of_silent {action : Action} (h : Silent w action) :
    RegistersUnused w action := by
  have hunused : w.network.framesLog = [] → ∀ port, PortUnused w port := by
    intro hlog port i server _ _ frame hframe
    rw [hlog] at hframe
    exact absurd hframe List.not_mem_nil
  rcases h with hlog | hregisters
  · cases action with
    | serve port => exact hunused hlog port
    | connectTo address flightTime => exact fun _ _ port _ _ _ _ => hunused hlog port
    | _ => trivial
  · cases action with
    | serve port => exact absurd hregisters (by simp [Action.registers])
    | connectTo address flightTime => exact absurd hregisters (by simp [Action.registers])
    | _ => trivial

/-- A client that is observed, as there is an adversary. -/
def observed : World :=
  match (deploy ["Server-1", "Client-1", "Adversary-1"] true).start 0 with
  | .ok w => w
  | .error _ => {}

/-- The client connects and sends a message, and the server replies.  Then the server crashes
between two pings of the client, the second of which answers an answer to the first. -/
def replied : World :=
  (Runs.exec execute Silent observed [.step 0, .serve 42, .step 0, .connectTo ⟨"Server-1", 42⟩ 50,
    .send 1 [7] 5, .step 0, .schedule 70 0, .step 0, .step 0, .reply 0 [8] 5, .step 0, .step 0,
    .step 15, .step 50, .step 0, .serverFault 0 .crash, .step 50, .step 50]).getD {}

/-- The reply to the message and the reset that answers the second ping are both taken by the
socket. -/
theorem handler_of_accepted_answer_replied :
    (∃ a ∈ replied.accepted, a.packet.origin = .answer (.client ⟨1, 3, 1, 42, 2⟩)) ∧
      (∃ a ∈ replied.accepted,
        a.packet.origin = .answer (.answer (.answer (.client ⟨1, 3, 1, 42, 2⟩)))) ∧
      ∀ a ∈ replied.accepted, a.packet.origin.isForth = false →
        a.task.handler = a.packet.origin.socket.handler := by
  have hstart : (deploy ["Server-1", "Client-1", "Adversary-1"] true).start 0 = .ok observed := rfl
  have hrun : Runs.exec execute Silent observed [.step 0, .serve 42, .step 0,
      .connectTo ⟨"Server-1", 42⟩ 50, .send 1 [7] 5, .step 0, .schedule 70 0, .step 0, .step 0,
      .reply 0 [8] 5, .step 0, .step 0, .step 15, .step 50, .step 0, .serverFault 0 .crash,
      .step 50, .step 50] = some replied := rfl
  refine ⟨by decide, by decide, handler_of_accepted_answer hstart (by decide) ?_⟩
  exact (Runs.reaches_of_exec hrun).mono fun _ _ => registersUnused_of_silent

/-- In one step the client connects, sends a message, closes its socket and serves the port
of that socket.  Nobody serves the port it sent to, so a reset comes back. -/
def reopened : World :=
  (Runs.exec execute anyAction started [.step 0, .step 0, .connectTo ⟨"Server-1", 42⟩ 5,
    .send 0 [7] 5, .close 0, .serve 1, .step 5, .step 0]).getD {}

/-- The reset is taken by the endpoint that took over the port. -/
theorem not_handler_of_accepted_answer_reopened :
    ¬ ∀ (hosts : List HostName) (adversary : Bool) (startTime : ℕ) (w₀ w : World),
      (deploy hosts adversary).start startTime = .ok w₀ → hosts.Nodup →
        Runs.Reaches execute anyAction w₀ w → ∀ a ∈ w.accepted, ∀ socket,
          a.packet.origin = .answer (.client socket) → a.task.handler = socket.handler := by
  intro h
  have hrun : Runs.exec execute anyAction started [.step 0, .step 0,
      .connectTo ⟨"Server-1", 42⟩ 5, .send 0 [7] 5, .close 0, .serve 1, .step 5, .step 0]
        = some reopened := rfl
  have hall := h ["Server-1", "Client-1"] false 0 started reopened rfl (by decide)
    (Runs.reaches_of_exec hrun)
  have hreset : ∃ a ∈ reopened.accepted,
      a.packet.origin = .answer (.client ⟨0, 2, 1, 42, 2⟩) ∧ a.task.handler = 1 := by
    decide
  obtain ⟨a, ha, horigin, hhandler⟩ := hreset
  have hsame := hall a ha _ horigin
  rw [hhandler] at hsame
  exact absurd hsame (by decide)

end World

end Whirl
