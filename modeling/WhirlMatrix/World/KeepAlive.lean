/-
# Crash detection never stalls

With an adversary in the world, every connection starts a ping that its two hosts send
to and fro.  As long as the endpoint of the client is registered and no reset was
accepted for it, that ping, or the reset that it has become, is under way.  Servers
find each other by host name, so this needs distinct host names.
-/
import WhirlMatrix.Network.Delivered
import WhirlMatrix.Network.FrameLog
import WhirlMatrix.World.Replies

namespace Whirl

open Net

namespace Net

/-! ## What a transport does with pings -/

namespace Transport

variable {transport : Transport} {packet : Packet}

/-- A ping for an endpoint that is unknown, or newer than the ping, is answered with a reset. -/
theorem handlePacket_refused (htype : packet.header.type = .ping)
    (hrefused : ∀ e, transport.endpoints packet.header.destPort = some e →
      packet.header.ts < e.ts) (out : LinkId) (fromHost : HostName) :
    transport.handlePacket packet out fromHost = .replied (Replier.reset packet) := by
  rw [handlePacket]
  cases he : transport.endpoints packet.header.destPort with
  | none => exact if_pos (by rw [htype]; decide)
  | some e => exact if_pos (hrefused e he)

/-- Every ping is answered, with a ping or a reset. -/
theorem handlePacket_ping (transport : Transport) (htype : packet.header.type = .ping) :
    ∃ type payload, (type = .ping ∨ type = .reset) ∧ ∀ out fromHost,
      transport.handlePacket packet out fromHost
        = .replied (Replier.reply packet type payload) := by
  by_cases hrefused : ∀ e, transport.endpoints packet.header.destPort = some e →
      packet.header.ts < e.ts
  · exact ⟨.reset, resetMessage, Or.inr rfl, handlePacket_refused htype hrefused⟩
  · simp only [not_forall] at hrefused
    obtain ⟨e, he, hts⟩ := hrefused
    refine ⟨.ping, pingMessage, Or.inl rfl, fun out fromHost => ?_⟩
    rw [handlePacket, he]
    dsimp only
    rw [if_neg hts, htype]
    rfl

/-- An endpoint with the timestamp of the packet answers a ping, and takes a reset. -/
theorem handlePacket_of_endpoint {e : Endpoint} (out : LinkId) (fromHost : HostName)
    (he : transport.endpoints packet.header.destPort = some e) (hts : packet.header.ts = e.ts) :
    (packet.header.type = .ping →
      transport.handlePacket packet out fromHost = .replied (Replier.ping packet)) ∧
    (packet.header.type = .reset →
      transport.handlePacket packet out fromHost = .scheduled ⟨e.handler, .disconnect fromHost⟩) := by
  have hcurrent : ¬ packet.header.ts < e.ts := by
    rw [hts]
    exact Nat.lt_irrefl _
  constructor <;> intro htype <;> rw [handlePacket, he] <;> dsimp only <;>
    rw [if_neg hcurrent, htype]

/-- With an adversary, `ConnectTo` sends a ping. -/
theorem connectTo_adversary {transport' : Transport} {net net' : Network} {address : Address}
    {handler : ObjectId} {step now flightTime : ℕ} {socket : ClientSocket}
    (h : transport.connectTo net address handler step now true flightTime
      = .ok (socket, transport', net')) :
    net.add socket.link (connectPing socket) now flightTime = .ok net' := by
  obtain ⟨link, hlink, h⟩ := Outcome.bind_eq_ok.mp h
  obtain ⟨⟨port, nextPort⟩, hport, h⟩ := Outcome.bind_eq_ok.mp h
  dsimp only at h
  rw [if_pos rfl] at h
  obtain ⟨net'', hadd, h⟩ := Outcome.bind_eq_ok.mp h
  simp only [Outcome.pure_eq_ok, Prod.mk.injEq] at h
  obtain ⟨rfl, -, rfl⟩ := h
  exact hadd

end Transport

/-! ## The token of a connection -/

/-- The header of a keep-alive packet on the way to the server. -/
def ClientSocket.headerThere (socket : ClientSocket) (type : PacketType) : PacketHeader :=
  ⟨type, socket.selfPort, socket.serverPort, socket.ts⟩

/-- The header of a keep-alive packet on the way back. -/
def ClientSocket.headerBack (socket : ClientSocket) (type : PacketType) : PacketHeader :=
  ⟨type, socket.serverPort, socket.selfPort, socket.ts⟩

/-- An answer to a keep-alive packet is one on the way back. -/
theorem header_reply_there {socket : ClientSocket} {packet : Packet} {type : PacketType}
    (h : packet.header = socket.headerThere type) (type' : PacketType) (payload : Message) :
    (Replier.reply packet type' payload).header = socket.headerBack type' := by
  rw [Replier.reply, h]
  rfl

/-- An answer to a keep-alive packet on the way back goes there again. -/
theorem header_reply_back {socket : ClientSocket} {packet : Packet} {type : PacketType}
    (h : packet.header = socket.headerBack type) (type' : PacketType) (payload : Message) :
    (Replier.reply packet type' payload).header = socket.headerThere type' := by
  rw [Replier.reply, h]
  rfl

namespace Network

/-- A ping is under way on the link of the socket, or a ping or a reset on the opposite
link, with the ports and the timestamp of the socket. -/
def HasToken (net : Network) (socket : ClientSocket) : Prop :=
  (∃ frame, net.InFlight socket.link frame ∧ frame.packet.header = socket.headerThere .ping) ∨
    ∃ ends o frame type, net.ends socket.link = some ends ∧ ends.opposite = some o ∧
      net.InFlight o frame ∧ (type = .ping ∨ type = .reset) ∧
      frame.packet.header = socket.headerBack type

variable {net net' : Network} {socket : ClientSocket}

theorem HasToken.keeps (h : net.HasToken socket) (hkeeps : net.Keeps net') :
    net'.HasToken socket := by
  rcases h with ⟨frame, hframe, hheader⟩ | ⟨ends, o, frame, type, hends, ho, hframe, hrest⟩
  · exact Or.inl ⟨frame, hkeeps.inFlight _ frame hframe, hheader⟩
  · exact Or.inr ⟨ends, o, frame, type, by rw [hkeeps.ends, hends], ho,
      hkeeps.inFlight o frame hframe, hrest⟩

/-- The frame of a token, on one of the two links of the socket. -/
theorem HasToken.exists_frame {o : LinkId} {a b : IServer} (h : net.HasToken socket)
    (hmated : net.Mated socket.link o a b) :
    ∃ l frame ends, net.InFlight l frame ∧ net.ends l = some ends ∧
      ((l = socket.link ∧ frame.packet.header = socket.headerThere .ping) ∨
        (l = o ∧ ∃ type, (type = .ping ∨ type = .reset) ∧
          frame.packet.header = socket.headerBack type)) := by
  rcases h with ⟨frame, hframe, hheader⟩ | ⟨ends, o', frame, type, hends, ho, hframe, hrest⟩
  · exact ⟨_, frame, _, hframe, hmated.there, Or.inl ⟨rfl, hheader⟩⟩
  · obtain ⟨rfl, rfl⟩ := hmated.eq_of_opposite hends ho
    exact ⟨_, frame, _, hframe, hmated.back, Or.inr ⟨rfl, type, hrest⟩⟩

/-- A frame that is on its way is a token again. -/
theorem Mated.hasToken {o : LinkId} {a b : IServer}
    (hmated : net.Mated socket.link o a b) {l : LinkId} {frame : Frame}
    (hframe : net.InFlight l frame)
    (htoken : (l = socket.link ∧ frame.packet.header = socket.headerThere .ping) ∨
      (l = o ∧ ∃ type, (type = .ping ∨ type = .reset) ∧
        frame.packet.header = socket.headerBack type)) : net.HasToken socket := by
  rcases htoken with ⟨rfl, hheader⟩ | ⟨rfl, type, htype, hheader⟩
  · exact Or.inl ⟨frame, hframe, hheader⟩
  · exact Or.inr ⟨_, _, frame, type, hmated.there, rfl, hframe, htype, hheader⟩

end Network

end Net

namespace World

/-! ## The property -/

/-- The endpoint of the socket is registered on the server with index `i`. -/
def RegisteredAt (w : World) (socket : ClientSocket) (i : ℕ) : Prop :=
  w.endpointAt i socket.selfPort = some ⟨socket.handler, socket.ts⟩

/-- The server with index `i` has accepted a reset for the socket. -/
def ResetAt (w : World) (socket : ClientSocket) (i : ℕ) : Prop :=
  ∃ a ∈ w.accepted, a.server = i ∧ a.packet.header.type = .reset ∧
    a.task.handler = socket.handler

/-- A client socket that is registered and was not reset has its token under way. -/
def KeepsAlive (w : World) : Prop :=
  ∀ i, ∀ socket ∈ w.created, w.RegisteredAt socket i → ¬ w.ResetAt socket i →
    w.network.HasToken socket

/-- A step sends at most one packet. -/
def SendsAtMostOne (w : World) : Prop :=
  ∀ flightTime w', w.execute (.step flightTime) = .ok w' →
    w'.network.framesLog = w.network.framesLog ∨
      ∃ frame, w'.network.framesLog = w.network.framesLog ++ [frame]

variable {w w' : World}

/-! ## Steps of the network -/

/-- A step runs a server, or it is one of the network, at a later time. -/
theorem stepNetwork_of_execute {flightTime : ℕ} (h : w.execute (.step flightTime) = .ok w') :
    (w'.network = w.network ∧ w'.accepted = w.accepted) ∨
      ∃ time, World.stepNetwork { w with stepNumber := w.stepNumber + 1, time := time } flightTime
        = .ok w' := by
  obtain ⟨next, -, h⟩ := Outcome.bind_eq_ok.mp h
  cases next with
  | none =>
    obtain rfl := Outcome.pure_eq_ok.mp h
    exact Or.inl ⟨rfl, rfl⟩
  | some next =>
    obtain ⟨time, -, h⟩ := Outcome.bind_eq_ok.mp h
    dsimp only at h
    split at h
    · obtain ⟨⟨task, server'⟩, -, h⟩ := Outcome.bind_eq_ok.mp h
      obtain rfl := Outcome.pure_eq_ok.mp h
      exact Or.inl ⟨rfl, rfl⟩
    · exact Or.inr ⟨time, h⟩

/-- The receiver answers. -/
theorem handlePacket_of_replied {delivery : Delivery} {flightTime : ℕ} {server : Server}
    {out : LinkId} {reply : Packet} (hserver : w.servers[delivery.receiver.id]? = some server)
    (hout : delivery.out = some out)
    (hreply : ∀ host, server.transport.handlePacket delivery.packet out host = .replied reply)
    (h : w.handlePacket delivery flightTime = .ok w') :
    ∃ net, w.network.add out reply w.time.now flightTime = .ok net ∧
      w' = { w with network := net } := by
  unfold handlePacket at h
  rw [hserver, hout] at h
  dsimp only at h
  split at h
  · exact absurd h (by simp)
  · rw [hreply] at h
    obtain ⟨net, hadd, h⟩ := Outcome.bind_eq_ok.mp h
    exact ⟨net, hadd, (Outcome.pure_eq_ok.mp h).symm⟩

/-- The receiver schedules a task. -/
theorem accepted_of_scheduled {delivery : Delivery} {flightTime : ℕ} {server : Server}
    {out : LinkId} {handler : ObjectId}
    (hserver : w.servers[delivery.receiver.id]? = some server) (hout : delivery.out = some out)
    (htask : ∀ host, server.transport.handlePacket delivery.packet out host
      = .scheduled ⟨handler, .disconnect host⟩)
    (h : w.handlePacket delivery flightTime = .ok w') :
    ∃ a ∈ w'.accepted, a.server = delivery.receiver.id ∧ a.packet = delivery.packet ∧
      a.task.handler = handler := by
  unfold handlePacket at h
  rw [hserver, hout] at h
  dsimp only at h
  split at h
  · exact absurd h (by simp)
  · rw [htask] at h
    obtain rfl := Except.ok.inj h
    exact ⟨_, List.mem_append_right _ (List.mem_singleton.mpr rfl), rfl, rfl, rfl⟩

/-- Handling a packet loses nothing that is under way. -/
theorem keeps_handlePacket {delivery : Delivery} {flightTime : ℕ}
    (h : w.handlePacket delivery flightTime = .ok w') : w.network.Keeps w'.network := by
  obtain ⟨server, out, ends, -, -, -, rfl | ⟨type, payload, net, hadd, rfl⟩ | ⟨task, -, rfl⟩⟩ :=
    handlePacket_eq_ok h
  · exact Network.Keeps.refl _
  · exact (Network.keeps_add hadd).1
  · exact Network.Keeps.refl _

/-- The endpoint of a socket answers a ping that comes back, and takes a reset. -/
theorem RegisteredAt.handlePacket {socket : ClientSocket} {i : ℕ} {server : Server}
    {packet : Packet} {type : PacketType} (h : w.RegisteredAt socket i)
    (hserver : w.servers[i]? = some server) (hheader : packet.header = socket.headerBack type)
    (out : LinkId) (host : HostName) :
    (type = .ping → server.transport.handlePacket packet out host
      = .replied (Replier.ping packet)) ∧
    (type = .reset → server.transport.handlePacket packet out host
      = .scheduled ⟨socket.handler, .disconnect host⟩) := by
  obtain ⟨server', hserver', hendpoint⟩ := endpointAt_eq_some.mp h
  obtain rfl := Option.some.inj (hserver.symm.trans hserver')
  have hport : packet.header.destPort = socket.selfPort := by rw [hheader]; rfl
  have hts : packet.header.ts = socket.ts := by rw [hheader]; rfl
  have htype : packet.header.type = type := by rw [hheader]; rfl
  rw [← hport] at hendpoint
  rw [← htype]
  exact Transport.handlePacket_of_endpoint out host hendpoint hts

/-- **The token is passed on.**  When the token of a registered socket is delivered, it is
answered by the next token, or it is a reset that is accepted for the socket. -/
theorem hasToken_of_handlePacket {socket : ClientSocket} {o : LinkId} {a b : IServer}
    {l : LinkId} {frame : Frame} {flightTime : ℕ} (hmated : w.network.Mated socket.link o a b)
    (hregistered : w.RegisteredAt socket a.id)
    (htoken : (l = socket.link ∧ frame.packet.header = socket.headerThere .ping) ∨
      (l = o ∧ ∃ type, (type = .ping ∨ type = .reset) ∧
        frame.packet.header = socket.headerBack type))
    {ends : LinkEnds} (hends : w.network.ends l = some ends)
    (hw : w.handlePacket ⟨frame.packet, ends.stop, ends.opposite⟩ flightTime = .ok w') :
    w'.network.HasToken socket ∨ w'.ResetAt socket a.id := by
  obtain ⟨server, out, -, hserver, hout, -, -⟩ := handlePacket_eq_ok hw
  rcases htoken with ⟨rfl, hheader⟩ | ⟨rfl, type, htype, hheader⟩
  · -- the server answers the ping of the client
    left
    obtain rfl := Option.some.inj (hends.symm.trans hmated.there)
    obtain rfl := Option.some.inj hout
    have hping : frame.packet.header.type = .ping := by rw [hheader]; rfl
    obtain ⟨type, payload, htype, hreply⟩ := Transport.handlePacket_ping server.transport hping
    obtain ⟨net, hadd, rfl⟩ := handlePacket_of_replied hserver rfl (hreply o) hw
    obtain ⟨hkeeps, frame', hframe', hinFlight⟩ := Network.keeps_add hadd
    refine Or.inr ⟨⟨a, b, some o⟩, o, frame', type, ?_, rfl, hinFlight, htype, ?_⟩
    · rw [hkeeps.ends, hmated.there]
    · rw [hframe', header_reply_there hheader]
  · -- the client answers a ping, and takes a reset
    obtain rfl := Option.some.inj (hends.symm.trans hmated.back)
    obtain rfl := Option.some.inj hout
    have hown := hregistered.handlePacket hserver hheader socket.link
    rcases htype with rfl | rfl
    · left
      obtain ⟨net, hadd, rfl⟩ :=
        handlePacket_of_replied hserver rfl (fun host => (hown host).1 rfl) hw
      obtain ⟨-, frame', hframe', hinFlight⟩ := Network.keeps_add hadd
      refine Or.inl ⟨frame', hinFlight, ?_⟩
      rw [hframe', Replier.ping, header_reply_back hheader]
    · right
      obtain ⟨a', ha', hat, hpacket, hhandler⟩ :=
        accepted_of_scheduled hserver rfl (fun host => (hown host).2 rfl) hw
      exact ⟨a', ha', hat, by rw [hpacket, hheader]; rfl, hhandler⟩

/-- A step passes the token on, or has the reset accepted. -/
theorem hasToken_of_step {socket : ClientSocket} {o : LinkId} {a b : IServer} {flightTime : ℕ}
    (hmated : w.network.Mated socket.link o a b) (hregistered : w.RegisteredAt socket a.id)
    (h : w.network.HasToken socket) (hw : w.execute (.step flightTime) = .ok w') :
    w'.network.HasToken socket ∨ w'.ResetAt socket a.id := by
  rcases stepNetwork_of_execute hw with ⟨hnetwork, -⟩ | ⟨time, hstep⟩
  · left
    rwa [hnetwork]
  obtain ⟨⟨net, delivery⟩, hnet, hstep⟩ := Outcome.bind_eq_ok.mp hstep
  have hends := (Network.quiet_step hnet).1.ends
  have hmated' := hmated.congr hends
  obtain ⟨l, frame, ends, hframe, hends', htoken⟩ := h.exists_frame hmated
  rcases Network.delivered_of_step hnet hframe with hframe' | ⟨ends'', hends'', rfl⟩
  · -- another frame is delivered, or none
    have hkept := hmated'.hasToken hframe' htoken
    left
    cases delivery with
    | none =>
      obtain rfl := Outcome.pure_eq_ok.mp hstep
      exact hkept
    | some d => exact hkept.keeps (keeps_handlePacket hstep)
  · have hends₁ : net.ends l = some ends'' := (hends l).trans hends''
    have hregistered₁ : World.RegisteredAt { w with
        stepNumber := w.stepNumber + 1, time := time, network := net, current := none }
          socket a.id := hregistered
    exact hasToken_of_handlePacket hmated' hregistered₁ htoken hends₁ hstep

/-- A step sends at most the answer to the packet that it delivers. -/
theorem sendsAtMostOne (w : World) : w.SendsAtMostOne := by
  intro flightTime w' hw
  rcases stepNetwork_of_execute hw with ⟨hnetwork, -⟩ | ⟨time, hstep⟩
  · left
    rw [hnetwork]
  obtain ⟨⟨net, delivery⟩, hnet, hstep⟩ := Outcome.bind_eq_ok.mp hstep
  have hlog := Network.framesLog_step hnet
  cases delivery with
  | none =>
    obtain rfl := Outcome.pure_eq_ok.mp hstep
    exact Or.inl hlog
  | some d =>
    obtain ⟨_, out, _, -, -, -, rfl | ⟨type, payload, net', hadd, rfl⟩ | ⟨task, -, rfl⟩⟩ :=
      handlePacket_eq_ok hstep
    · exact Or.inl hlog
    · obtain ⟨frame, -, -, -, -, -, hsent⟩ := Network.add_spec hadd
      refine Or.inr ⟨frame, hsent.trans ?_⟩
      rw [← hlog]
    · exact Or.inl hlog

/-! ## Every run -/

/-- All that a connection needs to stay under observation. -/
structure Observed (w : World) : Prop where
  adversary : w.adversary = true
  distinct : (w.network.servers.map IServer.hostName).Nodup
  paired : w.network.Paired
  /-- A client socket is older than the next object. -/
  older : ∀ socket ∈ w.created, socket.handler < w.nextObject
  /-- Its link has an opposite. -/
  mated : ∀ socket ∈ w.created, ∃ o a b, w.network.Mated socket.link o a b
  /-- The link leads from the server on which it is registered. -/
  home : ∀ i, ∀ socket ∈ w.created, w.RegisteredAt socket i →
    ∃ ends, w.network.ends socket.link = some ends ∧ ends.start.id = i
  alive : w.KeepsAlive

/-- An action that makes no client socket keeps all connections under observation, when it
passes their tokens on. -/
theorem Observed.pass (h : w.Observed) (hadversary : w'.adversary = w.adversary)
    (hservers : w'.network.servers = w.network.servers)
    (hends : ∀ l, w'.network.ends l = w.network.ends l) (hcreated : w'.created = w.created)
    (hnext : w.nextObject ≤ w'.nextObject)
    (hregistered : ∀ i, ∀ socket ∈ w.created, w'.RegisteredAt socket i → w.RegisteredAt socket i)
    (haccepted : ∀ a ∈ w.accepted, a ∈ w'.accepted)
    (htoken : ∀ socket o a b, w.network.Mated socket.link o a b → w.RegisteredAt socket a.id →
      w.network.HasToken socket → w'.network.HasToken socket ∨ w'.ResetAt socket a.id) :
    w'.Observed where
  adversary := hadversary.trans h.adversary
  distinct := by
    rw [hservers]
    exact h.distinct
  paired i j a b ha hb := by
    rw [hservers] at ha hb
    rw [Network.getLinkIndex, Network.getLinkIndex, hservers]
    exact (h.paired i j a b ha hb).congr hends
  older socket hsocket := by
    rw [hcreated] at hsocket
    exact Nat.lt_of_lt_of_le (h.older socket hsocket) hnext
  mated socket hsocket := by
    rw [hcreated] at hsocket
    obtain ⟨o, a, b, hmated⟩ := h.mated socket hsocket
    exact ⟨o, a, b, hmated.congr hends⟩
  home i socket hsocket hreg := by
    rw [hcreated] at hsocket
    obtain ⟨ends, hlink, hid⟩ := h.home i socket hsocket (hregistered i socket hsocket hreg)
    exact ⟨ends, (hends _).trans hlink, hid⟩
  alive i socket hsocket hreg hreset := by
    rw [hcreated] at hsocket
    have hold := hregistered i socket hsocket hreg
    obtain ⟨o, a, b, hmated⟩ := h.mated socket hsocket
    obtain ⟨ends, hlink, rfl⟩ := h.home i socket hsocket hold
    obtain rfl := Option.some.inj (hlink.symm.trans hmated.there)
    have htok : w.network.HasToken socket := by
      refine h.alive _ socket hsocket hold ?_
      rintro ⟨a', ha', hrest⟩
      exact hreset ⟨a', haccepted a' ha', hrest⟩
    exact (htoken socket o a b hmated hold htok).resolve_right hreset

/-- An action that loses nothing and makes no client socket. -/
theorem Observed.keeps (h : w.Observed) (hadversary : w'.adversary = w.adversary)
    (hkeeps : w.network.Keeps w'.network) (hcreated : w'.created = w.created)
    (hnext : w.nextObject ≤ w'.nextObject)
    (hregistered : ∀ i, ∀ socket ∈ w.created, w'.RegisteredAt socket i → w.RegisteredAt socket i)
    (haccepted : w'.accepted = w.accepted) : w'.Observed :=
  h.pass hadversary hkeeps.servers hkeeps.ends hcreated hnext hregistered
    (fun a ha => by rwa [haccepted]) fun _ _ _ _ _ _ htoken => Or.inl (htoken.keeps hkeeps)

/-- A server gets a new value without new endpoints: the registered sockets were
registered before. -/
theorem registeredAt_of_setServer {i : ℕ} {server server' : Server} {socket : ClientSocket}
    (hserver : w.servers[i]? = some server)
    (hservers : w'.servers = (w.setServer i server').servers)
    (hendpoints : ∀ port e, server'.transport.endpoints port = some e →
      server.transport.endpoints port = some e ∨ e.handler = w.nextObject)
    (holder : socket.handler < w.nextObject) (j : ℕ) (h : w'.RegisteredAt socket j) :
    w.RegisteredAt socket j := by
  rcases endpointAt_setServer hserver hservers hendpoints j _ _ h with hold | hnew
  · exact hold
  · exact absurd hnew (Nat.ne_of_lt holder)

/-- A fault of the network loses nothing. -/
theorem keeps_fault {net net' : Network} {now : ℕ} {fault : NetworkFault}
    (h : net.fault now fault = .ok net') : net.Keeps net' := by
  cases fault with
  | pauseLink start stop => exact Network.keeps_pauseLink h
  | resumeLink start stop => exact Network.keeps_resumeLink h
  | split lhs => exact Network.keeps_split h
  | heal => exact Network.keeps_heal h

/-- A step keeps all connections under observation. -/
theorem Observed.step {flightTime : ℕ} (h : w.Observed)
    (hw : w.execute (.step flightTime) = .ok w') : w'.Observed := by
  have htoken : ∀ socket o a b, w.network.Mated socket.link o a b → w.RegisteredAt socket a.id →
      w.network.HasToken socket → w'.network.HasToken socket ∨ w'.ResetAt socket a.id :=
    fun socket o a b hmated hregistered htok => hasToken_of_step hmated hregistered htok hw
  have hregistered : ∀ i, ∀ socket ∈ w.created, w'.RegisteredAt socket i →
      w.RegisteredAt socket i := fun i socket _ hreg =>
    (turnFrame_of_execute rfl hw).1.endpoints i _ _ hreg
  cases stepped_of_execute hw with
  | deadlock =>
    exact h.pass rfl rfl (fun _ => rfl) rfl (Nat.le_refl _) hregistered (fun _ ha => ha) htoken
  | ran hserver hstep =>
    exact h.pass rfl rfl (fun _ => rfl) rfl (Nat.le_refl _) hregistered (fun _ ha => ha) htoken
  | skipped hquiet =>
    exact h.pass rfl hquiet.servers hquiet.ends rfl (Nat.le_refl _) hregistered (fun _ ha => ha)
      htoken
  | answered hquiet _ _ _ hadd =>
    have hkeeps := (Network.keeps_add hadd).1
    exact h.pass rfl (hkeeps.servers.trans hquiet.servers)
      (fun l => (hkeeps.ends l).trans (hquiet.ends l)) rfl (Nat.le_refl _) hregistered
      (fun _ ha => ha) htoken
  | accepted hquiet _ _ _ hserver _ =>
    exact h.pass rfl hquiet.servers hquiet.ends rfl (Nat.le_refl _) hregistered
      (fun a ha => List.mem_append_left _ ha) htoken

/-- With distinct host names, the server with the name of a host is known by its index. -/
theorem Routed.id_eq (h : w.Routed) (hdistinct : (w.network.servers.map IServer.hostName).Nodup)
    {i j : ℕ} {a : IServer} {server : Server} (ha : w.network.servers[j]? = some a)
    (hserver : w.servers[i]? = some server) (hname : a.hostName = server.hostName) : a.id = i := by
  have hi : w.network.servers[i]? = some ⟨i, server.hostName⟩ := by
    rw [h.hosts, hserver]
    rfl
  obtain rfl : j = i := index_eq_of_nodup_map hdistinct ha hi hname
  obtain rfl := Option.some.inj (hi.symm.trans ha)
  rfl

/-- The first ping of a connection is its first token. -/
theorem Observed.connectTo {address : Address} {flightTime : ℕ} (h : w.Observed)
    (hrouted : w.Routed) (hw : w.execute (.connectTo address flightTime) = .ok w') :
    w'.Observed := by
  obtain ⟨i, server, socket, transport, net, -, hserver, hconnect, rfl⟩ := execute_connectTo hw
  rw [h.adversary] at hconnect
  obtain ⟨hlink, hhandler, -, -, -, -, -, hendpoints, -⟩ := Transport.connectTo_spec hconnect
  obtain ⟨hkeeps, frame, hframe, hinFlight⟩ :=
    Network.keeps_add (Transport.connectTo_adversary hconnect)
  obtain ⟨j, k, a, b, ha, hb, hname, -, hindex⟩ := Network.exists_of_getLink hlink
  have hmated : w.network.Mated socket.link (w.network.getLinkIndex k j) a b := by
    rw [hindex]
    exact h.paired j k a b ha hb
  have hold : ∀ m, ∀ socket' ∈ w.created, World.RegisteredAt { w.setServer i
      ({ server with transport := transport }.setHandler w.nextObject
        (some (.socket (some socket)))) with
      network := net
      nextObject := w.nextObject + 1
      created := w.created ++ [socket] } socket' m → w.RegisteredAt socket' m := by
    intro m socket' hsocket' hreg
    refine registeredAt_of_setServer hserver rfl (fun port e he => ?_) (h.older socket' hsocket')
      m hreg
    have he : transport.endpoints port = some e := he
    rw [hendpoints] at he
    exact (endpoints_update he).imp_right fun hnew => by rw [hnew]
  refine ⟨h.adversary, by rw [hkeeps.servers]; exact h.distinct, hkeeps.paired h.paired,
    fun socket' hsocket' => ?_, fun socket' hsocket' => ?_, fun m socket' hsocket' hreg => ?_,
    fun m socket' hsocket' hreg hreset => ?_⟩
  · rcases List.mem_append.mp hsocket' with hsocket' | hsocket'
    · exact Nat.lt_succ_of_lt (h.older socket' hsocket')
    · rw [List.mem_singleton.mp hsocket', hhandler]
      exact Nat.lt_succ_self _
  · rcases List.mem_append.mp hsocket' with hsocket' | hsocket'
    · obtain ⟨o, c, d, hmated'⟩ := h.mated socket' hsocket'
      exact ⟨o, c, d, hmated'.congr hkeeps.ends⟩
    · rw [List.mem_singleton.mp hsocket']
      exact ⟨_, a, b, hmated.congr hkeeps.ends⟩
  · rcases List.mem_append.mp hsocket' with hsocket' | hsocket'
    · obtain ⟨ends, hends, hid⟩ := h.home m socket' hsocket' (hold m socket' hsocket' hreg)
      exact ⟨ends, (hkeeps.ends _).trans hends, hid⟩
    · rw [List.mem_singleton.mp hsocket'] at hreg ⊢
      refine ⟨_, (hkeeps.ends _).trans hmated.there, ?_⟩
      -- only the server of the current step has an endpoint of the new object
      have hm : i = m := by
        by_contra hne
        obtain ⟨other, hother, he⟩ := endpointAt_eq_some.mp hreg
        have hother : w.servers[m]? = some other := by
          rwa [← getElem?_setServer_ne w hne]
        rw [hhandler] at he
        obtain ⟨_, hobject, -⟩ := (hrouted.booked m other hother).owned _ _ he
        exact absurd ((hrouted.booked m other hother).fresh _ _ hobject) (Nat.lt_irrefl _)
      rw [← hm]
      exact hrouted.id_eq h.distinct ha hserver hname
  · rcases List.mem_append.mp hsocket' with hsocket' | hsocket'
    · refine (h.alive m socket' hsocket' (hold m socket' hsocket' hreg) hreset).keeps hkeeps
    · rw [List.mem_singleton.mp hsocket']
      refine Or.inl ⟨frame, hinFlight, ?_⟩
      rw [hframe]
      rfl

/-- **One action keeps all connections under observation.** -/
theorem Observed.execute {action : Action} (h : w.Observed) (hrouted : w.Routed)
    (hw : w.execute action = .ok w') : w'.Observed := by
  -- a server whose endpoints only become fewer
  have hshrink : ∀ {v : World} {i : ℕ} {server server' : Server}, w.servers[i]? = some server →
      v.servers = (w.setServer i server').servers →
      (∀ port e, server'.transport.endpoints port = some e →
        server.transport.endpoints port = some e) →
      ∀ j, ∀ socket ∈ w.created, v.RegisteredAt socket j → w.RegisteredAt socket j := by
    intro v i server server' hserver hservers hendpoints j socket hsocket
    exact registeredAt_of_setServer hserver hservers (fun port e he => Or.inl (hendpoints port e he))
      (h.older socket hsocket) j
  cases action with
  | step flightTime => exact h.step hw
  | schedule delay id =>
    obtain ⟨i, server, -, hserver, rfl⟩ := execute_schedule hw
    exact h.keeps rfl (Network.Keeps.refl _) rfl (Nat.le_refl _)
      (hshrink hserver rfl fun _ _ he => he) rfl
  | connectTo address flightTime => exact h.connectTo hrouted hw
  | serve port =>
    obtain ⟨i, server, transport, -, hserver, hserve, rfl⟩ := execute_serve hw
    obtain ⟨-, -, hendpoints⟩ := Transport.serve_spec hserve
    refine h.keeps rfl (Network.Keeps.refl _) rfl (Nat.le_succ _) (fun j socket hsocket => ?_) rfl
    refine registeredAt_of_setServer hserver rfl (fun port' e he => ?_) (h.older socket hsocket) j
    have he : transport.endpoints port' = some e := he
    rw [hendpoints] at he
    exact (endpoints_update he).imp_right fun hnew => by rw [hnew]
  | close object =>
    obtain ⟨i, server, server', -, hserver, hclose, rfl⟩ := execute_close hw
    exact h.keeps rfl (Network.Keeps.refl _) rfl (Nat.le_refl _)
      (hshrink hserver rfl (Server.sameShell_close hclose).endpoints) rfl
  | destroy object =>
    obtain ⟨i, server, server', -, hserver, hclose, rfl⟩ := execute_destroy hw
    exact h.keeps rfl (Network.Keeps.refl _) rfl (Nat.le_refl _)
      (hshrink hserver rfl (Server.sameShell_close hclose).endpoints) rfl
  | send object message flightTime =>
    obtain ⟨_, _, _, net, -, -, -, hadd, rfl⟩ := execute_send hw
    exact h.keeps rfl (Network.keeps_add hadd).1 rfl (Nat.le_refl _) (fun _ _ _ hreg => hreg) rfl
  | reply index message flightTime =>
    obtain ⟨_, _, _, net, -, -, -, hadd, rfl⟩ := execute_reply hw
    exact h.keeps rfl (Network.keeps_add hadd).1 rfl (Nat.le_refl _) (fun _ _ _ hreg => hreg) rfl
  | serverFault target fault =>
    obtain ⟨-, server, server', hserver, hfault, rfl⟩ := execute_serverFault hw
    exact h.keeps rfl (Network.Keeps.refl _) rfl (Nat.le_refl _)
      (hshrink hserver rfl (endpoints_of_fault hfault)) rfl
  | networkFault fault =>
    obtain ⟨net, hfault, rfl⟩ := execute_networkFault hw
    exact h.keeps rfl (keeps_fault hfault) rfl (Nat.le_refl _) (fun _ _ _ hreg => hreg) rfl
  | restartServer target =>
    obtain ⟨server, server', hserver, hfault, rfl⟩ := execute_restartServer hw
    exact h.keeps rfl (Network.Keeps.refl _) rfl (Nat.le_refl _)
      (hshrink hserver rfl (endpoints_of_fault hfault)) rfl

/-- A world with an adversary and distinct host names starts without connections. -/
theorem Started.observed {hosts : List HostName} {startTime : ℕ}
    (hstart : (deploy hosts true).start startTime = .ok w) (hdistinct : hosts.Nodup) :
    w.Observed := by
  obtain ⟨servers, rfl, -⟩ := start_eq_ok hstart
  have hservers := (Network.linked_buildLinks (hosts.mapIdx fun i host => ⟨i, host⟩)).1
  refine ⟨rfl, ?_, Network.paired_buildLinks _, fun _ h => absurd h List.not_mem_nil,
    fun _ h => absurd h List.not_mem_nil, fun _ _ h => absurd h List.not_mem_nil,
    fun _ _ h => absurd h List.not_mem_nil⟩
  rw [hservers, map_hostName_mapIdx]
  exact hdistinct

/-- **Crash detection never stalls**, in every run of a world with an adversary whose host
names are distinct. -/
theorem keepsAlive_of_reaches {hosts : List HostName} {startTime : ℕ} {w₀ : World}
    (hstart : (deploy hosts true).start startTime = .ok w₀) (hdistinct : hosts.Nodup)
    (hrun : Runs.Reaches execute anyAction w₀ w) : w.KeepsAlive ∧ w.SendsAtMostOne := by
  have hinv := hrun.invariant (I := fun w => w.Routed ∧ w.Observed)
    ⟨Started.routed ⟨hosts, true, startTime, hstart⟩, Started.observed hstart hdistinct⟩
    fun v action v' hI _ hv => ⟨hI.1.execute hv, hI.2.execute hI.1 hv⟩
  exact ⟨hinv.2.alive, sendsAtMostOne w⟩

/-- A client and an adversary. -/
def observing : World :=
  match (deploy ["Server-1", "Adversary-1"] true).start 0 with
  | .ok w => w
  | .error _ => {}

/-- The client connects to a port that nobody serves, and the ping becomes a reset. -/
def refused : World :=
  (Runs.exec execute anyAction observing
    [.step 0, .connectTo ⟨"Adversary-1", 1⟩ 5, .step 0, .step 5]).getD {}

/-- The token of the connection is on its way back. -/
theorem keepsAlive_of_reaches_refused :
    ∃ socket ∈ refused.created, refused.RegisteredAt socket 0 ∧ ¬ refused.ResetAt socket 0 ∧
      refused.network.HasToken socket ∧ refused.SendsAtMostOne := by
  have hstart : (deploy ["Server-1", "Adversary-1"] true).start 0 = .ok observing := rfl
  have hrun : Runs.exec execute anyAction observing
      [.step 0, .connectTo ⟨"Adversary-1", 1⟩ 5, .step 0, .step 5] = some refused := rfl
  obtain ⟨halive, hsends⟩ :=
    keepsAlive_of_reaches hstart (by decide) (Runs.reaches_of_exec hrun)
  have hmade : (⟨0, 1, 1, 1, 1⟩ : ClientSocket) ∈ refused.created := by decide
  have hregistered : refused.RegisteredAt ⟨0, 1, 1, 1, 1⟩ 0 := rfl
  have haccepted : refused.accepted = [] := by decide
  have hreset : ¬ refused.ResetAt ⟨0, 1, 1, 1, 1⟩ 0 := by
    rintro ⟨a, ha, -⟩
    rw [haccepted] at ha
    exact absurd ha List.not_mem_nil
  exact ⟨_, hmade, hregistered, hreset, halive 0 _ hmade hregistered hreset, hsends⟩

/-- Two hosts with one name, and an adversary. -/
def twins : World :=
  match (deploy ["Server-1", "Server-1", "Adversary-1"] true).start 0 with
  | .ok w => w
  | .error _ => {}

/-- The second host connects to a port that nobody serves.  The reset comes back to the
first host, which drops it. -/
def unobserved : World :=
  (Runs.exec execute anyAction twins
    [.step 0, .step 0, .connectTo ⟨"Adversary-1", 1⟩ 5, .step 0, .step 5, .step 0]).getD {}

/-- Nothing is under way for a connection that is still registered. -/
theorem not_keepsAlive_of_unobserved :
    ¬ ∀ (hosts : List HostName) (startTime : ℕ) (w₀ w : World),
      (deploy hosts true).start startTime = .ok w₀ → Runs.Reaches execute anyAction w₀ w →
        w.KeepsAlive ∧ w.SendsAtMostOne := by
  intro h
  have hrun : Runs.exec execute anyAction twins
      [.step 0, .step 0, .connectTo ⟨"Adversary-1", 1⟩ 5, .step 0, .step 5, .step 0]
        = some unobserved := rfl
  obtain ⟨halive, -⟩ := h ["Server-1", "Server-1", "Adversary-1"] 0 twins unobserved rfl
    (Runs.reaches_of_exec hrun)
  have hmade : (⟨0, 2, 1, 1, 2⟩ : ClientSocket) ∈ unobserved.created := by decide
  have hregistered : unobserved.RegisteredAt ⟨0, 2, 1, 1, 2⟩ 1 := rfl
  have hempty : ∀ link ∈ unobserved.network.links, link.frames.held = [] := by decide
  have hnone : ∀ l frame, ¬ unobserved.network.InFlight l frame := by
    rintro l frame ⟨link, hlink, f, hf, -⟩
    rw [hempty link (List.mem_of_getElem? hlink)] at hf
    exact List.not_mem_nil hf
  have haccepted : unobserved.accepted = [] := by decide
  have hreset : ¬ unobserved.ResetAt ⟨0, 2, 1, 1, 2⟩ 1 := by
    rintro ⟨a, ha, -⟩
    rw [haccepted] at ha
    exact absurd ha List.not_mem_nil
  have htoken := halive 1 _ hmade hregistered hreset
  rcases htoken with ⟨frame, hframe, -⟩ | ⟨_, o, frame, _, -, -, hframe, -⟩
  · exact hnone _ frame hframe
  · exact hnone o frame hframe

end World

end Whirl
