/-
# The transport of a server

`Transport` of `network/transport.cpp` with its endpoints, and the sockets of
`network/socket.cpp`.  `endpoints_` is a partial function from ports.  The step
number of the world, its clock and the flight times are arguments.
-/
import WhirlMatrix.Network.Routing
import Mathlib.Logic.Function.Basic

namespace Whirl.Net

/-! ## Sockets -/

/-- `ClientSocket::Impl::MakePacket`. -/
def ClientSocket.makePacket (socket : ClientSocket) (message : Message) : Packet :=
  ⟨⟨.data, socket.selfPort, socket.serverPort, socket.ts⟩, message, .client socket⟩

/-- `ReplySocket`; `request` is the origin of the packet that is answered. -/
structure ReplySocket where
  link : LinkId
  selfPort : Port
  peerPort : Port
  ts : ℕ
  request : Origin
  deriving DecidableEq, Repr

/-- The constructor of `ReplySocket`. -/
def ReplySocket.ofIncoming (incoming : Packet) (out : LinkId) : ReplySocket where
  link := out
  selfPort := incoming.header.destPort
  peerPort := incoming.header.sourcePort
  ts := incoming.header.ts
  request := incoming.origin

/-- `ReplySocket::MakePacket`. -/
def ReplySocket.makePacket (socket : ReplySocket) (message : Message) : Packet :=
  ⟨⟨.data, socket.selfPort, socket.peerPort, socket.ts⟩, message, .answer socket.request⟩

/-- The text `<ping>`. -/
def pingMessage : Message := "<ping>".toUTF8.toList

/-- The text `<reset>`. -/
def resetMessage : Message := "<reset>".toUTF8.toList

namespace Replier

/-- `Replier::Reply`: the packet that is sent back. -/
def reply (packet : Packet) (type : PacketType) (payload : Message) : Packet :=
  ⟨⟨type, packet.header.destPort, packet.header.sourcePort, packet.header.ts⟩, payload,
    .answer packet.origin⟩

/-- `Replier::Ping`. -/
def ping (packet : Packet) : Packet := reply packet .ping pingMessage

/-- `Replier::Reset`. -/
def reset (packet : Packet) : Packet := reply packet .reset resetMessage

end Replier

/-! ## Tasks of the transport -/

/-- What a `TransportTask` calls on its handler. -/
inductive Callback where
  /-- `HandleMessage(message, back)`. -/
  | message (message : Message) (back : ReplySocket)
  /-- `HandleDisconnect(host)`. -/
  | disconnect (host : HostName)
  deriving DecidableEq, Repr

/-- `TransportTask`: the callback holds a plain pointer to the handler. -/
structure TransportTask where
  handler : ObjectId
  callback : Callback
  deriving DecidableEq, Repr

/-- What the transport does with a packet. -/
inductive Handled where
  | dropped
  /-- A packet is sent back. -/
  | replied (packet : Packet)
  /-- A task is scheduled as soon as possible. -/
  | scheduled (task : TransportTask)
  deriving DecidableEq, Repr

/-! ## The transport -/

/-- `Transport::Endpoint`. -/
structure Endpoint where
  handler : ObjectId
  ts : ℕ
  deriving DecidableEq, Repr

/-- `Transport`. -/
structure Transport where
  host : HostName
  endpoints : Port → Option Endpoint := fun _ => none
  nextPort : Port := 1

namespace Transport

/-- `FindFreePort`: the port found and the next candidate.  The first argument bounds
the number of probes. -/
def findFreePort (endpoints : Port → Option Endpoint) : ℕ → Port → Outcome (Port × Port)
  | 0, _ => .error .diverges
  | probes + 1, nextPort =>
    if (endpoints nextPort).isNone then
      .ok (nextPort, nextPort + 1)
    else
      findFreePort endpoints probes (nextPort + 1)

/-- `endpoints_.emplace`, which keeps an entry that exists. -/
def emplace (endpoints : Port → Option Endpoint) (port : Port) (endpoint : Endpoint) :
    Port → Option Endpoint :=
  if (endpoints port).isNone then Function.update endpoints port (some endpoint) else endpoints

/-- The first packet of a connection when there is an adversary. -/
def connectPing (socket : ClientSocket) : Packet :=
  ⟨⟨.ping, socket.selfPort, socket.serverPort, socket.ts⟩, pingMessage, .client socket⟩

/-- `ConnectTo` for the new object `handler`; every port is probed once. -/
def connectTo (transport : Transport) (net : Network) (address : Address) (handler : ObjectId)
    (worldStepNumber now : ℕ) (isThereAdversary : Bool) (flightTime : ℕ) :
    Outcome (ClientSocket × Transport × Network) := do
  let link ← net.getLink transport.host address.host
  let (port, nextPort) ← findFreePort transport.endpoints (2 ^ 16) transport.nextPort
  let ts := worldStepNumber
  let endpoints := emplace transport.endpoints port ⟨handler, ts⟩
  let transport := { transport with endpoints := endpoints, nextPort := nextPort }
  let socket : ClientSocket := ⟨handler, link, port, address.port, ts⟩
  if isThereAdversary then
    -- init ping-pong for detecting crashes and reboots
    let net ← net.add link (connectPing socket) now flightTime
    return (socket, transport, net)
  return (socket, transport, net)

/-- `Serve` for the new object `handler`. -/
def serve (transport : Transport) (port : Port) (handler : ObjectId) (worldStepNumber : ℕ) :
    Outcome Transport := do
  verify (transport.endpoints port).isNone "Port already in use"
  let ts := worldStepNumber
  return { transport with endpoints := emplace transport.endpoints port ⟨handler, ts⟩ }

/-- `RemoveEndpoint`. -/
def removeEndpoint (transport : Transport) (port : Port) : Transport :=
  { transport with endpoints := Function.update transport.endpoints port none }

/-- `Reset`. -/
def reset (transport : Transport) : Transport :=
  { transport with endpoints := fun _ => none }

/-- `HandlePacket`; `fromHost` is the host at the end of the link `out`. -/
def handlePacket (transport : Transport) (packet : Packet) (out : LinkId) (fromHost : HostName) :
    Handled :=
  match transport.endpoints packet.header.destPort with
  | none =>
    if packet.header.type != .reset then .replied (Replier.reset packet) else .dropped
  | some endpoint =>
    if packet.header.ts < endpoint.ts then
      -- outdated packet
      .replied (Replier.reset packet)
    else
      match packet.header.type with
      | .ping => .replied (Replier.ping packet)
      | .reset => .scheduled ⟨endpoint.handler, .disconnect fromHost⟩
      | .data =>
        .scheduled ⟨endpoint.handler, .message packet.message (ReplySocket.ofIncoming packet out)⟩

/-! ## What the operations do -/

/-- An entry of a table after one entry was replaced. -/
theorem update_eq_some {α β : Type} [DecidableEq α] {table : α → Option β} {a a' : α}
    {entry : Option β} {b : β} :
    Function.update table a entry a' = some b ↔
      (a' = a ∧ entry = some b) ∨ (a' ≠ a ∧ table a' = some b) := by
  by_cases heq : a' = a
  · subst heq
    simp
  · simp [heq]

@[simp] theorem reset_endpoints (transport : Transport) (port : Port) :
    transport.reset.endpoints port = none := rfl

/-- An endpoint that is left after a removal is at another port. -/
theorem removeEndpoint_eq_some {transport : Transport} {port port' : Port} {e : Endpoint} :
    (transport.removeEndpoint port).endpoints port' = some e ↔
      port' ≠ port ∧ transport.endpoints port' = some e := by
  show Function.update transport.endpoints port none port' = some e ↔ _
  rw [update_eq_some]
  simp

/-- The port that is found is free. -/
theorem findFreePort_eq_ok {endpoints : Port → Option Endpoint} {probes : ℕ} {next port next' : Port}
    (h : findFreePort endpoints probes next = .ok (port, next')) : endpoints port = none := by
  induction probes generalizing next with
  | zero => exact absurd h (by simp [findFreePort])
  | succ probes ih =>
    rw [findFreePort] at h
    split at h
    · rename_i hfree
      obtain ⟨rfl, -⟩ := Prod.mk.inj (Except.ok.inj h)
      exact Option.isNone_iff_eq_none.mp hfree
    · exact ih h

/-- A new endpoint at a free port. -/
theorem emplace_of_free {endpoints : Port → Option Endpoint} {port : Port} {endpoint : Endpoint}
    (h : endpoints port = none) :
    emplace endpoints port endpoint = Function.update endpoints port (some endpoint) := by
  rw [emplace, h]
  rfl

/-- What `ConnectTo` does: a free port gets the endpoint of the new socket, whose
timestamp is the number of the step, and at most its ping is sent. -/
theorem connectTo_spec {transport transport' : Transport} {net net' : Network} {address : Address}
    {handler : ObjectId} {step now : ℕ} {adversary : Bool} {flightTime : ℕ} {socket : ClientSocket}
    (h : transport.connectTo net address handler step now adversary flightTime
      = .ok (socket, transport', net')) :
    net.getLink transport.host address.host = .ok socket.link ∧
      socket.handler = handler ∧ socket.ts = step ∧ socket.serverPort = address.port ∧
      findFreePort transport.endpoints (2 ^ 16) transport.nextPort
        = .ok (socket.selfPort, transport'.nextPort) ∧
      transport.endpoints socket.selfPort = none ∧ transport'.host = transport.host ∧
      transport'.endpoints
        = Function.update transport.endpoints socket.selfPort (some ⟨handler, step⟩) ∧
      (net' = net ∨ net.add socket.link (connectPing socket) now flightTime = .ok net') := by
  obtain ⟨link, hlink, h⟩ := Outcome.bind_eq_ok.mp h
  obtain ⟨⟨port, nextPort⟩, hport, h⟩ := Outcome.bind_eq_ok.mp h
  have hfree := findFreePort_eq_ok hport
  dsimp only at h
  split at h
  · obtain ⟨net'', hadd, h⟩ := Outcome.bind_eq_ok.mp h
    simp only [Outcome.pure_eq_ok, Prod.mk.injEq] at h
    obtain ⟨rfl, rfl, rfl⟩ := h
    exact ⟨hlink, rfl, rfl, rfl, hport, hfree, rfl, emplace_of_free hfree, Or.inr hadd⟩
  · simp only [Outcome.pure_eq_ok, Prod.mk.injEq] at h
    obtain ⟨rfl, rfl, rfl⟩ := h
    exact ⟨hlink, rfl, rfl, rfl, hport, hfree, rfl, emplace_of_free hfree, Or.inl rfl⟩

/-- What `Serve` does: the port was free and gets an endpoint with the number of the step. -/
theorem serve_spec {transport transport' : Transport} {port : Port} {handler : ObjectId} {step : ℕ}
    (h : transport.serve port handler step = .ok transport') :
    transport.endpoints port = none ∧ transport'.host = transport.host ∧
      transport'.endpoints = Function.update transport.endpoints port (some ⟨handler, step⟩) := by
  obtain ⟨_, hverify, h⟩ := Outcome.bind_eq_ok.mp h
  have hfree := Option.isNone_iff_eq_none.mp (Outcome.verify_eq_ok.mp hverify)
  obtain rfl := Outcome.pure_eq_ok.mp h
  exact ⟨hfree, rfl, emplace_of_free hfree⟩

/-- A task is scheduled only for a registered endpoint that is not newer than the packet. -/
theorem handlePacket_eq_scheduled {transport : Transport} {packet : Packet} {out : LinkId}
    {fromHost : HostName} {task : TransportTask}
    (h : transport.handlePacket packet out fromHost = .scheduled task) :
    ∃ endpoint, transport.endpoints packet.header.destPort = some endpoint ∧
      endpoint.ts ≤ packet.header.ts ∧ task.handler = endpoint.handler ∧
      ((packet.header.type = .reset ∧ task.callback = .disconnect fromHost) ∨
        (packet.header.type = .data ∧
          task.callback = .message packet.message (ReplySocket.ofIncoming packet out))) := by
  rw [handlePacket] at h
  split at h
  · split at h <;> exact absurd h (by simp)
  · rename_i endpoint hendpoint
    split at h
    · exact absurd h (by simp)
    · rename_i hts
      split at h
      · exact absurd h (by simp)
      · rename_i htype
        obtain rfl := Handled.scheduled.inj h
        exact ⟨endpoint, hendpoint, Nat.not_lt.mp hts, rfl, Or.inl ⟨htype, rfl⟩⟩
      · rename_i htype
        obtain rfl := Handled.scheduled.inj h
        exact ⟨endpoint, hendpoint, Nat.not_lt.mp hts, rfl, Or.inr ⟨htype, rfl⟩⟩

/-- A packet that is sent back answers the one that was handled. -/
theorem handlePacket_eq_replied {transport : Transport} {packet reply : Packet} {out : LinkId}
    {fromHost : HostName} (h : transport.handlePacket packet out fromHost = .replied reply) :
    ∃ type payload, reply = Replier.reply packet type payload := by
  rw [handlePacket] at h
  split at h
  · split at h
    · exact ⟨_, _, (Handled.replied.inj h).symm⟩
    · exact absurd h (by simp)
  · split at h
    · exact ⟨_, _, (Handled.replied.inj h).symm⟩
    · split at h
      · exact ⟨_, _, (Handled.replied.inj h).symm⟩
      · exact absurd h (by simp)
      · exact absurd h (by simp)

end Transport

end Whirl.Net
