/-
# Ports of live sockets

The keys of `endpoints_` are the ports of the open sockets of the process.  A search
for a free port that fails has seen every port registered, so it fails only when
65536 sockets are open.  Removal erases whatever is at a port, and what is there
belongs to the socket that is closed.
-/
import WhirlMatrix.World.Connections
import Mathlib.Data.Finset.Card

namespace Whirl

open Net Process

namespace Net.Transport

variable {endpoints : Port → Option Endpoint}

/-- After a search of `probes` ports that fails, all of them are registered. -/
theorem registered_of_findFreePort {probes : ℕ} {next : Port} {e : Failure}
    (h : findFreePort endpoints probes next = .error e) :
    ∀ k < probes, (endpoints (next + UInt16.ofNat k)).isSome := by
  induction probes generalizing next with
  | zero =>
    intro k hk
    exact absurd hk (Nat.not_lt_zero k)
  | succ probes ih =>
    rw [findFreePort] at h
    split at h
    · exact absurd h (by simp)
    · rename_i htaken
      intro k hk
      cases k with
      | zero => simpa [Option.isSome_iff_ne_none] using htaken
      | succ k =>
        have hstep : next + UInt16.ofNat (k + 1) = next + 1 + UInt16.ofNat k := by
          rw [UInt16.ofNat_add, UInt16.add_comm (UInt16.ofNat k), ← UInt16.add_assoc]
          rfl
        rw [hstep]
        exact ih h k (Nat.lt_of_succ_lt_succ hk)

/-- The counter wraps around, so a search of 65536 ports that fails has seen them all. -/
theorem registered_of_findFreePort_all {next : Port} {e : Failure}
    (h : findFreePort endpoints (2 ^ 16) next = .error e) (port : Port) :
    (endpoints port).isSome := by
  have hport := registered_of_findFreePort h (port - next).toNat (UInt16.toNat_lt _)
  rwa [UInt16.ofNat_toNat, UInt16.add_comm, UInt16.sub_add_cancel] at hport

end Net.Transport

/-! ## Live sockets -/

namespace Server

/-- The port of an object with an open socket. -/
def portOf (server : Server) (object : ObjectId) : Option Port :=
  (server.process.handlers object).bind Handler.port

/-- The objects with an open socket, among those that were made. -/
def liveSockets (server : Server) (nextObject : ObjectId) : Finset ObjectId :=
  (Finset.range nextObject).filter fun object => (server.portOf object).isSome

/-- The keys of `endpoints_` are the ports of the live sockets, one for each, with the
handler of that socket. -/
structure PortsAgree (server : Server) (nextObject : ObjectId) : Prop where
  live : ∀ object, object ∈ server.liveSockets nextObject ↔ (server.portOf object).isSome
  keys : ∀ port, (server.transport.endpoints port).isSome ↔
    ∃ object, server.portOf object = some port
  distinct : ∀ object object' port, server.portOf object = some port →
    server.portOf object' = some port → object = object'
  handler : ∀ object port e, server.portOf object = some port →
    server.transport.endpoints port = some e → e.handler = object

/-- `FindFreePort` ends, wherever it starts, and the port that it finds is free. -/
def FindsFreePort (server : Server) : Prop :=
  ∀ next : Port, ∃ port next', Transport.findFreePort server.transport.endpoints (2 ^ 16) next
    = .ok (port, next') ∧ server.transport.endpoints port = none

/-- The sockets of all other objects stay open, with the endpoints that they have. -/
def KeepsOthers (server server' : Server) (object : ObjectId) : Prop :=
  ∀ object' port, object' ≠ object → server.portOf object' = some port →
    server'.portOf object' = some port ∧
      server'.transport.endpoints port = server.transport.endpoints port

/-- The object has no open socket any more, and all others keep theirs. -/
structure Closed (server server' : Server) (object : ObjectId) : Prop where
  closed : server'.portOf object = none
  others : server.KeepsOthers server' object

variable {server server' : Server} {n : ObjectId}

theorem portOf_eq_some {object : ObjectId} {port : Port} :
    server.portOf object = some port ↔
      ∃ handler, server.process.handlers object = some handler ∧ handler.port = some port := by
  rw [portOf, Option.bind_eq_some_iff]

@[simp] theorem portOf_setHandler (object : ObjectId) (handler : Option Handler) :
    (server.setHandler object handler).portOf object = handler.bind Handler.port := by
  simp only [portOf, setHandler, Function.update_self]

theorem portOf_setHandler_ne {object object' : ObjectId} (hne : object' ≠ object)
    (handler : Option Handler) :
    (server.setHandler object handler).portOf object' = server.portOf object' := by
  simp only [portOf, setHandler, Function.update_of_ne hne]

/-- The sockets of a booked server agree with its endpoints. -/
theorem Booked.portsAgree (h : server.Booked n) : server.PortsAgree n where
  live object := by
    rw [liveSockets, Finset.mem_filter, Finset.mem_range, and_iff_right_iff_imp]
    intro hopen
    obtain ⟨port, hport⟩ := Option.isSome_iff_exists.mp hopen
    obtain ⟨handler, hhandler, -⟩ := portOf_eq_some.mp hport
    exact h.fresh object handler hhandler
  keys port := by
    constructor
    · intro hkey
      obtain ⟨e, he⟩ := Option.isSome_iff_exists.mp hkey
      exact ⟨e.handler, portOf_eq_some.mpr (h.owned port e he)⟩
    · rintro ⟨object, hobject⟩
      obtain ⟨handler, hhandler, hport⟩ := portOf_eq_some.mp hobject
      obtain ⟨ts, hts⟩ := h.registered object handler port hhandler hport
      rw [hts]
      rfl
  distinct object object' port hobject hobject' := by
    obtain ⟨handler, hhandler, hport⟩ := portOf_eq_some.mp hobject
    obtain ⟨handler', hhandler', hport'⟩ := portOf_eq_some.mp hobject'
    obtain ⟨ts, hts⟩ := h.registered object handler port hhandler hport
    obtain ⟨ts', hts'⟩ := h.registered object' handler' port hhandler' hport'
    have hsame := Option.some.inj (hts.symm.trans hts')
    exact (Endpoint.mk.inj hsame).1
  handler object port e hobject he := by
    obtain ⟨handler, hhandler, hport⟩ := portOf_eq_some.mp hobject
    obtain ⟨ts, hts⟩ := h.registered object handler port hhandler hport
    obtain rfl := Option.some.inj (hts.symm.trans he)
    rfl

/-- **The search for a port ends.**  Were all 65536 ports registered, each would belong
to a live socket of its own. -/
theorem PortsAgree.findsFreePort (h : server.PortsAgree n)
    (hfew : (server.liveSockets n).card < 2 ^ 16) : server.FindsFreePort := by
  intro next
  cases hfind : Transport.findFreePort server.transport.endpoints (2 ^ 16) next with
  | ok found =>
    obtain ⟨port, next'⟩ := found
    exact ⟨port, next', rfl, Transport.findFreePort_eq_ok hfind⟩
  | error e =>
    have howner : ∀ port, ∃ object, server.portOf object = some port := fun port =>
      (h.keys port).mp (Transport.registered_of_findFreePort_all hfind port)
    choose owner howner using howner
    have hmaps : ∀ k ∈ Finset.range (2 ^ 16), owner (UInt16.ofNat k) ∈ server.liveSockets n := by
      intro k _
      rw [h.live, howner]
      rfl
    have hinj : Set.InjOn (fun k => owner (UInt16.ofNat k)) (Finset.range (2 ^ 16)) := by
      intro k hk k' hk' heq
      rw [Finset.mem_coe, Finset.mem_range] at hk hk'
      have hports : some (UInt16.ofNat k) = some (UInt16.ofNat k') := by
        rw [← howner (UInt16.ofNat k), ← howner (UInt16.ofNat k')]
        exact congrArg server.portOf heq
      have hnats := congrArg UInt16.toNat (Option.some.inj hports)
      rwa [UInt16.toNat_ofNat_of_lt' hk, UInt16.toNat_ofNat_of_lt' hk'] at hnats
    have hcard := Finset.card_le_card_of_injOn _ hmaps hinj
    rw [Finset.card_range] at hcard
    exact absurd hfew (Nat.not_lt.mpr hcard)

/-- Closing a socket removes the endpoint of that socket, and no other. -/
theorem Booked.closed_close {object : ObjectId} (h : server.Booked n)
    (hclose : server.close object = .ok server') : server.Closed server' object := by
  obtain ⟨handler, hhandler, ⟨hport, rfl⟩ | ⟨port, hport, rfl⟩⟩ := close_eq_ok hclose
  · constructor
    · rw [portOf, hhandler]
      exact hport
    · exact fun _ _ _ hobject' => ⟨hobject', rfl⟩
  · have hobject : server.portOf object = some port := portOf_eq_some.mpr ⟨handler, hhandler, hport⟩
    constructor
    · rw [portOf_setHandler]
      exact Handler.port_closed handler
    · intro object' port' hne hobject'
      have hports : port' ≠ port := by
        rintro rfl
        exact hne (h.portsAgree.distinct object' object port' hobject' hobject)
      constructor
      · rw [portOf_setHandler_ne hne]
        exact hobject'
      · exact Function.update_of_ne hports _ _

/-- So does the destruction of its object. -/
theorem Booked.closed_destroy {object : ObjectId} (h : server.Booked n)
    (hdestroy : server.destroy object = .ok server') : server.Closed server' object := by
  obtain ⟨closed, hclose, hdestroy⟩ := Outcome.bind_eq_ok.mp hdestroy
  obtain rfl := Outcome.pure_eq_ok.mp hdestroy
  constructor
  · rw [portOf_setHandler]
    rfl
  · intro object' port hne hobject'
    obtain ⟨hopen, hendpoint⟩ := (h.closed_close hclose).others object' port hne hobject'
    constructor
    · rw [portOf_setHandler_ne hne]
      exact hopen
    · exact hendpoint

/-- The call of a disconnect closes the socket of a client. -/
theorem close_of_runTransportTask {task : TransportTask} {handler : Handler} {host : HostName}
    (hhandler : server.process.handlers task.handler = some handler)
    (hclient : handler.isClient = true) (hcallback : task.callback = .disconnect host)
    (hrun : server.runTransportTask task = .ok server') :
    server.close task.handler = .ok server' := by
  cases handler with
  | socket impl => simpa only [runTransportTask, hhandler, hcallback] using hrun
  | server impl => exact absurd hclient (by simp [Handler.isClient])

/-- So does a disconnect, which closes the socket of its handler. -/
theorem Booked.keepsOthers_runTransportTask {task : TransportTask} (h : server.Booked n)
    (hrun : server.runTransportTask task = .ok server') :
    server.KeepsOthers server' task.handler := by
  obtain ⟨handler, -, rfl | ⟨-, hclose⟩ | ⟨message, back, -, rfl⟩⟩ := runTransportTask_eq_ok hrun
  · exact fun _ _ _ hobject' => ⟨hobject', rfl⟩
  · exact (h.closed_close hclose).others
  · exact fun _ _ _ hobject' => ⟨hobject', rfl⟩

end Server

/-! ## Every run -/

namespace World

/-- A `ConnectTo` that returns has registered its new socket at a port that was free,
and all other ports are as before. -/
def ConnectsAtFreePort (w : World) : Prop :=
  ∀ address flightTime w', w.execute (.connectTo address flightTime) = .ok w' →
    ∃ (i : ℕ) (server server' : Server) (socket : ClientSocket),
      w.current = some i ∧ w.servers[i]? = some server ∧ w'.servers[i]? = some server' ∧
      w'.created = w.created ++ [socket] ∧ server'.portOf w.nextObject = some socket.selfPort ∧
      server.transport.endpoints socket.selfPort = none ∧
      server'.transport.endpoints = Function.update server.transport.endpoints socket.selfPort
        (some ⟨w.nextObject, socket.ts⟩)

variable {w₀ w : World}

theorem connectsAtFreePort (w : World) : w.ConnectsAtFreePort := by
  intro address flightTime w' hw
  obtain ⟨i, server, socket, transport, net, hcurrent, hserver, hconnect, rfl⟩ :=
    execute_connectTo hw
  obtain ⟨-, -, hts, -, -, hfree, -, hendpoints, -⟩ := Transport.connectTo_spec hconnect
  refine ⟨i, server, _, socket, hcurrent, hserver, getElem?_setServer hserver _, rfl, ?_, hfree, ?_⟩
  · rw [Server.portOf_setHandler]
    rfl
  · rw [hts]
    exact hendpoints

/-- **Sockets and ports agree.**  In every state of a run the ports that a server has
registered are those of its live sockets, one for each; as long as there are fewer than
65536 of these, a free port is found from every value of the counter; a connection is
registered at a free port; an object that is closed or destroyed, or a client that is
disconnected, has no open socket any more; and all this leaves the endpoints of all other
sockets. -/
theorem portsAgree_of_reaches (hstart : Started w₀)
    (hrun : Runs.Reaches execute anyAction w₀ w) {i : ℕ} {server : Server}
    (hserver : w.servers[i]? = some server) :
    server.PortsAgree w.nextObject ∧
      ((server.liveSockets w.nextObject).card < 2 ^ 16 → server.FindsFreePort) ∧
      w.ConnectsAtFreePort ∧
      (∀ object server', server.close object = .ok server' ∨ server.destroy object = .ok server' →
        server.Closed server' object) ∧
      ∀ task server', server.runTransportTask task = .ok server' →
        server.KeepsOthers server' task.handler ∧
          ∀ handler host, server.process.handlers task.handler = some handler →
            handler.isClient = true → task.callback = .disconnect host →
            server.Closed server' task.handler := by
  have hbooked := (routed_of_reaches hstart hrun).booked i server hserver
  have hagree := hbooked.portsAgree
  refine ⟨hagree, hagree.findsFreePort, connectsAtFreePort w, ?_, ?_⟩
  · rintro object server' (hclose | hdestroy)
    · exact hbooked.closed_close hclose
    · exact hbooked.closed_destroy hdestroy
  · intro task server' htask
    refine ⟨hbooked.keepsOthers_runTransportTask htask, ?_⟩
    intro handler host hhandler hclient hcallback
    exact hbooked.closed_close
      (Server.close_of_runTransportTask hhandler hclient hcallback htask)

/-- The client connects three times, closes and destroys the first socket, and sends on the
third one to a port that nobody serves, until it is disconnected. -/
def reconnecting : List Action :=
  [.step 0, .serve 42, .step 0, .connectTo ⟨"Server-1", 42⟩ 5, .connectTo ⟨"Server-1", 42⟩ 5,
    .connectTo ⟨"Server-1", 7⟩ 5, .close 1, .destroy 1, .send 3 [] 5, .step 5, .step 0, .step 0]

/-- The world after this. -/
def reconnected : World := (Runs.exec execute anyAction started reconnecting).getD {}

/-- The second socket is the only live one, a free port is found, and the destruction of the
second one leaves none. -/
theorem portsAgree_of_reaches_reconnected :
    ∃ client, reconnected.servers[1]? = some client ∧
      client.liveSockets reconnected.nextObject = {2} ∧
      client.PortsAgree reconnected.nextObject ∧ client.FindsFreePort ∧
      ∃ client', client.destroy 2 = .ok client' ∧ client.Closed client' 2 := by
  have hstart : Started started := ⟨["Server-1", "Client-1"], false, 0, rfl⟩
  have hrun : Runs.exec execute anyAction started reconnecting = some reconnected := rfl
  obtain ⟨client, hclient⟩ : ∃ client, reconnected.servers[1]? = some client := ⟨_, rfl⟩
  obtain ⟨hagree, hfinds, -, hclosed, -⟩ :=
    portsAgree_of_reaches hstart (Runs.reaches_of_exec hrun) hclient
  have hlive : (reconnected.servers[1]?).map
      (fun server => server.liveSockets reconnected.nextObject) = some {2} := by decide
  have hdestroy : ((reconnected.servers[1]?).bind
      fun server => (server.destroy 2).toOption).isSome := by decide
  rw [hclient] at hlive hdestroy
  have hlive : client.liveSockets reconnected.nextObject = {2} := Option.some.inj hlive
  have hfew : (client.liveSockets reconnected.nextObject).card < 2 ^ 16 := by
    rw [hlive]
    decide
  have hdestroy : (client.destroy 2).toOption.isSome := hdestroy
  cases hclient' : client.destroy 2 with
  | error e =>
    rw [hclient'] at hdestroy
    exact absurd hdestroy (by simp [Except.toOption])
  | ok client' =>
    exact ⟨client, hclient, hlive, hagree, hfinds hfew, client', hclient',
      hclosed 2 client' (Or.inr hclient')⟩

end World

end Whirl
