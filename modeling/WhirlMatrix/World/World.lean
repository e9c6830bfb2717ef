/-
# The world

`World` of `world/world.cpp`: a clock, servers and a network that take turns.  A run
is a sequence of actions.  `World::Step` chooses the actor whose time is next and
runs its task or delivers a packet; the effects that follow, until the next step,
are what the code of the user does inside that step.

Flight times are chosen by the time model, so they are arguments of the actions.
`created`, `accepted` and `calls` are proof-only: they record the client sockets that
were made, the packets for which a task was queued, and the calls of handlers.
-/
import WhirlMatrix.World.Server

namespace Whirl

open Net Process

/-! ## The state of the world -/

/-- A packet for which a transport queued a task. -/
structure Acceptance where
  server : ℕ
  packet : Packet
  task : TransportTask
  deriving DecidableEq, Repr

/-- A call of a handler; `client` says whether it was a `NetTransportSocket`. -/
structure HandlerCall where
  server : ℕ
  task : TransportTask
  client : Bool
  deriving DecidableEq, Repr

/-- `World`.  A server is known by its index in the order of registration.  `world_step_number_` is
a `size_t`; it is exact here as long as there were fewer than 2^64 steps. -/
structure World where
  time : Time := {}
  stepNumber : ℕ := 0
  servers : List Server := []
  network : Network := {}
  /-- `HasAdversary`. -/
  adversary : Bool := false
  /-- The server whose step is going on. -/
  current : Option ℕ := none
  /-- The number of the next object that is made. -/
  nextObject : ObjectId := 0
  created : List ClientSocket := []
  accepted : List Acceptance := []
  calls : List HandlerCall := []

/-- `IActor`: the servers, and the network that is registered last. -/
inductive Actor where
  | server (server : Server)
  | network (network : Network)

namespace Actor

/-- `IsRunnable`. -/
def isRunnable : Actor → Bool
  | .server s => s.isRunnable
  | .network net => net.isRunnable

/-- `NextStepTime`. -/
def nextStepTime : Actor → Outcome ℕ
  | .server s => s.nextStepTime
  | .network net => net.nextStepTime

end Actor

/-- `NextStep`. -/
structure NextStep where
  actorIndex : ℕ
  time : ℕ
  deriving DecidableEq, Repr

namespace World

/-! ## Construction and start -/

/-- `AddServerImpl`. -/
def addServer (w : World) (hostname : HostName) : World :=
  { w with
    servers := w.servers ++ [{ transport := { host := hostname } }]
    network := w.network.addServer ⟨w.servers.length, hostname⟩ }

/-- A world before its start: all hosts in the order of registration, and whether an
adversary is among them. -/
def deploy (hosts : List HostName) (adversary : Bool) : World :=
  { hosts.foldl addServer {} with adversary := adversary }

/-- `Start`. -/
def start (w : World) (globalStartTime : ℕ) : Outcome World := do
  let time ← w.time.fastForwardTo globalStartTime
  let servers ← w.servers.mapM fun server => server.launch time.now
  return { w with time := time, network := w.network.buildLinks, servers := servers }

/-! ## Steps -/

/-- A server keeps its place and gets a new value. -/
def setServer (w : World) (i : ℕ) (server : Server) : World :=
  { w with servers := w.servers.set i server }

/-- `actors_`. -/
def actors (w : World) : List Actor := w.servers.map Actor.server ++ [.network w.network]

/-- The loop of `FindNextStep` from actor `i` on. -/
def findNextStepFrom : ℕ → Option NextStep → List Actor → Outcome (Option NextStep)
  | _, nextStep, [] => .ok nextStep
  | i, nextStep, actor :: actors =>
    if actor.isRunnable then do
      let nextStepTime ← actor.nextStepTime
      if nextStep.all fun next => nextStepTime < next.time then
        findNextStepFrom (i + 1) (some ⟨i, nextStepTime⟩) actors
      else
        findNextStepFrom (i + 1) nextStep actors
    else
      findNextStepFrom (i + 1) nextStep actors

/-- `FindNextStep`. -/
def findNextStep (w : World) : Outcome (Option NextStep) := findNextStepFrom 0 none w.actors

/-- `Server::HandlePacket` of the receiver of a packet, called by `Network::Step`. -/
def handlePacket (w : World) (delivery : Delivery) (flightTime : ℕ) : Outcome World :=
  match w.servers[delivery.receiver.id]?, delivery.out with
  | some server, some out =>
    match w.network.ends out with
    | none => .error .undefined
    | some ends =>
      match server.transport.handlePacket delivery.packet out ends.stop.hostName with
      | .dropped => .ok w
      | .replied packet => do
        let net ← w.network.add out packet w.time.now flightTime
        return { w with network := net }
      | .scheduled task =>
        .ok { w.setServer delivery.receiver.id { server with
            scheduler := server.scheduler.scheduleAsap (.transport task) w.time.now } with
          accepted := w.accepted ++ [⟨delivery.receiver.id, delivery.packet, task⟩] }
  | _, _ => .error .undefined

/-- The record of the call that a task makes. -/
def callOf (server : Server) (i : ℕ) : Task → List HandlerCall
  | .transport task =>
    [⟨i, task, (server.process.handlers task.handler).any Handler.isClient⟩]
  | _ => []

/-- `Step` of the server with index `i`. -/
def stepServer (w : World) (i : ℕ) (server : Server) : Outcome World := do
  let (task, server') ← server.step
  return { w.setServer i server' with
    current := some i
    calls := w.calls ++ callOf server i task }

/-- `Step` of the network. -/
def stepNetwork (w : World) (flightTime : ℕ) : Outcome World := do
  let (net, delivery) ← w.network.step
  let w := { w with network := net, current := none }
  match delivery with
  | none => return w
  | some delivery => w.handlePacket delivery flightTime

/-- `Step`; without a runnable actor the simulation is in deadlock and nothing happens. -/
def step (w : World) (flightTime : ℕ) : Outcome World := do
  let next ← w.findNextStep
  match next with
  | none => return { w with current := none }
  | some next =>
    let time ← w.time.fastForwardTo next.time
    let w := { w with stepNumber := w.stepNumber + 1, time := time }
    match w.servers[next.actorIndex]? with
    | some server => w.stepServer next.actorIndex server
    | none => w.stepNetwork flightTime

/-! ## Actions -/

/-- `IFaultyNetwork`. -/
inductive NetworkFault where
  | pauseLink (start stop : HostName)
  | resumeLink (start stop : HostName)
  | split (lhs : Partition)
  | heal
  deriving DecidableEq, Repr

end World

/-- A fault of the network at time `now`. -/
def Net.Network.fault (net : Network) (now : ℕ) : World.NetworkFault → Outcome Network
  | .pauseLink start stop => net.pauseLink start stop
  | .resumeLink start stop => net.resumeLink start stop now
  | .split lhs => net.split lhs
  | .heal => net.heal now

namespace World

/-- What happens in a world. -/
inductive Action where
  /-- `World::Step`; the flight time is that of an answer of the transport. -/
  | step (flightTime : ℕ)
  /-- A timer with its delay, or a task of the thread pool, which has none. -/
  | schedule (delay : ℕ) (id : ℕ)
  /-- `NetTransport::ConnectTo`. -/
  | connectTo (address : Address) (flightTime : ℕ)
  /-- `NetTransport::Serve`. -/
  | serve (port : Port)
  /-- `Close` or `Shutdown` of an object. -/
  | close (object : ObjectId)
  /-- The last reference to an object is dropped. -/
  | destroy (object : ObjectId)
  /-- `NetTransportSocket::Send`. -/
  | send (object : ObjectId) (message : Message) (flightTime : ℕ)
  /-- `ReplyTransportSocket::Send` on the reply socket with an index. -/
  | reply (index : ℕ) (message : Message) (flightTime : ℕ)
  /-- A fault of a server, by the server whose step is going on. -/
  | serverFault (target : ℕ) (fault : ServerFault)
  | networkFault (fault : NetworkFault)
  /-- `World::RestartServer`, between two steps. -/
  | restartServer (target : ℕ)

/-- Whether an action belongs to the step that is going on. -/
def Action.isEffect : Action → Bool
  | step _ => false
  | restartServer _ => false
  | _ => true

/-- The server whose step is going on. -/
def actor (w : World) : Outcome (ℕ × Server) :=
  match w.current with
  | none => .error .undefined
  | some i =>
    match w.servers[i]? with
    | none => .error .undefined
    | some server => .ok (i, server)

/-- A fault of the server with index `target`. -/
def faultServer (w : World) (target : ℕ) (fault : ServerFault) : Outcome World :=
  match w.servers[target]? with
  | none => .error .undefined
  | some server => do
    let server ← server.fault w.time.now fault
    return w.setServer target server

/-- One action. -/
def execute (w : World) : Action → Outcome World
  | .step flightTime => w.step flightTime
  | .schedule delay id => do
    let (i, server) ← w.actor
    return w.setServer i { server with
      scheduler := server.scheduler.schedule (addTime w.time.now delay) (.user id) }
  | .connectTo address flightTime => do
    let (i, server) ← w.actor
    let (socket, transport, net) ← server.transport.connectTo w.network address w.nextObject
      w.stepNumber w.time.now w.adversary flightTime
    return { w.setServer i ({ server with transport := transport }.setHandler w.nextObject
        (some (.socket (some socket)))) with
      network := net
      nextObject := w.nextObject + 1
      created := w.created ++ [socket] }
  | .serve port => do
    let (i, server) ← w.actor
    let transport ← server.transport.serve port w.nextObject w.stepNumber
    return { w.setServer i ({ server with transport := transport }.setHandler w.nextObject
        (some (.server (some port)))) with
      nextObject := w.nextObject + 1 }
  | .close object => do
    let (i, server) ← w.actor
    let server ← server.close object
    return w.setServer i server
  | .destroy object => do
    let (i, server) ← w.actor
    let server ← server.destroy object
    return w.setServer i server
  | .send object message flightTime => do
    let (_, server) ← w.actor
    match server.process.handlers object with
    | some (.socket (some socket)) =>
      let net ← w.network.add socket.link (socket.makePacket message) w.time.now flightTime
      return { w with network := net }
    | _ => .error .undefined
  | .reply index message flightTime => do
    let (_, server) ← w.actor
    match server.process.replies[index]? with
    | some socket =>
      let net ← w.network.add socket.link (socket.makePacket message) w.time.now flightTime
      return { w with network := net }
    | none => .error .undefined
  | .serverFault target fault =>
    -- a server that wiped its own memory would go on to run in it
    if w.current = some target ∧ (fault = .crash ∨ fault = .fastReboot) then
      .error .undefined
    else
      w.faultServer target fault
  | .networkFault fault => do
    let net ← w.network.fault w.time.now fault
    return { w with network := net }
  | .restartServer target => do
    let w ← w.faultServer target .fastReboot
    return { w with current := none }

/-- A world right after its start. -/
def Started (w : World) : Prop :=
  ∃ hosts adversary startTime, (deploy hosts adversary).start startTime = .ok w

/-- Runs of any actions. -/
def anyAction (_ : World) (_ : Action) : Prop := True

/-! ## A world before and at its start -/

theorem foldl_addServer (w : World) (hosts : List HostName) :
    hosts.foldl addServer w = { w with
      servers := w.servers ++ hosts.map fun host => { transport := { host := host } }
      network := { w.network with
        servers := w.network.servers
          ++ hosts.mapIdx fun i host => ⟨w.servers.length + i, host⟩ } } := by
  induction hosts generalizing w with
  | nil => simp
  | cons host hosts ih =>
    rw [List.foldl_cons, ih, addServer]
    simp [Network.addServer, List.mapIdx_cons, Nat.add_assoc, Nat.add_comm 1]

/-- Before its start a world consists of its hosts. -/
theorem deploy_eq (hosts : List HostName) (adversary : Bool) :
    deploy hosts adversary = {
      servers := hosts.map fun host => { transport := { host := host } }
      network := { servers := hosts.mapIdx fun i host => ⟨i, host⟩ }
      adversary := adversary } := by
  rw [deploy, foldl_addServer]
  simp

/-- The names of the hosts that a network knows. -/
theorem map_hostName_mapIdx (hosts : List HostName) :
    (hosts.mapIdx fun i host => (⟨i, host⟩ : IServer)).map IServer.hostName = hosts := by
  apply List.ext_getElem?
  intro i
  rw [List.getElem?_map, List.getElem?_mapIdx, Option.map_map]
  exact Option.map_id_apply

/-- A world that was started: every server has its program as its only task. -/
theorem start_eq_ok {hosts : List HostName} {adversary : Bool} {startTime : ℕ} {w : World}
    (h : (deploy hosts adversary).start startTime = .ok w) :
    ∃ servers, w = {
        time := ⟨startTime⟩
        servers := servers
        network := ({ servers := hosts.mapIdx fun i host => ⟨i, host⟩ } : Network).buildLinks
        adversary := adversary } ∧
      ∀ i : ℕ, servers[i]? = (hosts[i]?).map fun host =>
        ({ transport := { host := host }, state := .running,
           scheduler := ({} : Scheduler Task).schedule startTime .main } : Server) := by
  rw [deploy_eq] at h
  obtain ⟨time, htime, h⟩ := Outcome.bind_eq_ok.mp h
  obtain ⟨-, rfl⟩ := Time.fastForwardTo_eq_ok.mp htime
  obtain ⟨servers, hservers, h⟩ := Outcome.bind_eq_ok.mp h
  obtain rfl := Outcome.pure_eq_ok.mp h
  refine ⟨servers, rfl, fun i => ?_⟩
  have hget := Runs.getElem?_mapM hservers i
  rw [List.getElem?_map] at hget
  cases hhost : hosts[i]? with
  | none =>
    rw [hhost] at hget
    exact hget
  | some host =>
    rw [hhost] at hget
    obtain ⟨server, hserver, hlaunch⟩ := hget
    obtain ⟨-, rfl⟩ := Server.launch_eq_ok hlaunch
    exact hserver

/-! ## What each action does -/

variable {w w' : World}

/-- A property of all servers when one of them gets a new value. -/
theorem forall_setServer {P : ℕ → Server → Prop}
    (hall : ∀ i server, w.servers[i]? = some server → P i server) {j : ℕ} {server' : Server}
    (hj : P j server') (i : ℕ) (server : Server)
    (h : (w.setServer j server').servers[i]? = some server) : P i server := by
  rw [setServer, List.getElem?_set] at h
  split at h
  · rename_i hij
    split at h
    · obtain rfl := Option.some.inj h
      rwa [← hij]
    · exact absurd h (by simp)
  · exact hall i server h

theorem getElem?_setServer {i : ℕ} {server : Server} (h : w.servers[i]? = some server)
    (server' : Server) : (w.setServer i server').servers[i]? = some server' := by
  have hlt : i < w.servers.length := (List.getElem?_eq_some_iff.mp h).1
  rw [setServer, List.getElem?_set_self hlt]

theorem getElem?_setServer_ne (w : World) {i j : ℕ} (hne : i ≠ j) (server' : Server) :
    (w.setServer i server').servers[j]? = w.servers[j]? := by
  rw [setServer, List.getElem?_set_ne hne]

theorem actor_eq_ok {i : ℕ} {server : Server} (h : w.actor = .ok (i, server)) :
    w.current = some i ∧ w.servers[i]? = some server := by
  rw [actor] at h
  split at h
  · exact absurd h (by simp)
  · rename_i i' hcurrent
    split at h
    · exact absurd h (by simp)
    · rename_i server' hserver
      obtain ⟨rfl, rfl⟩ := Prod.mk.inj (Except.ok.inj h)
      exact ⟨hcurrent, hserver⟩

theorem faultServer_eq_ok {target : ℕ} {fault : ServerFault}
    (h : w.faultServer target fault = .ok w') :
    ∃ server server', w.servers[target]? = some server ∧
      server.fault w.time.now fault = .ok server' ∧ w' = w.setServer target server' := by
  rw [faultServer] at h
  split at h
  · exact absurd h (by simp)
  · rename_i server hserver
    obtain ⟨server', hfault, h⟩ := Outcome.bind_eq_ok.mp h
    exact ⟨server, server', hserver, hfault, (Outcome.pure_eq_ok.mp h).symm⟩

/-- What the transport of the receiver does with a packet. -/
theorem handlePacket_eq_ok {delivery : Delivery} {flightTime : ℕ}
    (h : w.handlePacket delivery flightTime = .ok w') :
    ∃ server out ends, w.servers[delivery.receiver.id]? = some server ∧ delivery.out = some out ∧
      w.network.ends out = some ends ∧
      (w' = w ∨
        (∃ type payload net,
          w.network.add out (Replier.reply delivery.packet type payload) w.time.now flightTime
            = .ok net ∧ w' = { w with network := net }) ∨
        ∃ task, server.transport.handlePacket delivery.packet out ends.stop.hostName
            = .scheduled task ∧
          w' = { w.setServer delivery.receiver.id { server with
              scheduler := server.scheduler.scheduleAsap (.transport task) w.time.now } with
            accepted := w.accepted ++ [⟨delivery.receiver.id, delivery.packet, task⟩] }) := by
  rw [handlePacket] at h
  split at h
  · rename_i server out hserver hout
    split at h
    · exact absurd h (by simp)
    · rename_i ends hends
      refine ⟨server, out, ends, hserver, hout, hends, ?_⟩
      split at h
      · exact Or.inl (Except.ok.inj h).symm
      · rename_i reply hreply
        obtain ⟨type, payload, rfl⟩ := Transport.handlePacket_eq_replied hreply
        obtain ⟨net, hadd, h⟩ := Outcome.bind_eq_ok.mp h
        exact Or.inr (Or.inl ⟨type, payload, net, hadd, (Outcome.pure_eq_ok.mp h).symm⟩)
      · rename_i task htask
        exact Or.inr (Or.inr ⟨task, htask, (Except.ok.inj h).symm⟩)
  · exact absurd h (by simp)

/-- What a step does: nothing in a deadlock; else time goes on to the next actor, which
is a server that runs a task, or the network that skips or delivers a packet. -/
theorem step_eq_ok {flightTime : ℕ} (h : w.step flightTime = .ok w') :
    (w.findNextStep = .ok none ∧ w' = { w with current := none }) ∨
      ∃ next, w.findNextStep = .ok (some next) ∧ w.time.now ≤ next.time ∧
        ((∃ server task server', w.servers[next.actorIndex]? = some server ∧
            server.step = .ok (task, server') ∧
            w' = { w.setServer next.actorIndex server' with
              stepNumber := w.stepNumber + 1
              time := ⟨next.time⟩
              current := some next.actorIndex
              calls := w.calls ++ callOf server next.actorIndex task }) ∨
          (w.servers[next.actorIndex]? = none ∧ ∃ net delivery,
            w.network.step = .ok (net, delivery) ∧
            ∀ w₁, w₁ = { w with
                stepNumber := w.stepNumber + 1
                time := ⟨next.time⟩
                network := net
                current := none } →
              w' = w₁ ∨ ∃ d, delivery = some d ∧ w₁.handlePacket d flightTime = .ok w')) := by
  obtain ⟨next, hnext, h⟩ := Outcome.bind_eq_ok.mp h
  cases next with
  | none => exact Or.inl ⟨hnext, (Outcome.pure_eq_ok.mp h).symm⟩
  | some next =>
    obtain ⟨time, htime, h⟩ := Outcome.bind_eq_ok.mp h
    obtain ⟨hle, rfl⟩ := Time.fastForwardTo_eq_ok.mp htime
    refine Or.inr ⟨next, hnext, hle, ?_⟩
    dsimp only at h
    split at h
    · rename_i server hserver
      obtain ⟨⟨task, server'⟩, hstep, h⟩ := Outcome.bind_eq_ok.mp h
      exact Or.inl ⟨server, task, server', hserver, hstep, (Outcome.pure_eq_ok.mp h).symm⟩
    · rename_i hserver
      obtain ⟨⟨net, delivery⟩, hstep, h⟩ := Outcome.bind_eq_ok.mp h
      refine Or.inr ⟨hserver, net, delivery, hstep, fun w₁ hw₁ => ?_⟩
      subst hw₁
      cases delivery with
      | none => exact Or.inl (Outcome.pure_eq_ok.mp h).symm
      | some d => exact Or.inr ⟨d, rfl, h⟩

/-- The ways in which a step can end. -/
inductive Stepped (w : World) (flightTime : ℕ) : World → Prop
  | deadlock : Stepped w flightTime { w with current := none }
  | ran {t i : ℕ} {server server' : Server} {task : Task} (hserver : w.servers[i]? = some server)
      (hstep : server.step = .ok (task, server'))
      (hnext : w.findNextStep = .ok (some ⟨i, t⟩)) :
      Stepped w flightTime { w.setServer i server' with
        stepNumber := w.stepNumber + 1
        time := ⟨t⟩
        current := some i
        calls := w.calls ++ callOf server i task }
  | skipped {t : ℕ} {net : Network} (hquiet : w.network.Quiet net) :
      Stepped w flightTime { w with
        stepNumber := w.stepNumber + 1
        time := ⟨t⟩
        network := net
        current := none }
  | answered {t : ℕ} {net net' : Network} {l out : LinkId} {frame : Frame} {ends : LinkEnds}
      {type : PacketType} {payload : Message} (hquiet : w.network.Quiet net)
      (hframe : w.network.InFlight l frame) (hends : w.network.ends l = some ends)
      (hout : ends.opposite = some out)
      (hadd : net.add out (Replier.reply frame.packet type payload) t flightTime = .ok net') :
      Stepped w flightTime { w with
        stepNumber := w.stepNumber + 1
        time := ⟨t⟩
        network := net'
        current := none }
  | accepted {t : ℕ} {net : Network} {l out : LinkId} {frame : Frame} {ends : LinkEnds}
      {server : Server} {host : HostName} {task : TransportTask} (hquiet : w.network.Quiet net)
      (hframe : w.network.InFlight l frame) (hends : w.network.ends l = some ends)
      (hout : ends.opposite = some out) (hserver : w.servers[ends.stop.id]? = some server)
      (htask : server.transport.handlePacket frame.packet out host = .scheduled task) :
      Stepped w flightTime { w.setServer ends.stop.id { server with
          scheduler := server.scheduler.scheduleAsap (.transport task) t } with
        stepNumber := w.stepNumber + 1
        time := ⟨t⟩
        network := net
        current := none
        accepted := w.accepted ++ [⟨ends.stop.id, frame.packet, task⟩] }

/-- A step ends in one of these ways. -/
theorem stepped_of_execute {flightTime : ℕ} (h : w.execute (.step flightTime) = .ok w') :
    Stepped w flightTime w' := by
  rcases step_eq_ok h with ⟨-, rfl⟩ | ⟨next, hnext, -, hstep⟩
  · exact .deadlock
  · rcases hstep with ⟨server, task, server', hserver, hstep, rfl⟩ | ⟨-, net, delivery, hstep, hw⟩
    · exact .ran hserver hstep hnext
    · obtain ⟨hquiet, hdelivery⟩ := Network.quiet_step hstep
      rcases hw _ rfl with rfl | ⟨d, hd, hw⟩
      · exact .skipped hquiet
      · obtain ⟨l, frame, ends, hframe, hpacket, hends, hreceiver, hout⟩ := hdelivery d hd
        obtain ⟨server, out, ends', hserver, hout', -, hw⟩ := handlePacket_eq_ok hw
        rw [hreceiver] at hserver hw
        rw [hout] at hout'
        rw [← hpacket] at hw
        rcases hw with rfl | ⟨type, payload, net', hadd, rfl⟩ | ⟨task, htask, rfl⟩
        · exact .skipped hquiet
        · exact .answered hquiet hframe hends hout' hadd
        · exact .accepted hquiet hframe hends hout' hserver htask

theorem execute_schedule {delay id : ℕ} (h : w.execute (.schedule delay id) = .ok w') :
    ∃ i server, w.current = some i ∧ w.servers[i]? = some server ∧
      w' = w.setServer i { server with
        scheduler := server.scheduler.schedule (addTime w.time.now delay) (.user id) } := by
  obtain ⟨⟨i, server⟩, hactor, h⟩ := Outcome.bind_eq_ok.mp h
  obtain ⟨hcurrent, hserver⟩ := actor_eq_ok hactor
  exact ⟨i, server, hcurrent, hserver, (Outcome.pure_eq_ok.mp h).symm⟩

theorem execute_connectTo {address : Address} {flightTime : ℕ}
    (h : w.execute (.connectTo address flightTime) = .ok w') :
    ∃ i server socket transport net, w.current = some i ∧ w.servers[i]? = some server ∧
      server.transport.connectTo w.network address w.nextObject w.stepNumber w.time.now w.adversary
        flightTime = .ok (socket, transport, net) ∧
      w' = { w.setServer i ({ server with transport := transport }.setHandler w.nextObject
          (some (.socket (some socket)))) with
        network := net
        nextObject := w.nextObject + 1
        created := w.created ++ [socket] } := by
  obtain ⟨⟨i, server⟩, hactor, h⟩ := Outcome.bind_eq_ok.mp h
  obtain ⟨hcurrent, hserver⟩ := actor_eq_ok hactor
  obtain ⟨⟨socket, transport, net⟩, hconnect, h⟩ := Outcome.bind_eq_ok.mp h
  exact ⟨i, server, socket, transport, net, hcurrent, hserver, hconnect,
    (Outcome.pure_eq_ok.mp h).symm⟩

theorem execute_serve {port : Port} (h : w.execute (.serve port) = .ok w') :
    ∃ i server transport, w.current = some i ∧ w.servers[i]? = some server ∧
      server.transport.serve port w.nextObject w.stepNumber = .ok transport ∧
      w' = { w.setServer i ({ server with transport := transport }.setHandler w.nextObject
          (some (.server (some port)))) with
        nextObject := w.nextObject + 1 } := by
  obtain ⟨⟨i, server⟩, hactor, h⟩ := Outcome.bind_eq_ok.mp h
  obtain ⟨hcurrent, hserver⟩ := actor_eq_ok hactor
  obtain ⟨transport, hserve, h⟩ := Outcome.bind_eq_ok.mp h
  exact ⟨i, server, transport, hcurrent, hserver, hserve, (Outcome.pure_eq_ok.mp h).symm⟩

theorem execute_close {object : ObjectId} (h : w.execute (.close object) = .ok w') :
    ∃ i server server', w.current = some i ∧ w.servers[i]? = some server ∧
      server.close object = .ok server' ∧ w' = w.setServer i server' := by
  obtain ⟨⟨i, server⟩, hactor, h⟩ := Outcome.bind_eq_ok.mp h
  obtain ⟨hcurrent, hserver⟩ := actor_eq_ok hactor
  obtain ⟨server', hclose, h⟩ := Outcome.bind_eq_ok.mp h
  exact ⟨i, server, server', hcurrent, hserver, hclose, (Outcome.pure_eq_ok.mp h).symm⟩

theorem execute_destroy {object : ObjectId} (h : w.execute (.destroy object) = .ok w') :
    ∃ i server server', w.current = some i ∧ w.servers[i]? = some server ∧
      server.close object = .ok server' ∧ w' = w.setServer i (server'.setHandler object none) := by
  obtain ⟨⟨i, server⟩, hactor, h⟩ := Outcome.bind_eq_ok.mp h
  obtain ⟨hcurrent, hserver⟩ := actor_eq_ok hactor
  obtain ⟨server'', hdestroy, h⟩ := Outcome.bind_eq_ok.mp h
  obtain ⟨server', hclose, hdestroy⟩ := Outcome.bind_eq_ok.mp hdestroy
  obtain rfl := Outcome.pure_eq_ok.mp hdestroy
  exact ⟨i, server, server', hcurrent, hserver, hclose, (Outcome.pure_eq_ok.mp h).symm⟩

theorem execute_send {object : ObjectId} {message : Message} {flightTime : ℕ}
    (h : w.execute (.send object message flightTime) = .ok w') :
    ∃ i server socket net, w.current = some i ∧ w.servers[i]? = some server ∧
      server.process.handlers object = some (.socket (some socket)) ∧
      w.network.add socket.link (socket.makePacket message) w.time.now flightTime = .ok net ∧
      w' = { w with network := net } := by
  obtain ⟨⟨i, server⟩, hactor, h⟩ := Outcome.bind_eq_ok.mp h
  obtain ⟨hcurrent, hserver⟩ := actor_eq_ok hactor
  dsimp only at h
  split at h
  · rename_i socket hsocket
    obtain ⟨net, hadd, h⟩ := Outcome.bind_eq_ok.mp h
    exact ⟨i, server, socket, net, hcurrent, hserver, hsocket, hadd, (Outcome.pure_eq_ok.mp h).symm⟩
  · exact absurd h (by simp)

theorem execute_reply {index : ℕ} {message : Message} {flightTime : ℕ}
    (h : w.execute (.reply index message flightTime) = .ok w') :
    ∃ i server socket net, w.current = some i ∧ w.servers[i]? = some server ∧
      socket ∈ server.process.replies ∧
      w.network.add socket.link (socket.makePacket message) w.time.now flightTime = .ok net ∧
      w' = { w with network := net } := by
  obtain ⟨⟨i, server⟩, hactor, h⟩ := Outcome.bind_eq_ok.mp h
  obtain ⟨hcurrent, hserver⟩ := actor_eq_ok hactor
  dsimp only at h
  split at h
  · rename_i socket hsocket
    obtain ⟨net, hadd, h⟩ := Outcome.bind_eq_ok.mp h
    exact ⟨i, server, socket, net, hcurrent, hserver, List.mem_of_getElem? hsocket, hadd,
      (Outcome.pure_eq_ok.mp h).symm⟩
  · exact absurd h (by simp)

theorem execute_serverFault {target : ℕ} {fault : ServerFault}
    (h : w.execute (.serverFault target fault) = .ok w') :
    ¬ (w.current = some target ∧ (fault = .crash ∨ fault = .fastReboot)) ∧
      ∃ server server', w.servers[target]? = some server ∧
        server.fault w.time.now fault = .ok server' ∧ w' = w.setServer target server' := by
  rw [execute] at h
  split at h
  · exact absurd h (by simp)
  · rename_i hother
    exact ⟨hother, faultServer_eq_ok h⟩

theorem execute_networkFault {fault : NetworkFault}
    (h : w.execute (.networkFault fault) = .ok w') :
    ∃ net, w.network.fault w.time.now fault = .ok net ∧ w' = { w with network := net } := by
  obtain ⟨net, hfault, h⟩ := Outcome.bind_eq_ok.mp h
  exact ⟨net, hfault, (Outcome.pure_eq_ok.mp h).symm⟩

theorem execute_restartServer {target : ℕ} (h : w.execute (.restartServer target) = .ok w') :
    ∃ server server', w.servers[target]? = some server ∧
      server.fault w.time.now .fastReboot = .ok server' ∧
      w' = { w.setServer target server' with current := none } := by
  obtain ⟨w'', hfault, h⟩ := Outcome.bind_eq_ok.mp h
  obtain ⟨server, server', hserver, hreboot, rfl⟩ := faultServer_eq_ok hfault
  exact ⟨server, server', hserver, hreboot, (Outcome.pure_eq_ok.mp h).symm⟩

end World

end Whirl
