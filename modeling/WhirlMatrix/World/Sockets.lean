/-
# Sockets and endpoints

In every run the endpoints of a transport are those of the open sockets of its
process, and the packets of a client socket are under way on its link with its
header.  No other hypothesis is needed for that: these are the facts about a world
on which the results about connections, replies and callbacks rest.
-/
import WhirlMatrix.World.Effects

namespace Whirl

open Net Process

/-! ## Endpoints of one server -/

namespace Server

/-- The endpoints of a server are those of its open sockets, one for each, and every
object is older than the next one. -/
structure Booked (server : Server) (nextObject : ObjectId) : Prop where
  registered : ∀ object handler port, server.process.handlers object = some handler →
    handler.port = some port → ∃ ts, server.transport.endpoints port = some ⟨object, ts⟩
  owned : ∀ port e, server.transport.endpoints port = some e →
    ∃ handler, server.process.handlers e.handler = some handler ∧ handler.port = some port
  client : ∀ object socket, server.process.handlers object = some (.socket (some socket)) →
    socket.handler = object ∧
      server.transport.endpoints socket.selfPort = some ⟨object, socket.ts⟩
  fresh : ∀ object handler, server.process.handlers object = some handler → object < nextObject

variable {server server' : Server} {n : ObjectId}

theorem Booked.mono {n' : ObjectId} (h : server.Booked n) (hle : n ≤ n') : server.Booked n' :=
  ⟨h.registered, h.owned, h.client, fun object handler hobject =>
    Nat.lt_of_lt_of_le (h.fresh object handler hobject) hle⟩

/-- Only the endpoints and the handlers matter. -/
theorem Booked.congr (h : server.Booked n)
    (hendpoints : server'.transport.endpoints = server.transport.endpoints)
    (hhandlers : server'.process.handlers = server.process.handlers) : server'.Booked n := by
  constructor
  · rw [hendpoints, hhandlers]
    exact h.registered
  · rw [hendpoints, hhandlers]
    exact h.owned
  · rw [hendpoints, hhandlers]
    exact h.client
  · rw [hhandlers]
    exact h.fresh

/-- A process without objects has no endpoints. -/
theorem booked_empty (hendpoints : ∀ port, server.transport.endpoints port = none)
    (hhandlers : ∀ object, server.process.handlers object = none) : server.Booked n where
  registered object _ _ hobject := absurd hobject (by simp [hhandlers])
  owned port _ hport := absurd hport (by simp [hendpoints])
  client object _ hobject := absurd hobject (by simp [hhandlers])
  fresh object _ hobject := absurd hobject (by simp [hhandlers])

/-- A new object is registered at a free port. -/
theorem Booked.register {transport : Transport} {handler : Handler} {port : Port} {ts : ℕ}
    (h : server.Booked n) (hport : handler.port = some port)
    (hfree : server.transport.endpoints port = none)
    (hendpoints : transport.endpoints
      = Function.update server.transport.endpoints port (some ⟨n, ts⟩))
    (hclient : ∀ socket, handler = .socket (some socket) → socket.handler = n ∧ socket.ts = ts) :
    ({ server with transport := transport }.setHandler n (some handler)).Booked (n + 1) := by
  have hnew : server.process.handlers n = none := by
    by_contra hne
    obtain ⟨handler', hhandler'⟩ := Option.ne_none_iff_exists'.mp hne
    exact absurd (h.fresh n handler' hhandler') (Nat.lt_irrefl n)
  -- the other sockets have other ports
  have hother : ∀ port' e, server.transport.endpoints port' = some e →
      transport.endpoints port' = some e := by
    intro port' e he
    have hne : port' ≠ port := by
      rintro rfl
      exact absurd (hfree.symm.trans he) (by simp)
    rw [hendpoints, Function.update_of_ne hne, he]
  have hself : transport.endpoints port = some ⟨n, ts⟩ := by
    rw [hendpoints, Function.update_self]
  constructor
  · intro object handler' port' hobject hport'
    rcases setHandler_eq_some.mp hobject with ⟨rfl, hsome⟩ | ⟨-, hobject⟩
    · obtain rfl := Option.some.inj hsome
      obtain rfl := Option.some.inj (hport.symm.trans hport')
      exact ⟨ts, hself⟩
    · obtain ⟨ts', hts'⟩ := h.registered object handler' port' hobject hport'
      exact ⟨ts', hother port' _ hts'⟩
  · intro port' e he
    have he : transport.endpoints port' = some e := he
    rw [hendpoints] at he
    rcases Transport.update_eq_some.mp he with ⟨rfl, hsome⟩ | ⟨-, he⟩
    · obtain rfl := Option.some.inj hsome
      exact ⟨handler, setHandler_eq_some.mpr (Or.inl ⟨rfl, rfl⟩), hport⟩
    · obtain ⟨handler', hhandler', hport'⟩ := h.owned port' e he
      have hold : e.handler ≠ n := by
        intro heq
        rw [heq] at hhandler'
        exact absurd (hnew.symm.trans hhandler') (by simp)
      exact ⟨handler', setHandler_eq_some.mpr (Or.inr ⟨hold, hhandler'⟩), hport'⟩
  · intro object socket hobject
    rcases setHandler_eq_some.mp hobject with ⟨rfl, hsome⟩ | ⟨-, hobject⟩
    · obtain ⟨hhandler, hts⟩ := hclient socket (Option.some.inj hsome)
      rw [Option.some.inj hsome] at hport
      obtain rfl : socket.selfPort = port := Option.some.inj hport
      exact ⟨hhandler, hself.trans (by rw [hts])⟩
    · obtain ⟨hhandler, hendpoint⟩ := h.client object socket hobject
      exact ⟨hhandler, hother _ _ hendpoint⟩
  · intro object handler' hobject
    rcases setHandler_eq_some.mp hobject with ⟨rfl, -⟩ | ⟨-, hobject⟩
    · exact Nat.lt_succ_self _
    · exact Nat.lt_succ_of_lt (h.fresh object handler' hobject)

/-- Closing a socket removes its own endpoint. -/
theorem Booked.close {object : ObjectId} (h : server.Booked n)
    (hclose : server.close object = .ok server') : server'.Booked n := by
  obtain ⟨handler, hhandler, ⟨-, rfl⟩ | ⟨port, hport, rfl⟩⟩ := close_eq_ok hclose
  · exact h
  obtain ⟨ts, hendpoint⟩ := h.registered object handler port hhandler hport
  -- no other object has this port
  have hother : ∀ object' ts', object' ≠ object →
      ∀ port', server.transport.endpoints port' = some ⟨object', ts'⟩ →
        (server.transport.removeEndpoint port).endpoints port' = some ⟨object', ts'⟩ := by
    intro object' ts' hne port' he
    refine Transport.removeEndpoint_eq_some.mpr ⟨?_, he⟩
    rintro rfl
    exact hne (Endpoint.mk.inj (Option.some.inj (he.symm.trans hendpoint))).1
  constructor
  · intro object' handler' port' hobject' hport'
    rcases setHandler_eq_some.mp hobject' with ⟨-, hsome⟩ | ⟨hne, hobject'⟩
    · obtain rfl := Option.some.inj hsome
      rw [Handler.port_closed] at hport'
      exact absurd hport' (by simp)
    · obtain ⟨ts', hts'⟩ := h.registered object' handler' port' hobject' hport'
      exact ⟨ts', hother object' ts' hne port' hts'⟩
  · intro port' e he
    obtain ⟨hne, he⟩ := Transport.removeEndpoint_eq_some.mp he
    obtain ⟨handler', hhandler', hport'⟩ := h.owned port' e he
    have hne' : e.handler ≠ object := by
      intro heq
      rw [heq, hhandler] at hhandler'
      obtain rfl := Option.some.inj hhandler'
      exact hne (Option.some.inj (hport'.symm.trans hport))
    exact ⟨handler', setHandler_eq_some.mpr (Or.inr ⟨hne', hhandler'⟩), hport'⟩
  · intro object' socket hobject'
    rcases setHandler_eq_some.mp hobject' with ⟨-, hsome⟩ | ⟨hne, hobject'⟩
    · have hclosed := Handler.port_closed handler
      rw [Option.some.inj hsome] at hclosed
      exact absurd hclosed (by simp [Handler.port])
    · obtain ⟨hself, he⟩ := h.client object' socket hobject'
      exact ⟨hself, hother object' _ hne _ he⟩
  · intro object' handler' hobject'
    rcases setHandler_eq_some.mp hobject' with ⟨rfl, -⟩ | ⟨-, hobject'⟩
    · exact h.fresh object' handler hhandler
    · exact h.fresh object' handler' hobject'

/-- After `Close` the object has no port. -/
theorem port_of_close {object : ObjectId} (hclose : server.close object = .ok server') :
    ∃ handler, server'.process.handlers object = some handler ∧ handler.port = none := by
  obtain ⟨handler, hhandler, ⟨hport, rfl⟩ | ⟨port, -, rfl⟩⟩ := close_eq_ok hclose
  · exact ⟨handler, hhandler, hport⟩
  · exact ⟨handler.closed, by simp [setHandler], Handler.port_closed handler⟩

/-- An object without a port can be dropped. -/
theorem Booked.drop {object : ObjectId} {handler : Handler} (h : server.Booked n)
    (hhandler : server.process.handlers object = some handler) (hport : handler.port = none) :
    (server.setHandler object none).Booked n := by
  constructor
  · intro object' handler' port' hobject' hport'
    rcases setHandler_eq_some.mp hobject' with ⟨-, hnone⟩ | ⟨-, hobject'⟩
    · exact absurd hnone (by simp)
    · exact h.registered object' handler' port' hobject' hport'
  · intro port' e he
    obtain ⟨handler', hhandler', hport'⟩ := h.owned port' e he
    have hne : e.handler ≠ object := by
      intro heq
      rw [heq, hhandler] at hhandler'
      obtain rfl := Option.some.inj hhandler'
      exact absurd (hport.symm.trans hport') (by simp)
    exact ⟨handler', setHandler_eq_some.mpr (Or.inr ⟨hne, hhandler'⟩), hport'⟩
  · intro object' socket hobject'
    rcases setHandler_eq_some.mp hobject' with ⟨-, hnone⟩ | ⟨-, hobject'⟩
    · exact absurd hnone (by simp)
    · exact h.client object' socket hobject'
  · intro object' handler' hobject'
    rcases setHandler_eq_some.mp hobject' with ⟨-, hnone⟩ | ⟨-, hobject'⟩
    · exact absurd hnone (by simp)
    · exact h.fresh object' handler' hobject'

theorem Booked.step {task : Task} (h : server.Booked n) (hstep : server.step = .ok (task, server')) :
    server'.Booked n := by
  obtain ⟨scheduler, -, hrun⟩ := step_eq_ok hstep
  have h : { server with scheduler := scheduler }.Booked n := h.congr rfl rfl
  cases task with
  | main =>
    obtain rfl := Except.ok.inj hrun
    exact h
  | user id =>
    obtain rfl := Except.ok.inj hrun
    exact h
  | transport task =>
    obtain ⟨handler, -, rfl | ⟨-, hclose⟩ | ⟨message, back, -, rfl⟩⟩ := runTransportTask_eq_ok hrun
    · exact h
    · exact h.close hclose
    · exact h.congr rfl rfl

/-- A fault keeps the endpoints and objects, or wipes them all. -/
theorem Booked.fault {now : ℕ} {f : ServerFault} (h : server.Booked n)
    (hfault : server.fault now f = .ok server') : server'.Booked n := by
  rcases fault_cases hfault with rfl | ⟨-, rfl⟩ | ⟨-, scheduler, -, rfl⟩ | rfl | ⟨-, rfl⟩ | rfl
  · exact h
  · exact h.congr rfl rfl
  · exact h.congr rfl rfl
  · exact booked_empty (fun _ => rfl) fun _ => rfl
  · exact h.congr rfl rfl
  · exact booked_empty (fun _ => rfl) fun _ => rfl

/-! ## Operations that open nothing -/

/-- The server holds a reply socket, or a task that will hand it one. -/
def Holds (server : Server) (back : ReplySocket) : Prop :=
  back ∈ server.process.replies ∨
    ∃ scheduled ∈ server.scheduler.tasks, ∃ handler message,
      scheduled.task = .transport ⟨handler, .message message back⟩

/-- Nothing new is open in `server'`. -/
structure Shrinks (server server' : Server) : Prop where
  hostName : server'.hostName = server.hostName
  endpoints : ∀ port e, server'.transport.endpoints port = some e →
    server.transport.endpoints port = some e
  sockets : ∀ object socket, server'.process.handlers object = some (.socket (some socket)) →
    server.process.handlers object = some (.socket (some socket))
  holds : ∀ back, server'.Holds back → server.Holds back

theorem Shrinks.refl (server : Server) : Shrinks server server :=
  ⟨rfl, fun _ _ h => h, fun _ _ h => h, fun _ h => h⟩

theorem Shrinks.trans {server'' : Server} (h : Shrinks server server')
    (h' : Shrinks server' server'') : Shrinks server server'' where
  hostName := h'.hostName.trans h.hostName
  endpoints port e he := h.endpoints port e (h'.endpoints port e he)
  sockets object socket hobject := h.sockets object socket (h'.sockets object socket hobject)
  holds back hback := h.holds back (h'.holds back hback)

theorem shrinks_close {object : ObjectId} (h : server.close object = .ok server') :
    Shrinks server server' := by
  obtain ⟨handler, -, ⟨-, rfl⟩ | ⟨port, -, rfl⟩⟩ := close_eq_ok h
  · exact Shrinks.refl _
  · refine ⟨rfl, fun port' e he => (Transport.removeEndpoint_eq_some.mp he).2,
      fun object' socket hobject' => ?_, fun _ hback => hback⟩
    rcases setHandler_eq_some.mp hobject' with ⟨-, hsome⟩ | ⟨-, hold⟩
    · have hclosed := Handler.port_closed handler
      rw [Option.some.inj hsome] at hclosed
      exact absurd hclosed (by simp [Handler.port])
    · exact hold

theorem shrinks_drop (server : Server) (object : ObjectId) :
    Shrinks server (server.setHandler object none) := by
  refine ⟨rfl, fun _ _ he => he, fun object' socket hobject' => ?_, fun _ hback => hback⟩
  rcases setHandler_eq_some.mp hobject' with ⟨-, hnone⟩ | ⟨-, hold⟩
  · exact absurd hnone (by simp)
  · exact hold

theorem shrinks_schedule (server : Server) (t id : ℕ) :
    Shrinks server { server with scheduler := server.scheduler.schedule t (.user id) } := by
  refine ⟨rfl, fun _ _ he => he, fun _ _ hobject => hobject, fun back hback => ?_⟩
  rcases hback with hback | ⟨scheduled, hscheduled, handler, message, htask⟩
  · exact Or.inl hback
  · rcases List.mem_cons.mp hscheduled with rfl | hscheduled
    · exact absurd htask (by simp)
    · exact Or.inr ⟨scheduled, hscheduled, handler, message, htask⟩

/-- Running a task opens nothing: a reply socket that it hands over was in the task. -/
theorem shrinks_step {task : Task} (h : server.step = .ok (task, server')) :
    Shrinks server server' := by
  obtain ⟨scheduler, htake, hrun⟩ := step_eq_ok h
  obtain ⟨t, -, hperm⟩ := Scheduler.takeNext_eq_ok htake
  have hmem : ∀ scheduled ∈ scheduler.tasks, scheduled ∈ server.scheduler.tasks :=
    fun scheduled hscheduled => Scheduler.mem_of_takeNext htake hscheduled
  have htaken : Shrinks server { server with scheduler := scheduler } := by
    refine ⟨rfl, fun _ _ he => he, fun _ _ hobject => hobject, fun back hback => ?_⟩
    rcases hback with hback | ⟨scheduled, hscheduled, htask⟩
    · exact Or.inl hback
    · exact Or.inr ⟨scheduled, hmem scheduled hscheduled, htask⟩
  cases task with
  | main =>
    obtain rfl := Except.ok.inj hrun
    exact htaken
  | user id =>
    obtain rfl := Except.ok.inj hrun
    exact htaken
  | transport task =>
    obtain ⟨handler, -, rfl | ⟨-, hclose⟩ | ⟨message, back, hcallback, rfl⟩⟩ :=
      runTransportTask_eq_ok hrun
    · exact htaken
    · exact htaken.trans (shrinks_close hclose)
    · refine ⟨rfl, fun _ _ he => he, fun _ _ hobject => hobject, fun back' hback' => ?_⟩
      rcases hback' with hback' | ⟨scheduled, hscheduled, htask⟩
      · rcases List.mem_append.mp hback' with hback' | hback'
        · exact Or.inl hback'
        · rw [List.mem_singleton.mp hback']
          have hhead : (⟨t, .transport task⟩ : ScheduledTask Task) ∈ server.scheduler.tasks :=
            hperm.mem_iff.mp (List.mem_cons_self ..)
          exact Or.inr ⟨_, hhead, task.handler, message, by rw [← hcallback]⟩
      · exact Or.inr ⟨scheduled, hmem scheduled hscheduled, htask⟩

/-- A fault opens nothing. -/
theorem shrinks_fault {now : ℕ} {f : ServerFault} (h : server.fault now f = .ok server') :
    Shrinks server server' := by
  have hmain : ∀ (scheduler : Scheduler Task) (t : ℕ) (back : ReplySocket),
      (∃ scheduled ∈ (scheduler.schedule t .main).tasks, ∃ handler message,
        scheduled.task = .transport ⟨handler, .message message back⟩) →
      ∃ scheduled ∈ scheduler.tasks, ∃ handler message,
        scheduled.task = .transport ⟨handler, .message message back⟩ := by
    intro scheduler t back ⟨scheduled, hscheduled, handler, message, htask⟩
    rcases List.mem_cons.mp hscheduled with rfl | hscheduled
    · exact absurd htask (by simp)
    · exact ⟨scheduled, hscheduled, handler, message, htask⟩
  have hnone : ∀ port e, server.transport.reset.endpoints port = some e →
      server.transport.endpoints port = some e :=
    fun port e he => absurd he (by simp)
  rcases fault_cases h with rfl | ⟨-, rfl⟩ | ⟨-, scheduler, hresume, rfl⟩ | rfl | ⟨-, rfl⟩ | rfl
  · exact Shrinks.refl _
  · exact ⟨rfl, fun _ _ he => he, fun _ _ hobject => hobject, fun _ hback => hback⟩
  · refine ⟨rfl, fun _ _ he => he, fun _ _ hobject => hobject, fun back hback => ?_⟩
    rcases hback with hback | ⟨scheduled, hscheduled, handler, message, htask⟩
    · exact Or.inl hback
    · rw [(Scheduler.tasks_of_resume hresume).mem_iff, List.mem_map] at hscheduled
      obtain ⟨scheduled', hscheduled', rfl⟩ := hscheduled
      exact Or.inr ⟨scheduled', hscheduled', handler, message, htask⟩
  · refine ⟨rfl, hnone, fun _ _ hobject => absurd hobject (by simp), fun back hback => ?_⟩
    rcases hback with hback | ⟨scheduled, hscheduled, -⟩
    · exact absurd hback List.not_mem_nil
    · exact absurd hscheduled List.not_mem_nil
  · refine ⟨rfl, fun _ _ he => he, fun _ _ hobject => hobject, fun back hback => ?_⟩
    exact hback.imp_right (hmain _ _ back)
  · refine ⟨rfl, hnone, fun _ _ hobject => absurd hobject (by simp), fun back hback => ?_⟩
    rcases hback with hback | hback
    · exact absurd hback List.not_mem_nil
    · obtain ⟨scheduled, hscheduled, -⟩ := hmain _ _ back hback
      exact absurd hscheduled List.not_mem_nil

end Server

/-! ## Packets of client sockets -/

namespace Net

/-- The packet has the header that a client socket writes. -/
structure OfSocket (packet : Packet) (socket : ClientSocket) : Prop where
  type : packet.header.type ≠ .reset
  sourcePort : packet.header.sourcePort = socket.selfPort
  destPort : packet.header.destPort = socket.serverPort
  ts : packet.header.ts = socket.ts

theorem ofSocket_makePacket (socket : ClientSocket) (message : Message) :
    OfSocket (socket.makePacket message) socket := ⟨by simp [ClientSocket.makePacket], rfl, rfl, rfl⟩

theorem ofSocket_connectPing (socket : ClientSocket) :
    OfSocket (Transport.connectPing socket) socket := ⟨by simp [Transport.connectPing], rfl, rfl, rfl⟩

namespace Network

/-- The packets that were sent through client sockets are on the links of these sockets,
and the log shows that they came from there. -/
structure Carrying (net : Network) (created : List ClientSocket) : Prop where
  requests : ∀ l frame socket, net.InFlight l frame → frame.packet.origin = .client socket →
    socket ∈ created ∧ l = socket.link ∧ OfSocket frame.packet socket ∧ frame ∈ net.framesLog
  logged : ∀ frame ∈ net.framesLog, ∀ socket, frame.packet.origin = .client socket →
    socket ∈ created ∧ OfSocket frame.packet socket ∧
      ∃ ends, net.ends socket.link = some ends ∧ frame.header.sourceHost = ends.start.hostName

variable {net net' : Network} {created : List ClientSocket}

theorem Carrying.quiet (h : net.Carrying created) (hquiet : net.Quiet net') :
    net'.Carrying created where
  requests l frame socket hframe horigin := by
    obtain ⟨hcreated, hlink, hof, hlog⟩ :=
      h.requests l frame socket (hquiet.inFlight l frame hframe) horigin
    exact ⟨hcreated, hlink, hof, hquiet.kept frame hlog⟩
  logged frame hframe socket horigin := by
    rw [hquiet.ends]
    rcases hquiet.logged frame hframe with hframe | ⟨l, hframe⟩
    · exact h.logged frame hframe socket horigin
    · exact h.logged frame (h.requests l frame socket hframe horigin).2.2.2 socket horigin

theorem Carrying.mono {created' : List ClientSocket} (h : net.Carrying created)
    (hsub : ∀ socket ∈ created, socket ∈ created') : net.Carrying created' where
  requests l frame socket hframe horigin :=
    (h.requests l frame socket hframe horigin).imp_left (hsub socket)
  logged frame hframe socket horigin :=
    (h.logged frame hframe socket horigin).imp_left (hsub socket)

/-- A packet is sent that is one of its client socket, or an answer. -/
theorem Carrying.add {l : LinkId} {packet : Packet} {now flightTime : ℕ} (h : net.Carrying created)
    (hadd : net.add l packet now flightTime = .ok net')
    (hpacket : ∀ socket, packet.origin = .client socket →
      socket ∈ created ∧ l = socket.link ∧ OfSocket packet socket) : net'.Carrying created := by
  obtain ⟨frame, hpacket', ⟨ends, hends, hsource⟩, -, hends', hinFlight, hlog⟩ := add_spec hadd
  subst hpacket'
  have hmem : frame ∈ net'.framesLog := by
    rw [hlog]
    simp
  constructor
  · intro l' frame' socket hframe' horigin
    rcases hinFlight l' frame' hframe' with hframe' | ⟨rfl, rfl⟩
    · obtain ⟨hcreated, hlink, hof, hlog'⟩ := h.requests l' frame' socket hframe' horigin
      refine ⟨hcreated, hlink, hof, ?_⟩
      rw [hlog]
      exact List.mem_append_left _ hlog'
    · obtain ⟨hcreated, hlink, hof⟩ := hpacket socket horigin
      exact ⟨hcreated, hlink, hof, hmem⟩
  · intro frame' hframe' socket horigin
    rw [hends']
    rw [hlog] at hframe'
    rcases List.mem_append.mp hframe' with hframe' | hframe'
    · exact h.logged frame' hframe' socket horigin
    · obtain rfl := List.mem_singleton.mp hframe'
      obtain ⟨hcreated, rfl, hof⟩ := hpacket socket horigin
      exact ⟨hcreated, hof, ends, hends, hsource⟩

/-- Nothing is under way on the links that `BuildLinks` makes. -/
theorem not_inFlight_buildLinks (servers : List IServer) (l : LinkId) (frame : Frame) :
    ¬ (({ servers := servers } : Network).buildLinks).InFlight l frame := by
  rintro ⟨link, hlink, f, hf, -⟩
  rw [held_buildLinks servers link (List.mem_of_getElem? hlink)] at hf
  exact List.not_mem_nil hf

theorem carrying_buildLinks (servers : List IServer) :
    (({ servers := servers } : Network).buildLinks).Carrying [] where
  requests l frame _ hframe _ := absurd hframe (not_inFlight_buildLinks servers l frame)
  logged frame hframe _ _ := by
    rw [framesLog_buildLinks] at hframe
    exact absurd hframe List.not_mem_nil

end Network

end Net

/-! ## The whole world -/

namespace World

/-- A client socket was made by a server and leads from the host of that server. -/
def LeadsFrom (w : World) (socket : ClientSocket) (server : Server) : Prop :=
  socket ∈ w.created ∧ ∃ ends, w.network.ends socket.link = some ends ∧
    ends.start ∈ w.network.servers ∧ ends.start.hostName = server.hostName

/-- Links, endpoints, sockets and packets agree. -/
structure Routed (w : World) : Prop where
  linked : w.network.Linked
  hosts : ∀ i : ℕ, w.network.servers[i]? = (w.servers[i]?).map fun server => ⟨i, server.hostName⟩
  booked : ∀ (i : ℕ) (server : Server), w.servers[i]? = some server → server.Booked w.nextObject
  sockets : ∀ (i : ℕ) (server : Server) object socket, w.servers[i]? = some server →
    server.process.handlers object = some (.socket (some socket)) → w.LeadsFrom socket server
  numbered : ∀ socket ∈ w.created, socket.ts ≤ w.stepNumber
  carrying : w.network.Carrying w.created

variable {w w' : World}

/-- A server gets a new value and the network keeps its links. -/
theorem Routed.update (h : w.Routed) {i : ℕ} {server server' : Server}
    (hserver : w.servers[i]? = some server)
    (hservers : w'.servers = (w.setServer i server').servers)
    (hname : server'.hostName = server.hostName)
    (hnetServers : w'.network.servers = w.network.servers)
    (hends : ∀ l, w'.network.ends l = w.network.ends l)
    (hnext : w.nextObject ≤ w'.nextObject) (hbooked : server'.Booked w'.nextObject)
    (hcreated : ∀ socket ∈ w.created, socket ∈ w'.created)
    (hsockets : ∀ object socket, server'.process.handlers object = some (.socket (some socket)) →
      server.process.handlers object = some (.socket (some socket)) ∨ w'.LeadsFrom socket server)
    (hnumbered : ∀ socket ∈ w'.created, socket.ts ≤ w'.stepNumber)
    (hcarrying : w'.network.Carrying w'.created) : w'.Routed where
  linked := h.linked.congr hnetServers hends
  hosts j := by
    rw [hnetServers, hservers, h.hosts j]
    rcases eq_or_ne i j with rfl | hne
    · rw [hserver, getElem?_setServer hserver, Option.map_some, Option.map_some, hname]
    · rw [getElem?_setServer_ne w hne]
  booked := by
    rw [hservers]
    exact forall_setServer (fun j server hserver => (h.booked j server hserver).mono hnext) hbooked
  sockets := by
    have hkeep : ∀ socket server, w.LeadsFrom socket server → w'.LeadsFrom socket server := by
      intro socket server ⟨hmem, ends, hlink, hstart, hhost⟩
      exact ⟨hcreated socket hmem, ends, by rw [hends, hlink], by rwa [hnetServers], hhost⟩
    intro j server'' object socket hserver'' hobject
    rw [hservers] at hserver''
    refine forall_setServer (P := fun _ server => ∀ object socket,
      server.process.handlers object = some (.socket (some socket)) → w'.LeadsFrom socket server)
      (fun j server hserver object socket hobject =>
        hkeep _ _ (h.sockets j server object socket hserver hobject))
      (fun object socket hobject => ?_) j server'' hserver'' object socket hobject
    have hleads : w'.LeadsFrom socket server := by
      rcases hsockets object socket hobject with hold | hnew
      · exact hkeep _ _ (h.sockets i server object socket hserver hold)
      · exact hnew
    rwa [LeadsFrom, hname]
  numbered := hnumbered
  carrying := hcarrying

/-- A server gets a new value in which nothing new is open. -/
theorem Routed.shrink (h : w.Routed) {i : ℕ} {server server' : Server}
    (hserver : w.servers[i]? = some server)
    (hservers : w'.servers = (w.setServer i server').servers)
    (hshrinks : Server.Shrinks server server') (hbooked : server'.Booked w.nextObject)
    (hnetwork : w.network.Quiet w'.network) (hnext : w'.nextObject = w.nextObject)
    (hcreated : w'.created = w.created) (hstep : w.stepNumber ≤ w'.stepNumber) : w'.Routed := by
  refine h.update hserver hservers hshrinks.hostName hnetwork.servers hnetwork.ends hnext.ge
    (by rwa [hnext]) (by rw [hcreated]; exact fun _ hsocket => hsocket)
    (fun object socket hobject => Or.inl (hshrinks.sockets object socket hobject))
    (fun socket hsocket => ?_) ?_
  · rw [hcreated] at hsocket
    exact (h.numbered socket hsocket).trans hstep
  · rw [hcreated]
    exact h.carrying.quiet hnetwork

/-- Only the network changes, and it keeps its links. -/
theorem Routed.updateNetwork (h : w.Routed) (hservers : w'.servers = w.servers)
    (hnetServers : w'.network.servers = w.network.servers)
    (hends : ∀ l, w'.network.ends l = w.network.ends l) (hnext : w'.nextObject = w.nextObject)
    (hcreated : w'.created = w.created) (hstep : w.stepNumber ≤ w'.stepNumber)
    (hcarrying : w'.network.Carrying w.created) : w'.Routed where
  linked := h.linked.congr hnetServers hends
  hosts i := by rw [hnetServers, hservers, h.hosts i]
  booked := by
    rw [hservers, hnext]
    exact h.booked
  sockets i server object socket hserver hobject := by
    rw [hservers] at hserver
    obtain ⟨hmem, ends, hlink, hstart, hhost⟩ := h.sockets i server object socket hserver hobject
    exact ⟨by rwa [hcreated], ends, by rw [hends, hlink], by rwa [hnetServers], hhost⟩
  numbered socket hsocket := by
    rw [hcreated] at hsocket
    exact (h.numbered socket hsocket).trans hstep
  carrying := by rwa [hcreated]

/-- A packet is sent by the code of a user. -/
theorem Routed.send (h : w.Routed) {l : LinkId} {packet : Packet} {now flightTime : ℕ}
    {net : Network} (hadd : w.network.add l packet now flightTime = .ok net)
    (hpacket : ∀ socket, packet.origin = .client socket →
      socket ∈ w.created ∧ l = socket.link ∧ OfSocket packet socket) :
    { w with network := net }.Routed := by
  obtain ⟨_, -, -, hservers, hends, -⟩ := Network.add_spec hadd
  exact h.updateNetwork rfl hservers hends rfl rfl (Nat.le_refl _) (h.carrying.add hadd hpacket)

/-- **One action keeps everything routed.** -/
theorem Routed.execute {action : Action} (h : w.Routed) (hw : w.execute action = .ok w') :
    w'.Routed := by
  cases action with
  | step flightTime =>
    cases stepped_of_execute hw with
    | deadlock =>
      exact h.updateNetwork rfl rfl (fun _ => rfl) rfl rfl (Nat.le_refl _) h.carrying
    | ran hserver hstep =>
      exact h.shrink hserver rfl (Server.shrinks_step hstep) ((h.booked _ _ hserver).step hstep)
        (Network.Quiet.refl _) rfl rfl (Nat.le_succ _)
    | skipped hquiet =>
      exact h.updateNetwork rfl hquiet.servers hquiet.ends rfl rfl (Nat.le_succ _)
        (h.carrying.quiet hquiet)
    | answered hquiet _ _ _ hadd =>
      obtain ⟨_, -, -, hservers, hends, -⟩ := Network.add_spec hadd
      refine h.updateNetwork rfl (hservers.trans hquiet.servers)
        (fun l => (hends l).trans (hquiet.ends l)) rfl rfl (Nat.le_succ _)
        ((h.carrying.quiet hquiet).add hadd fun socket horigin => ?_)
      -- an answer is not a request
      exact absurd horigin (by simp [Replier.reply])
    | accepted hquiet _ _ _ hserver _ =>
      refine h.update hserver rfl rfl hquiet.servers hquiet.ends (Nat.le_refl _)
        ((h.booked _ _ hserver).congr rfl rfl) (fun _ hsocket => hsocket)
        (fun _ _ hobject => Or.inl hobject)
        (fun socket hsocket => Nat.le_succ_of_le (h.numbered socket hsocket))
        (h.carrying.quiet hquiet)
  | schedule delay id =>
    obtain ⟨i, server, -, hserver, rfl⟩ := execute_schedule hw
    exact h.shrink hserver rfl (Server.shrinks_schedule server _ id)
      ((h.booked i server hserver).congr rfl rfl) (Network.Quiet.refl _) rfl rfl (Nat.le_refl _)
  | connectTo address flightTime =>
    obtain ⟨i, server, socket, transport, net, -, hserver, hconnect, rfl⟩ := execute_connectTo hw
    obtain ⟨hlink, hhandler, hts, -, -, hfree, hhost, hendpoints, hnet⟩ :=
      Transport.connectTo_spec hconnect
    obtain ⟨ends, hends, hstart, -, hname, -⟩ := Network.getLink_eq_ok h.linked hlink
    have hmem : ∀ socket' ∈ w.created, socket' ∈ w.created ++ [socket] :=
      fun socket' hsocket' => List.mem_append_left _ hsocket'
    have hself : socket ∈ w.created ++ [socket] := by simp
    have hnetShape : net.servers = w.network.servers ∧ ∀ l, net.ends l = w.network.ends l := by
      rcases hnet with rfl | hadd
      · exact ⟨rfl, fun _ => rfl⟩
      · obtain ⟨_, -, -, hservers, hends, -⟩ := Network.add_spec hadd
        exact ⟨hservers, hends⟩
    have hcarrying : net.Carrying (w.created ++ [socket]) := by
      rcases hnet with rfl | hadd
      · exact h.carrying.mono hmem
      · refine (h.carrying.mono hmem).add hadd fun socket' horigin => ?_
        obtain rfl : socket = socket' := Origin.client.inj horigin
        exact ⟨hself, rfl, ofSocket_connectPing socket⟩
    refine h.update hserver rfl hhost hnetShape.1 hnetShape.2 (Nat.le_succ _)
      ((h.booked i server hserver).register rfl hfree hendpoints fun socket' hsocket' => ?_) hmem
      (fun object socket' hobject => ?_) (fun socket' hsocket' => ?_) hcarrying
    · obtain rfl := Option.some.inj (Handler.socket.inj hsocket')
      exact ⟨hhandler, hts⟩
    · rcases Server.setHandler_eq_some.mp hobject with ⟨-, hsome⟩ | ⟨-, hobject⟩
      · obtain rfl := Option.some.inj (Handler.socket.inj (Option.some.inj hsome))
        exact Or.inr ⟨hself, ends, (hnetShape.2 _).trans hends, hnetShape.1.symm ▸ hstart, hname⟩
      · exact Or.inl hobject
    · rcases List.mem_append.mp hsocket' with hsocket' | hsocket'
      · exact h.numbered socket' hsocket'
      · rw [List.mem_singleton.mp hsocket', hts]
        exact Nat.le_refl _
  | serve port =>
    obtain ⟨i, server, transport, -, hserver, hserve, rfl⟩ := execute_serve hw
    obtain ⟨hfree, hhost, hendpoints⟩ := Transport.serve_spec hserve
    refine h.update hserver rfl hhost rfl (fun _ => rfl) (Nat.le_succ _)
      ((h.booked i server hserver).register rfl hfree hendpoints fun socket hsocket =>
        absurd hsocket (by simp)) (fun _ hsocket => hsocket)
      (fun object socket hobject => ?_) h.numbered h.carrying
    rcases Server.setHandler_eq_some.mp hobject with ⟨-, hsome⟩ | ⟨-, hobject⟩
    · exact absurd hsome (by simp)
    · exact Or.inl hobject
  | close object =>
    obtain ⟨i, server, server', -, hserver, hclose, rfl⟩ := execute_close hw
    exact h.shrink hserver rfl (Server.shrinks_close hclose) ((h.booked i server hserver).close hclose)
      (Network.Quiet.refl _) rfl rfl (Nat.le_refl _)
  | destroy object =>
    obtain ⟨i, server, server', -, hserver, hclose, rfl⟩ := execute_destroy hw
    obtain ⟨handler, hhandler, hport⟩ := Server.port_of_close hclose
    exact h.shrink hserver rfl
      ((Server.shrinks_close hclose).trans (Server.shrinks_drop server' object))
      (((h.booked i server hserver).close hclose).drop hhandler hport)
      (Network.Quiet.refl _) rfl rfl (Nat.le_refl _)
  | send object message flightTime =>
    obtain ⟨i, server, socket, net, -, hserver, hobject, hadd, rfl⟩ := execute_send hw
    refine h.send hadd fun socket' horigin => ?_
    obtain rfl : socket = socket' := Origin.client.inj horigin
    exact ⟨(h.sockets i server object socket hserver hobject).1, rfl,
      ofSocket_makePacket socket message⟩
  | reply index message flightTime =>
    obtain ⟨i, server, socket, net, -, -, -, hadd, rfl⟩ := execute_reply hw
    exact h.send hadd fun socket' horigin => absurd horigin (by simp [ReplySocket.makePacket])
  | serverFault target fault =>
    obtain ⟨-, server, server', hserver, hfault, rfl⟩ := execute_serverFault hw
    exact h.shrink hserver rfl (Server.shrinks_fault hfault) ((h.booked _ _ hserver).fault hfault)
      (Network.Quiet.refl _) rfl rfl (Nat.le_refl _)
  | networkFault fault =>
    obtain ⟨net, hfault, rfl⟩ := execute_networkFault hw
    have hquiet := quiet_fault hfault
    exact h.updateNetwork rfl hquiet.servers hquiet.ends rfl rfl (Nat.le_refl _)
      (h.carrying.quiet hquiet)
  | restartServer target =>
    obtain ⟨server, server', hserver, hfault, rfl⟩ := execute_restartServer hw
    exact h.shrink hserver rfl (Server.shrinks_fault hfault) ((h.booked _ _ hserver).fault hfault)
      (Network.Quiet.refl _) rfl rfl (Nat.le_refl _)

/-- A world is routed when it starts. -/
theorem Started.routed (h : Started w) : w.Routed := by
  obtain ⟨hosts, adversary, startTime, hstart⟩ := h
  obtain ⟨servers, rfl, hservers⟩ := start_eq_ok hstart
  obtain ⟨hnetServers, hlinked⟩ := Network.linked_buildLinks (hosts.mapIdx fun i host => ⟨i, host⟩)
  have hfresh : ∀ (i : ℕ) (server : Server), servers[i]? = some server →
      (∀ port, server.transport.endpoints port = none) ∧
        ∀ object, server.process.handlers object = none := by
    intro i server hserver
    rw [hservers, Option.map_eq_some_iff] at hserver
    obtain ⟨host, -, rfl⟩ := hserver
    exact ⟨fun _ => rfl, fun _ => rfl⟩
  constructor
  · exact hlinked
  · intro i
    rw [hnetServers, hservers, List.getElem?_mapIdx, Option.map_map]
    rfl
  · intro i server hserver
    exact Server.booked_empty (hfresh i server hserver).1 (hfresh i server hserver).2
  · intro i server object socket hserver hobject
    rw [(hfresh i server hserver).2] at hobject
    exact absurd hobject (by simp)
  · intro socket hsocket
    exact absurd hsocket List.not_mem_nil
  · exact Network.carrying_buildLinks _

/-- Every state of a run is routed. -/
theorem routed_of_reaches {w₀ : World} {allowed : World → Action → Prop} (hstart : Started w₀)
    (hrun : Runs.Reaches execute allowed w₀ w) : w.Routed :=
  hrun.invariant hstart.routed fun _ _ _ hI _ hw => hI.execute hw

end World

end Whirl
