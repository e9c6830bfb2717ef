/-
# No callback after close

The transport queues a task for an endpoint, and the task calls the handler of the
endpoint later through a plain pointer.  `Close` removes the endpoint but leaves the
tasks.  In every run in which an endpoint is removed only when no other task waits for
it, each task that runs finds its endpoint, and a client socket hears nothing after a
disconnect.
-/
import WhirlMatrix.World.Connections

namespace Whirl

open Net Process

/-! ## Tasks and endpoints of one server -/

/-- The object that a task calls. -/
def Task.handler? : Task → Option ObjectId
  | .transport task => some task.handler
  | _ => none

/-- No task waits for the object. -/
def NoneFor (scheduler : Scheduler Task) (object : ObjectId) : Prop :=
  ∀ scheduled ∈ scheduler.tasks, scheduled.task.handler? ≠ some object

namespace Server

/-- An endpoint is registered for the object. -/
def Registered (server : Server) (object : ObjectId) : Prop :=
  ∃ port ts, server.transport.endpoints port = some ⟨object, ts⟩

/-- Every object that a task waits for has a registered endpoint. -/
def Attached (server : Server) : Prop :=
  ∀ scheduled ∈ server.scheduler.tasks, ∀ object, scheduled.task.handler? = some object →
    server.Registered object

variable {server server' : Server} {n : ObjectId} {object : ObjectId}

/-- There are no new tasks, and the endpoints that are waited for stay. -/
theorem Attached.mono (h : server.Attached)
    (htasks : ∀ scheduled' ∈ server'.scheduler.tasks,
      ∃ scheduled ∈ server.scheduler.tasks, scheduled.task = scheduled'.task)
    (hkept : ∀ scheduled' ∈ server'.scheduler.tasks, ∀ object,
      scheduled'.task.handler? = some object → server.Registered object →
        server'.Registered object) : server'.Attached := by
  intro scheduled' hscheduled' object hobject
  obtain ⟨scheduled, hscheduled, htask⟩ := htasks scheduled' hscheduled'
  refine hkept scheduled' hscheduled' object hobject (h scheduled hscheduled object ?_)
  rw [htask]
  exact hobject

/-- A task is added that is attached. -/
theorem Attached.schedule (h : server.Attached) {t : ℕ} {task : Task}
    (htask : ∀ object, task.handler? = some object → server.Registered object) :
    { server with scheduler := server.scheduler.schedule t task }.Attached := by
  intro scheduled hscheduled object hobject
  rcases List.mem_cons.mp hscheduled with rfl | hscheduled
  · exact htask object hobject
  · exact h scheduled hscheduled object hobject

/-- A new endpoint at a free port removes none. -/
theorem Attached.register {transport : Transport} {handler : Option Handler} {port : Port}
    {endpoint : Endpoint} (h : server.Attached) (hfree : server.transport.endpoints port = none)
    (hendpoints : transport.endpoints
      = Function.update server.transport.endpoints port (some endpoint)) :
    ({ server with transport := transport }.setHandler object handler).Attached := by
  refine h.mono (fun scheduled hscheduled => ⟨scheduled, hscheduled, rfl⟩)
    fun _ _ object' _ ⟨port', ts, he⟩ => ⟨port', ts, ?_⟩
  have hne : port' ≠ port := by
    rintro rfl
    exact absurd (hfree.symm.trans he) (by simp)
  show transport.endpoints port' = _
  rw [hendpoints, Function.update_of_ne hne, he]

/-- Closing a socket leaves the endpoints of other objects. -/
theorem Registered.close {object' : ObjectId} (h : server.Registered object')
    (hbooked : server.Booked n) (hclose : server.close object = .ok server')
    (hne : object' ≠ object) : server'.Registered object' := by
  obtain ⟨handler, hhandler, ⟨-, rfl⟩ | ⟨port, hport, rfl⟩⟩ := close_eq_ok hclose
  · exact h
  · obtain ⟨ts, hendpoint⟩ := hbooked.registered object handler port hhandler hport
    obtain ⟨port', ts', he⟩ := h
    refine ⟨port', ts', Transport.removeEndpoint_eq_some.mpr ⟨?_, he⟩⟩
    rintro rfl
    exact hne (Endpoint.mk.inj (Option.some.inj (he.symm.trans hendpoint))).1

/-- A closed socket has no endpoint. -/
theorem not_registered_of_close (hbooked : server.Booked n)
    (hclose : server.close object = .ok server') : ¬ server'.Registered object := by
  rintro ⟨port, ts, he⟩
  obtain ⟨handler, hhandler, hnone⟩ := port_of_close hclose
  obtain ⟨handler', hhandler', hport⟩ := (hbooked.close hclose).owned port _ he
  obtain rfl := Option.some.inj (hhandler.symm.trans hhandler')
  exact absurd (hnone.symm.trans hport) (by simp)

/-- A socket is closed for which no task waits. -/
theorem Attached.close (h : server.Attached) (hbooked : server.Booked n)
    (hclose : server.close object = .ok server') (hnone : NoneFor server.scheduler object) :
    server'.Attached := by
  have hshell := sameShell_close hclose
  refine h.mono (fun scheduled hscheduled => ⟨scheduled, hshell.scheduler ▸ hscheduled, rfl⟩)
    fun scheduled hscheduled object' hobject' hregistered => ?_
  refine hregistered.close hbooked hclose ?_
  rintro rfl
  rw [hshell.scheduler] at hscheduled
  exact hnone scheduled hscheduled hobject'

/-- No fault leaves a task without its endpoint: the tasks go with the endpoints. -/
theorem Attached.fault {now : ℕ} {f : ServerFault} (h : server.Attached)
    (hfault : server.fault now f = .ok server') : server'.Attached := by
  have hmain : ∀ object, Task.main.handler? = some object → server.Registered object :=
    fun object hobject => absurd hobject (by simp [Task.handler?])
  rcases fault_cases hfault with rfl | ⟨-, rfl⟩ | ⟨-, scheduler, hresume, rfl⟩ | rfl | ⟨-, rfl⟩ | rfl
  · exact h
  · exact h
  · refine h.mono (fun scheduled hscheduled => ?_) fun _ _ _ _ hregistered => hregistered
    rw [(Scheduler.tasks_of_resume hresume).mem_iff, List.mem_map] at hscheduled
    obtain ⟨scheduled', hscheduled', rfl⟩ := hscheduled
    exact ⟨scheduled', hscheduled', rfl⟩
  · intro scheduled hscheduled
    exact absurd hscheduled List.not_mem_nil
  · exact h.schedule hmain
  · intro scheduled hscheduled object hobject
    obtain rfl := List.mem_singleton.mp hscheduled
    exact absurd hobject (by simp [Task.handler?])

/-- A task of the transport closes the socket of a client that hears of a disconnect, and
changes no endpoint otherwise. -/
theorem runTransportTask_cases {task : TransportTask}
    (h : server.runTransportTask task = .ok server') :
    ((server.process.handlers task.handler).any Handler.isClient = true ∧
        (∃ host, task.callback = .disconnect host) ∧ server.close task.handler = .ok server') ∨
      (¬ ((server.process.handlers task.handler).any Handler.isClient = true ∧
          ∃ host, task.callback = .disconnect host) ∧
        server'.transport = server.transport ∧ server'.scheduler = server.scheduler) := by
  rw [runTransportTask] at h
  split at h
  · exact absurd h (by simp)
  · rename_i hcallback
    obtain rfl := Except.ok.inj h
    exact Or.inr ⟨by simp [hcallback], rfl, rfl⟩
  · rename_i hhandler hcallback
    exact Or.inl ⟨by simp [hhandler, Handler.isClient], ⟨_, hcallback⟩, h⟩
  · rename_i hhandler _
    obtain rfl := Except.ok.inj h
    exact Or.inr ⟨by simp [hhandler, Handler.isClient], rfl, rfl⟩
  · rename_i hhandler _
    obtain rfl := Except.ok.inj h
    exact Or.inr ⟨by simp [hhandler, Handler.isClient], rfl, rfl⟩

/-- A server runs a task; when this closes a socket, no other task waits for it. -/
theorem Attached.step {task : Task} (h : server.Attached) (hbooked : server.Booked n)
    (hstep : server.step = .ok (task, server'))
    (hcareful : ∀ object host scheduler,
      server.scheduler.takeNext = .ok (.transport ⟨object, .disconnect host⟩, scheduler) →
        (server.process.handlers object).any Handler.isClient = true → NoneFor scheduler object) :
    server'.Attached := by
  obtain ⟨scheduler, htake, hrun⟩ := step_eq_ok hstep
  have htaken : { server with scheduler := scheduler }.Attached :=
    h.mono (fun scheduled hscheduled => ⟨scheduled, Scheduler.mem_of_takeNext htake hscheduled, rfl⟩)
      fun _ _ _ _ hregistered => hregistered
  cases task with
  | main =>
    obtain rfl := Except.ok.inj hrun
    exact htaken
  | user id =>
    obtain rfl := Except.ok.inj hrun
    exact htaken
  | transport task =>
    rcases runTransportTask_cases hrun with ⟨hclient, ⟨host, hhost⟩, hclose⟩ | ⟨-, htransport, htasks⟩
    · obtain ⟨object, callback⟩ := task
      obtain rfl : callback = .disconnect host := hhost
      exact htaken.close (hbooked.congr rfl rfl) hclose (hcareful object host scheduler htake hclient)
    · intro scheduled hscheduled object hobject
      rw [htasks] at hscheduled
      rw [Registered, htransport]
      exact htaken scheduled hscheduled object hobject

end Server

/-- A client socket was told that its peer is gone. -/
def HandlerCall.IsDisconnect (call : HandlerCall) : Prop :=
  call.client = true ∧ ∃ host, call.task.callback = .disconnect host

namespace World

/-! ## The condition and what it is good for -/

/-- An endpoint is removed only when no other task waits for its object. -/
def Careful (w : World) : Action → Prop
  | .close object => ∀ (i : ℕ) (server : Server), w.current = some i →
      w.servers[i]? = some server → NoneFor server.scheduler object
  | .destroy object => ∀ (i : ℕ) (server : Server), w.current = some i →
      w.servers[i]? = some server → NoneFor server.scheduler object
  | .step _ => ∀ (next : NextStep) (server : Server) object host scheduler,
      w.findNextStep = .ok (some next) → w.servers[next.actorIndex]? = some server →
        server.scheduler.takeNext = .ok (.transport ⟨object, .disconnect host⟩, scheduler) →
          (server.process.handlers object).any Handler.isClient = true → NoneFor scheduler object
  | _ => True

/-- The call of a task finds an endpoint of its object: the next task of a server, if it
is one of the transport, waits for an object that has a registered endpoint. -/
def CallsRegistered (w : World) : Prop :=
  ∀ (i : ℕ) (server : Server) task scheduler, w.servers[i]? = some server →
    server.scheduler.takeNext = .ok (.transport task, scheduler) → server.Registered task.handler

/-- A client socket is not called any more after a disconnect. -/
def DisconnectsFinal (w : World) : Prop :=
  w.calls.Pairwise fun call later => call.IsDisconnect → later.server = call.server →
    later.task.handler ≠ call.task.handler

/-! ## The invariant -/

/-- Tasks are attached to endpoints, and a client socket that heard of a disconnect has
none. -/
structure Calling (w : World) : Prop where
  attached : ∀ (i : ℕ) (server : Server), w.servers[i]? = some server → server.Attached
  closed : ∀ call ∈ w.calls, call.IsDisconnect → call.task.handler < w.nextObject ∧
    ∀ server, w.servers[call.server]? = some server → ¬ server.Registered call.task.handler
  final : w.DisconnectsFinal

variable {w w' : World}

theorem Calling.callsRegistered (h : w.Calling) : w.CallsRegistered := by
  intro i server task scheduler hserver htake
  obtain ⟨t, -, hperm⟩ := Scheduler.takeNext_eq_ok htake
  exact h.attached i server hserver _ (hperm.mem_iff.mp (List.mem_cons_self ..)) _ rfl

/-- A registered object is older than the next one. -/
theorem Routed.lt_of_registered (h : w.Routed) {i : ℕ} {server : Server} {object : ObjectId}
    (hserver : w.servers[i]? = some server) (hregistered : server.Registered object) :
    object < w.nextObject := by
  obtain ⟨port, ts, he⟩ := hregistered
  obtain ⟨handler, hhandler, -⟩ := (h.booked i server hserver).owned port _ he
  exact (h.booked i server hserver).fresh _ handler hhandler

/-- A server gets a new value in which all tasks are attached, and only a new object is
registered. -/
theorem Calling.update (h : w.Calling) {i : ℕ} {server server' : Server}
    (hserver : w.servers[i]? = some server)
    (hservers : w'.servers = (w.setServer i server').servers) (hcalls : w'.calls = w.calls)
    (hnext : w.nextObject ≤ w'.nextObject) (hattached : server'.Attached)
    (hregistered : ∀ object, server'.Registered object →
      server.Registered object ∨ w.nextObject ≤ object) : w'.Calling where
  attached := by
    rw [hservers]
    exact forall_setServer h.attached hattached
  closed call hcall hdisconnect := by
    rw [hcalls] at hcall
    obtain ⟨hlt, hclosed⟩ := h.closed call hcall hdisconnect
    refine ⟨Nat.lt_of_lt_of_le hlt hnext, fun newServer hnewServer hnew => ?_⟩
    rw [hservers] at hnewServer
    rcases eq_or_ne i call.server with rfl | hne
    · rw [getElem?_setServer hserver] at hnewServer
      obtain rfl := Option.some.inj hnewServer
      rcases hregistered _ hnew with hold | hfresh
      · exact hclosed server hserver hold
      · exact absurd hlt (Nat.not_lt.mpr hfresh)
    · rw [getElem?_setServer_ne w hne] at hnewServer
      exact hclosed newServer hnewServer hnew
  final := by
    rw [DisconnectsFinal, hcalls]
    exact h.final

/-- Endpoints only go. -/
theorem registered_of_endpoints {server server' : Server} {n : ObjectId}
    (hendpoints : ∀ port e, server'.transport.endpoints port = some e →
      server.transport.endpoints port = some e) (object : ObjectId)
    (h : server'.Registered object) : server.Registered object ∨ n ≤ object := by
  obtain ⟨port, ts, he⟩ := h
  exact Or.inl ⟨port, ts, hendpoints port _ he⟩

/-- An object is registered that is as new as can be. -/
theorem registered_update {server server' : Server} {port : Port} {n : ObjectId} {ts : ℕ}
    (hendpoints : server'.transport.endpoints
      = Function.update server.transport.endpoints port (some ⟨n, ts⟩)) (object : ObjectId)
    (h : server'.Registered object) : server.Registered object ∨ n ≤ object := by
  obtain ⟨port', ts', he⟩ := h
  rw [hendpoints] at he
  rcases endpoints_update he with hold | hnew
  · exact Or.inl ⟨port', ts', hold⟩
  · exact Or.inr (Endpoint.mk.inj hnew).1.ge

/-- Only the network and the clock change. -/
theorem Calling.congr (h : w.Calling) (hservers : w'.servers = w.servers)
    (hcalls : w'.calls = w.calls) (hnext : w'.nextObject = w.nextObject) : w'.Calling where
  attached := by
    rw [hservers]
    exact h.attached
  closed := by
    rw [hcalls, hservers, hnext]
    exact h.closed
  final := by
    rw [DisconnectsFinal, hcalls]
    exact h.final

/-! ## One action -/

/-- A server runs a task with care. -/
theorem Calling.ran (h : w.Calling) (hrouted : w.Routed) {i t : ℕ} {server server' : Server}
    {task : Task} (hserver : w.servers[i]? = some server)
    (hstep : server.step = .ok (task, server'))
    (hcareful : ∀ object host scheduler,
      server.scheduler.takeNext = .ok (.transport ⟨object, .disconnect host⟩, scheduler) →
        (server.process.handlers object).any Handler.isClient = true → NoneFor scheduler object) :
    World.Calling { w.setServer i server' with
      stepNumber := w.stepNumber + 1
      time := ⟨t⟩
      current := some i
      calls := w.calls ++ callOf server i task } := by
  have hbooked := hrouted.booked i server hserver
  obtain ⟨scheduler, htake, hrun⟩ := Server.step_eq_ok hstep
  have hshell := Server.sameShell_run hrun
  have hmid : World.Calling { w.setServer i server' with
      stepNumber := w.stepNumber + 1
      time := ⟨t⟩
      current := some i } :=
    h.update hserver rfl rfl (Nat.le_refl _)
      ((h.attached i server hserver).step hbooked hstep hcareful)
      (registered_of_endpoints hshell.endpoints)
  cases task with
  | main =>
    have hcalls : w.calls ++ callOf server i .main = w.calls := List.append_nil _
    rw [hcalls]
    exact hmid
  | user id =>
    have hcalls : w.calls ++ callOf server i (.user id) = w.calls := List.append_nil _
    rw [hcalls]
    exact hmid
  | transport task =>
    have hregistered := h.callsRegistered i server task scheduler hserver htake
    refine ⟨hmid.attached, fun call hcall hdisconnect => ?_, ?_⟩
    · rcases List.mem_append.mp hcall with hcall | hcall
      · exact hmid.closed call hcall hdisconnect
      · -- the call closed the socket
        obtain rfl := List.mem_singleton.mp hcall
        refine ⟨hrouted.lt_of_registered hserver hregistered, fun newServer hnewServer => ?_⟩
        have hnewServer := (getElem?_setServer hserver server').symm.trans hnewServer
        obtain rfl := Option.some.inj hnewServer
        rcases Server.runTransportTask_cases hrun with ⟨-, -, hclose⟩ | ⟨hother, -⟩
        · have hbooked : Server.Booked { server with scheduler := scheduler } w.nextObject :=
            hbooked.congr rfl rfl
          exact Server.not_registered_of_close hbooked hclose
        · exact absurd hdisconnect hother
    · refine List.pairwise_append.mpr ⟨h.final, List.pairwise_singleton _ _, ?_⟩
      intro call hcall later hlater hdisconnect hsame heq
      obtain rfl := List.mem_singleton.mp hlater
      have hsame : i = call.server := hsame
      have heq : task.handler = call.task.handler := heq
      refine (h.closed call hcall hdisconnect).2 server ?_ ?_
      · rw [← hsame, hserver]
      · rw [← heq]
        exact hregistered

/-- **One careful action keeps the tasks attached.** -/
theorem Calling.execute {action : Action} (h : w.Calling) (hrouted : w.Routed)
    (hcareful : Careful w action) (hw : w.execute action = .ok w') : w'.Calling := by
  cases action with
  | step flightTime =>
    cases stepped_of_execute hw with
    | deadlock => exact h.congr rfl rfl rfl
    | ran hserver hstep hnext =>
      exact h.ran hrouted hserver hstep fun object host scheduler htake hclient =>
        hcareful _ _ object host scheduler hnext hserver htake hclient
    | skipped _ => exact h.congr rfl rfl rfl
    | answered _ _ _ _ _ => exact h.congr rfl rfl rfl
    | @accepted t net l out frame ends server host task _ _ _ _ hserver htask =>
      -- the endpoint that takes the packet is registered
      obtain ⟨endpoint, hendpoint, -, hhandler, -⟩ := Transport.handlePacket_eq_scheduled htask
      refine h.update hserver rfl rfl (Nat.le_refl _)
        ((h.attached _ server hserver).schedule fun object hobject => ?_)
        (registered_of_endpoints fun _ _ he => he)
      obtain rfl := Option.some.inj hobject
      exact ⟨_, endpoint.ts, by rw [hendpoint, hhandler]⟩
  | schedule delay id =>
    obtain ⟨i, server, -, hserver, rfl⟩ := execute_schedule hw
    exact h.update hserver rfl rfl (Nat.le_refl _)
      ((h.attached i server hserver).schedule fun object hobject =>
        absurd hobject (by simp [Task.handler?]))
      (registered_of_endpoints fun _ _ he => he)
  | connectTo address flightTime =>
    obtain ⟨i, server, socket, transport, net, -, hserver, hconnect, rfl⟩ := execute_connectTo hw
    obtain ⟨-, -, -, -, -, hfree, -, hendpoints, -⟩ := Transport.connectTo_spec hconnect
    exact h.update hserver rfl rfl (Nat.le_succ _)
      ((h.attached i server hserver).register hfree hendpoints) (registered_update hendpoints)
  | serve port =>
    obtain ⟨i, server, transport, -, hserver, hserve, rfl⟩ := execute_serve hw
    obtain ⟨hfree, -, hendpoints⟩ := Transport.serve_spec hserve
    exact h.update hserver rfl rfl (Nat.le_succ _)
      ((h.attached i server hserver).register hfree hendpoints) (registered_update hendpoints)
  | close object =>
    obtain ⟨i, server, server', hcurrent, hserver, hclose, rfl⟩ := execute_close hw
    exact h.update hserver rfl rfl (Nat.le_refl _)
      ((h.attached i server hserver).close (hrouted.booked i server hserver) hclose
        (hcareful i server hcurrent hserver))
      (registered_of_endpoints (Server.sameShell_close hclose).endpoints)
  | destroy object =>
    obtain ⟨i, server, server', hcurrent, hserver, hclose, rfl⟩ := execute_destroy hw
    have hattached : server'.Attached :=
      (h.attached i server hserver).close (hrouted.booked i server hserver) hclose
        (hcareful i server hcurrent hserver)
    exact h.update hserver rfl rfl (Nat.le_refl _) hattached
      (registered_of_endpoints (Server.sameShell_close hclose).endpoints)
  | send object message flightTime =>
    obtain ⟨i, server, socket, net, -, -, -, -, rfl⟩ := execute_send hw
    exact h.congr rfl rfl rfl
  | reply index message flightTime =>
    obtain ⟨i, server, socket, net, -, -, -, -, rfl⟩ := execute_reply hw
    exact h.congr rfl rfl rfl
  | serverFault target fault =>
    obtain ⟨-, server, server', hserver, hfault, rfl⟩ := execute_serverFault hw
    exact h.update hserver rfl rfl (Nat.le_refl _) ((h.attached _ server hserver).fault hfault)
      (registered_of_endpoints (endpoints_of_fault hfault))
  | networkFault fault =>
    obtain ⟨net, -, rfl⟩ := execute_networkFault hw
    exact h.congr rfl rfl rfl
  | restartServer target =>
    obtain ⟨server, server', hserver, hfault, rfl⟩ := execute_restartServer hw
    exact h.update hserver rfl rfl (Nat.le_refl _) ((h.attached _ server hserver).fault hfault)
      (registered_of_endpoints (endpoints_of_fault hfault))

/-- A world starts without tasks of a transport. -/
theorem Started.calling (h : Started w) : w.Calling := by
  obtain ⟨hosts, adversary, startTime, hstart⟩ := h
  obtain ⟨servers, rfl, hservers⟩ := start_eq_ok hstart
  refine ⟨fun i server hserver scheduled hscheduled object hobject => ?_,
    fun call hcall => absurd hcall List.not_mem_nil, List.Pairwise.nil⟩
  rw [hservers, Option.map_eq_some_iff] at hserver
  obtain ⟨host, -, rfl⟩ := hserver
  obtain rfl := List.mem_singleton.mp hscheduled
  exact absurd hobject (by simp [Task.handler?])

/-- **No callback after close.**  In every run whose actions are careful, each task of a
transport that runs finds a registered endpoint, and no client socket is called after a
disconnect. -/
theorem callsRegistered_and_disconnectsFinal {w₀ : World} (hstart : Started w₀)
    (hrun : Runs.Reaches execute Careful w₀ w) : w.CallsRegistered ∧ w.DisconnectsFinal := by
  have hinv : w.Routed ∧ w.Calling :=
    hrun.invariant (I := fun w => w.Routed ∧ w.Calling) ⟨hstart.routed, hstart.calling⟩
      fun v action v' hI hcareful hv => ⟨hI.1.execute hv, hI.2.execute hI.1 hcareful hv⟩
  exact ⟨hinv.2.callsRegistered, hinv.2.final⟩

/-! ## Two short runs -/

/-- Nothing else waits when a task is run, and no socket is closed by the user. -/
def Idle (w : World) : Action → Prop
  | .close _ => False
  | .destroy _ => False
  | .step _ => ∀ server ∈ w.servers, server.scheduler.tasks.length ≤ 1
  | _ => True

instance (w : World) (action : Action) : Decidable (Idle w action) := by
  cases action <;> unfold Idle <;> infer_instance

theorem careful_of_idle {action : Action} (h : Idle w action) : Careful w action := by
  cases action with
  | step flightTime =>
    intro next server object host scheduler _ hserver htake _ scheduled hscheduled
    obtain ⟨t, -, hperm⟩ := Scheduler.takeNext_eq_ok htake
    have hlength := h server (List.mem_of_getElem? hserver)
    rw [← hperm.length_eq, List.length_cons] at hlength
    have hpos := List.length_pos_of_mem hscheduled
    omega
  | close object => exact absurd h id
  | destroy object => exact absurd h id
  | _ => trivial

/-- A client sends a message to a port that nobody serves. -/
def disconnected : World :=
  (Runs.exec execute Idle started [.step 0, .step 0, .connectTo ⟨"Server-1", 42⟩ 5,
    .send 0 [7] 5, .step 5, .step 0, .step 0]).getD {}

/-- Its socket is told so once. -/
theorem callsRegistered_and_disconnectsFinal_disconnected :
    disconnected.calls ≠ [] ∧ disconnected.CallsRegistered ∧ disconnected.DisconnectsFinal := by
  have hstart : Started started := ⟨["Server-1", "Client-1"], false, 0, rfl⟩
  have hrun : Runs.exec execute Idle started [.step 0, .step 0, .connectTo ⟨"Server-1", 42⟩ 5,
      .send 0 [7] 5, .step 5, .step 0, .step 0] = some disconnected := rfl
  refine ⟨by decide, callsRegistered_and_disconnectsFinal hstart ?_⟩
  exact (Runs.reaches_of_exec hrun).mono fun _ _ => careful_of_idle

/-- The client sends two messages to a port that nobody serves, and is paused while both
resets come back.  After it is resumed it runs both tasks. -/
def twice : World :=
  (Runs.exec execute anyAction started [.step 0, .schedule 6 0, .schedule 20 0,
    .step 0, .connectTo ⟨"Server-1", 42⟩ 5, .send 0 [7] 5, .send 0 [8] 5, .step 5, .step 5,
    .step 0, .serverFault 1 .pause, .step 0, .step 0, .step 0, .serverFault 1 .resume,
    .step 0, .step 0]).getD {}

/-- The socket of the client is told twice that its peer is gone. -/
theorem not_disconnectsFinal_twice :
    ¬ ∀ w₀ w : World, Started w₀ → Runs.Reaches execute anyAction w₀ w →
      w.CallsRegistered ∧ w.DisconnectsFinal := by
  intro h
  have hstart : Started started := ⟨["Server-1", "Client-1"], false, 0, rfl⟩
  have hrun : Runs.exec execute anyAction started [.step 0, .schedule 6 0, .schedule 20 0,
      .step 0, .connectTo ⟨"Server-1", 42⟩ 5, .send 0 [7] 5, .send 0 [8] 5, .step 5, .step 5,
      .step 0, .serverFault 1 .pause, .step 0, .step 0, .step 0, .serverFault 1 .resume,
      .step 0, .step 0] = some twice := rfl
  obtain ⟨-, hfinal⟩ := h started twice hstart (Runs.reaches_of_exec hrun)
  have hcalls : twice.calls = [⟨1, ⟨0, .disconnect "Server-1"⟩, true⟩,
      ⟨1, ⟨0, .disconnect "Server-1"⟩, true⟩] := by decide
  rw [DisconnectsFinal, hcalls] at hfinal
  exact (List.pairwise_pair.mp hfinal) ⟨rfl, _, rfl⟩ rfl rfl

end World

end Whirl
