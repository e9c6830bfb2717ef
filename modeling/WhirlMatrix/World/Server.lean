/-
# Servers

`Server` of `server/server.cpp`: the state of a server under faults, its scheduler,
its transport, and the objects of its process that handle sockets
(`server/runtime/net_transport.hpp`).  What user programs do is not modelled: their
calls to the runtime are the effects of the world model.
-/
import WhirlMatrix.Network.Transport
import WhirlMatrix.Process.Scheduler

namespace Whirl

open Net Process

/-! ## The process of a server -/

/-- A task of a node process. -/
inductive Task where
  /-- `MainTrampoline`. -/
  | main
  /-- A timer, or a task of the thread pool. -/
  | user (id : ℕ)
  | transport (task : TransportTask)
  deriving DecidableEq, Repr

/-- An object that implements `ISocketHandler`, with the socket that it owns or `none`
after that was closed. -/
inductive Handler where
  /-- `NetTransportSocket`. -/
  | socket (impl : Option ClientSocket)
  /-- `NetTransportServer` with the port of its `ServerSocket`. -/
  | server (impl : Option Port)
  deriving DecidableEq, Repr

namespace Handler

/-- The port of the socket, if it is open. -/
def port : Handler → Option Port
  | socket impl => impl.map ClientSocket.selfPort
  | server impl => impl

/-- The object after `Close` of its socket. -/
def closed : Handler → Handler
  | socket _ => socket none
  | server _ => server none

/-- Whether the object is a `NetTransportSocket`. -/
def isClient : Handler → Bool
  | socket _ => true
  | server _ => false

@[simp] theorem port_closed (handler : Handler) : handler.closed.port = none := by
  cases handler <;> rfl

end Handler

/-- The heap of a process: its socket handlers, and the reply sockets that user code holds. -/
structure NodeProcess where
  handlers : ObjectId → Option Handler := fun _ => none
  replies : List ReplySocket := []

/-! ## The server -/

/-- `Server::State`. -/
inductive ServerState where
  | initial
  | running
  | paused
  | crashed
  deriving DecidableEq, Repr

/-- `Server`. -/
structure Server where
  transport : Transport
  state : ServerState := .initial
  scheduler : Scheduler Task := {}
  process : NodeProcess := {}

/-- What the methods of `IFaultyServer` do to the execution of a server. -/
inductive ServerFault where
  | crash
  | launch
  | fastReboot
  | pause
  | resume
  deriving DecidableEq, Repr

namespace Server

/-- `HostName`; the transport got it from the configuration. -/
def hostName (server : Server) : HostName := server.transport.host

/-- `IsAlive`. -/
def isAlive (server : Server) : Bool := server.state == .running || server.state == .paused

/-- `Crash`. -/
def crash (server : Server) : Outcome Server := do
  verify (server.state != .crashed) "Server already crashed"
  return {
    -- remove all network endpoints
    transport := server.transport.reset
    -- drop scheduled tasks
    scheduler := server.scheduler.reset
    -- clean memory
    process := {}
    state := .crashed }

/-- `StartProcess`. -/
def startProcess (server : Server) (now : ℕ) : Server :=
  { server with scheduler := server.scheduler.schedule now .main }

/-- `Launch`. -/
def launch (server : Server) (now : ℕ) : Outcome Server := do
  verify (server.state == .initial || server.state == .crashed) "Invalid state"
  return { server.startProcess now with state := .running }

/-- `FastReboot`. -/
def fastReboot (server : Server) (now : ℕ) : Outcome Server :=
  if !server.isAlive then
    .ok server
  else do
    let server ← server.crash
    server.launch now

/-- `Pause`. -/
def pause (server : Server) : Server :=
  if !server.isAlive then
    server
  else if server.state == .paused then
    server
  else
    { server with state := .paused }

/-- `Resume`. -/
def resume (server : Server) (now : ℕ) : Outcome Server :=
  if server.state != .paused then
    .ok server
  else do
    let scheduler ← server.scheduler.resume now
    return { server with scheduler := scheduler, state := .running }

/-- One fault. -/
def fault (server : Server) (now : ℕ) : ServerFault → Outcome Server
  | .crash => server.crash
  | .launch => server.launch now
  | .fastReboot => server.fastReboot now
  | .pause => .ok server.pause
  | .resume => server.resume now

/-- `IsRunnable`. -/
def isRunnable (server : Server) : Bool := server.state == .running && !server.scheduler.isEmpty

/-- `NextStepTime`. -/
def nextStepTime (server : Server) : Outcome ℕ := server.scheduler.nextTaskTime

/-! ## Sockets of the process -/

/-- The object keeps its address and gets a new value. -/
def setHandler (server : Server) (object : ObjectId) (handler : Option Handler) : Server :=
  { server with process := { server.process with
      handlers := Function.update server.process.handlers object handler } }

/-- `Close` of the socket of an object; nothing happens when it is closed already. -/
def close (server : Server) (object : ObjectId) : Outcome Server :=
  match server.process.handlers object with
  | none => .error .undefined
  | some handler =>
    match handler.port with
    | none => .ok server
    | some port =>
      .ok ({ server with transport := server.transport.removeEndpoint port }.setHandler object
        handler.closed)

/-- Destruction of an object, which closes its socket. -/
def destroy (server : Server) (object : ObjectId) : Outcome Server := do
  let server ← server.close object
  return server.setHandler object none

/-- The call of a `TransportTask`; a call to an object that was destroyed is undefined. -/
def runTransportTask (server : Server) (task : TransportTask) : Outcome Server :=
  match server.process.handlers task.handler, task.callback with
  | none, _ => .error .undefined
  | some (.socket _), .message _ _ => .ok server
  | some (.socket _), .disconnect _ => server.close task.handler
  | some (.server _), .message _ back =>
    .ok { server with process := { server.process with
      replies := server.process.replies ++ [back] } }
  | some (.server _), .disconnect _ => .ok server

/-- `ITask::Run`, up to the code of the user. -/
def run (server : Server) : Task → Outcome Server
  | .main => .ok server
  | .user _ => .ok server
  | .transport task => server.runTransportTask task

/-- `Step`: the task that is run, and the server after it. -/
def step (server : Server) : Outcome (Task × Server) := do
  let (task, scheduler) ← server.scheduler.takeNext
  let server ← { server with scheduler := scheduler }.run task
  return (task, server)

/-! ## What the operations do -/

/-- An object of the process after one object got a new value. -/
theorem setHandler_eq_some {server : Server} {object object' : ObjectId} {entry : Option Handler}
    {handler : Handler} :
    (server.setHandler object entry).process.handlers object' = some handler ↔
      (object' = object ∧ entry = some handler) ∨
        (object' ≠ object ∧ server.process.handlers object' = some handler) :=
  Transport.update_eq_some

theorem crash_eq_ok {server server' : Server} (h : server.crash = .ok server') :
    server' = ⟨server.transport.reset, .crashed, server.scheduler.reset, {}⟩ := by
  obtain ⟨_, -, h⟩ := Outcome.bind_eq_ok.mp h
  exact (Outcome.pure_eq_ok.mp h).symm

theorem launch_eq_ok {server server' : Server} {now : ℕ} (h : server.launch now = .ok server') :
    (server.state = .initial ∨ server.state = .crashed) ∧
      server' = { server.startProcess now with state := .running } := by
  obtain ⟨_, hstate, h⟩ := Outcome.bind_eq_ok.mp h
  rw [Outcome.verify_eq_ok, Bool.or_eq_true, beq_iff_eq, beq_iff_eq] at hstate
  exact ⟨hstate, (Outcome.pure_eq_ok.mp h).symm⟩

/-- What a fault leaves of a server: it is the same server up to its state, or its
tasks are lifted to the present, or it was crashed or launched. -/
theorem fault_cases {server server' : Server} {now : ℕ} {f : ServerFault}
    (h : server.fault now f = .ok server') :
    server' = server ∨
      (server.state = .running ∧ server' = { server with state := .paused }) ∨
      (server.state = .paused ∧ ∃ scheduler, server.scheduler.resume now = .ok scheduler ∧
        server' = { server with scheduler := scheduler, state := .running }) ∨
      server' = ⟨server.transport.reset, .crashed, server.scheduler.reset, {}⟩ ∨
      ((server.state = .initial ∨ server.state = .crashed) ∧
        server' = { server.startProcess now with state := .running }) ∨
      server' = ⟨server.transport.reset, .running, server.scheduler.reset.schedule now .main, {}⟩ := by
  cases f with
  | crash =>
    right; right; right; left
    exact crash_eq_ok h
  | launch =>
    right; right; right; right; left
    exact launch_eq_ok h
  | fastReboot =>
    rw [fault, fastReboot] at h
    split at h
    · exact Or.inl (Except.ok.inj h).symm
    · obtain ⟨crashed, hcrash, h⟩ := Outcome.bind_eq_ok.mp h
      obtain ⟨-, rfl⟩ := launch_eq_ok h
      obtain rfl := crash_eq_ok hcrash
      right; right; right; right; right
      rfl
  | pause =>
    have h : server.pause = server' := Except.ok.inj h
    rw [pause] at h
    split at h
    · exact Or.inl h.symm
    · rename_i halive
      split at h
      · exact Or.inl h.symm
      · rename_i hpaused
        refine Or.inr (Or.inl ⟨?_, h.symm⟩)
        simpa [isAlive, beq_eq_false_iff_ne.mpr (fun heq => hpaused (beq_iff_eq.mpr heq))]
          using halive
  | resume =>
    rw [fault, resume] at h
    split at h
    · exact Or.inl (Except.ok.inj h).symm
    · rename_i hpaused
      obtain ⟨scheduler, hresume, h⟩ := Outcome.bind_eq_ok.mp h
      right; right; left
      refine ⟨?_, scheduler, hresume, (Outcome.pure_eq_ok.mp h).symm⟩
      simpa using hpaused

/-- What `Close` does to an object that exists. -/
theorem close_eq_ok {server server' : Server} {object : ObjectId}
    (h : server.close object = .ok server') :
    ∃ handler, server.process.handlers object = some handler ∧
      ((handler.port = none ∧ server' = server) ∨
        ∃ port, handler.port = some port ∧
          server' = { server with transport := server.transport.removeEndpoint port }.setHandler
            object handler.closed) := by
  rw [close] at h
  split at h
  · exact absurd h (by simp)
  · rename_i handler hhandler
    refine ⟨handler, hhandler, ?_⟩
    split at h
    · rename_i hport
      exact Or.inl ⟨hport, (Except.ok.inj h).symm⟩
    · rename_i port hport
      exact Or.inr ⟨port, hport, (Except.ok.inj h).symm⟩

/-- Running a transport task calls an object that exists, and closes the socket of a
client at a disconnect. -/
theorem runTransportTask_eq_ok {server server' : Server} {task : TransportTask}
    (h : server.runTransportTask task = .ok server') :
    ∃ handler, server.process.handlers task.handler = some handler ∧
      (server' = server ∨
        (handler.isClient = true ∧ server.close task.handler = .ok server') ∨
        ∃ message back, task.callback = .message message back ∧
          server' = { server with process := { server.process with
            replies := server.process.replies ++ [back] } }) := by
  rw [runTransportTask] at h
  split at h
  · exact absurd h (by simp)
  · rename_i impl message back hhandler _
    exact ⟨_, hhandler, Or.inl (Except.ok.inj h).symm⟩
  · rename_i impl host hhandler _
    exact ⟨_, hhandler, Or.inr (Or.inl ⟨rfl, h⟩)⟩
  · rename_i impl message back hhandler hcallback
    exact ⟨_, hhandler, Or.inr (Or.inr ⟨message, back, hcallback, (Except.ok.inj h).symm⟩)⟩
  · rename_i impl host hhandler _
    exact ⟨_, hhandler, Or.inl (Except.ok.inj h).symm⟩

/-- A step takes the next task and runs it. -/
theorem step_eq_ok {server server' : Server} {task : Task} (h : server.step = .ok (task, server')) :
    ∃ scheduler, server.scheduler.takeNext = .ok (task, scheduler) ∧
      { server with scheduler := scheduler }.run task = .ok server' := by
  obtain ⟨⟨task', scheduler⟩, htake, h⟩ := Outcome.bind_eq_ok.mp h
  obtain ⟨server'', hrun, h⟩ := Outcome.bind_eq_ok.mp h
  obtain ⟨rfl, rfl⟩ := Prod.mk.inj (Outcome.pure_eq_ok.mp h)
  exact ⟨scheduler, htake, hrun⟩

/-- What stays the same when sockets are closed and handlers are called. -/
structure SameShell (server server' : Server) : Prop where
  state : server'.state = server.state
  scheduler : server'.scheduler = server.scheduler
  hostName : server'.hostName = server.hostName
  endpoints : ∀ port e, server'.transport.endpoints port = some e →
    server.transport.endpoints port = some e

theorem SameShell.refl (server : Server) : SameShell server server := ⟨rfl, rfl, rfl, fun _ _ h => h⟩

theorem sameShell_close {server server' : Server} {object : ObjectId}
    (h : server.close object = .ok server') : SameShell server server' := by
  obtain ⟨handler, -, ⟨-, rfl⟩ | ⟨port, -, rfl⟩⟩ := close_eq_ok h
  · exact SameShell.refl _
  · exact ⟨rfl, rfl, rfl, fun port' e he => (Transport.removeEndpoint_eq_some.mp he).2⟩

theorem sameShell_run {server server' : Server} {task : Task}
    (h : server.run task = .ok server') : SameShell server server' := by
  cases task with
  | main =>
    obtain rfl : server = server' := Except.ok.inj h
    exact SameShell.refl _
  | user id =>
    obtain rfl : server = server' := Except.ok.inj h
    exact SameShell.refl _
  | transport task =>
    obtain ⟨handler, -, rfl | ⟨-, hclose⟩ | ⟨message, back, -, rfl⟩⟩ := runTransportTask_eq_ok h
    · exact SameShell.refl _
    · exact sameShell_close hclose
    · exact ⟨rfl, rfl, rfl, fun _ _ he => he⟩

end Server

end Whirl
