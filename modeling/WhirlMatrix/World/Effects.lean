/-
# What the code of a user can change

The effects of a step leave the clock, the step number and the records of the world
alone, except that they make sockets: every endpoint and client socket that is new
has the number of the present step as its timestamp.
-/
import WhirlMatrix.World.World

namespace Whirl

open Net Process

namespace World

/-- The endpoint at a port of the server with index `i`. -/
def endpointAt (w : World) (i : ℕ) (port : Port) : Option Endpoint :=
  (w.servers[i]?).bind fun server => server.transport.endpoints port

theorem endpointAt_eq_some {w : World} {i : ℕ} {port : Port} {e : Endpoint} :
    w.endpointAt i port = some e ↔
      ∃ server, w.servers[i]? = some server ∧ server.transport.endpoints port = some e := by
  rw [endpointAt, Option.bind_eq_some_iff]

/-- What stays the same in an effect. -/
structure EffectFrame (w w' : World) : Prop where
  time : w'.time = w.time
  stepNumber : w'.stepNumber = w.stepNumber
  current : w'.current = w.current
  accepted : w'.accepted = w.accepted
  calls : w'.calls = w.calls
  ends : ∀ l, w'.network.ends l = w.network.ends l
  kept : ∀ socket ∈ w.created, socket ∈ w'.created
  /-- New client sockets have the number of the step as their timestamp. -/
  created : ∀ socket ∈ w'.created, socket ∈ w.created ∨ socket.ts = w.stepNumber
  /-- So have new endpoints, which only a running server opens. -/
  endpoints : ∀ i port e, w'.endpointAt i port = some e →
    w.endpointAt i port = some e ∨ (w.current ≠ none ∧ e.ts = w.stepNumber)

variable {w w' : World}

/-- The endpoints of all servers when one server gets a new value. -/
theorem endpointAt_setServer {i : ℕ} {server server' : Server} {P : Endpoint → Prop}
    (hserver : w.servers[i]? = some server)
    (hservers : w'.servers = (w.setServer i server').servers)
    (hendpoints : ∀ port e, server'.transport.endpoints port = some e →
      server.transport.endpoints port = some e ∨ P e) (j : ℕ) (port : Port) (e : Endpoint)
    (he : w'.endpointAt j port = some e) : w.endpointAt j port = some e ∨ P e := by
  obtain ⟨server'', hserver'', he⟩ := endpointAt_eq_some.mp he
  rw [hservers] at hserver''
  rcases eq_or_ne i j with rfl | hne
  · rw [getElem?_setServer hserver] at hserver''
    obtain rfl := Option.some.inj hserver''
    exact (hendpoints port e he).imp_left fun h => endpointAt_eq_some.mpr ⟨server, hserver, h⟩
  · rw [getElem?_setServer_ne w hne] at hserver''
    exact Or.inl (endpointAt_eq_some.mpr ⟨server'', hserver'', he⟩)

/-- A new endpoint is registered. -/
theorem endpoints_update {endpoints : Port → Option Endpoint} {port port' : Port}
    {endpoint e : Endpoint}
    (he : Function.update endpoints port (some endpoint) port' = some e) :
    endpoints port' = some e ∨ e = endpoint := by
  rcases Transport.update_eq_some.mp he with ⟨-, hnew⟩ | ⟨-, hold⟩
  · exact Or.inr (Option.some.inj hnew).symm
  · exact Or.inl hold

/-- A server gets a new value without new endpoints, and the network keeps its links. -/
theorem effectFrame_of_shrinks {i : ℕ} {server server' : Server}
    (hserver : w.servers[i]? = some server)
    (hendpoints : ∀ port e, server'.transport.endpoints port = some e →
      server.transport.endpoints port = some e) : EffectFrame w (w.setServer i server') :=
  ⟨rfl, rfl, rfl, rfl, rfl, fun _ => rfl, fun _ h => h, fun _ hsocket => Or.inl hsocket,
    endpointAt_setServer hserver rfl fun port e he => Or.inl (hendpoints port e he)⟩

/-- Only the network changes, and it keeps its links. -/
theorem effectFrame_of_network {net : Network} (hends : ∀ l, net.ends l = w.network.ends l) :
    EffectFrame w { w with network := net } :=
  ⟨rfl, rfl, rfl, rfl, rfl, hends, fun _ h => h, fun _ hsocket => Or.inl hsocket,
    fun _ _ _ he => Or.inl he⟩

/-- The endpoints that a fault leaves were there before. -/
theorem endpoints_of_fault {server server' : Server} {now : ℕ} {f : ServerFault}
    (h : server.fault now f = .ok server') (port : Port) (e : Endpoint)
    (he : server'.transport.endpoints port = some e) : server.transport.endpoints port = some e := by
  rcases Server.fault_cases h with rfl | ⟨-, rfl⟩ | ⟨-, _, -, rfl⟩ | rfl | ⟨-, rfl⟩ | rfl
  · exact he
  · exact he
  · exact he
  · exact absurd he (by simp)
  · exact he
  · exact absurd he (by simp)

/-- A fault of the network sends nothing. -/
theorem quiet_fault {net net' : Network} {now : ℕ} {fault : NetworkFault}
    (h : net.fault now fault = .ok net') : net.Quiet net' := by
  cases fault with
  | pauseLink start stop => exact Network.quiet_pauseLink h
  | resumeLink start stop => exact Network.quiet_resumeLink h
  | split lhs => exact Network.quiet_split h
  | heal => exact Network.quiet_heal h

/-- **What an effect changes.** -/
theorem effectFrame_of_execute {action : Action} (heffect : action.isEffect = true)
    (hw : w.execute action = .ok w') : EffectFrame w w' := by
  cases action with
  | step flightTime => exact absurd heffect (by simp [Action.isEffect])
  | schedule delay id =>
    obtain ⟨i, server, -, hserver, rfl⟩ := execute_schedule hw
    exact effectFrame_of_shrinks hserver fun _ _ he => he
  | connectTo address flightTime =>
    obtain ⟨i, server, socket, transport, net, hcurrent, hserver, hconnect, rfl⟩ :=
      execute_connectTo hw
    obtain ⟨-, -, hts, -, -, -, -, hendpoints, hnet⟩ := Transport.connectTo_spec hconnect
    -- The new socket and its endpoint have the number of the step as their timestamp.
    refine ⟨rfl, rfl, rfl, rfl, rfl, ?_, fun _ h => List.mem_append_left _ h,
      fun socket' hsocket' => ?_, endpointAt_setServer hserver rfl fun port e he => ?_⟩
    · rcases hnet with rfl | hadd
      · exact fun _ => rfl
      · obtain ⟨_, -, -, -, hends, -⟩ := Network.add_spec hadd
        exact hends
    · rcases List.mem_append.mp hsocket' with hsocket' | hsocket'
      · exact Or.inl hsocket'
      · rw [List.mem_singleton.mp hsocket']
        exact Or.inr hts
    · have he : transport.endpoints port = some e := he
      rw [hendpoints] at he
      exact (endpoints_update he).imp_right fun hnew => ⟨by simp [hcurrent], by rw [hnew]⟩
  | serve port =>
    obtain ⟨i, server, transport, hcurrent, hserver, hserve, rfl⟩ := execute_serve hw
    obtain ⟨-, -, hendpoints⟩ := Transport.serve_spec hserve
    refine ⟨rfl, rfl, rfl, rfl, rfl, fun _ => rfl, fun _ h => h, fun _ hsocket => Or.inl hsocket,
      endpointAt_setServer hserver rfl fun port' e he => ?_⟩
    have he : transport.endpoints port' = some e := he
    rw [hendpoints] at he
    exact (endpoints_update he).imp_right fun hnew => ⟨by simp [hcurrent], by rw [hnew]⟩
  | close object =>
    obtain ⟨i, server, server', -, hserver, hclose, rfl⟩ := execute_close hw
    exact effectFrame_of_shrinks hserver (Server.sameShell_close hclose).endpoints
  | destroy object =>
    obtain ⟨i, server, server', -, hserver, hclose, rfl⟩ := execute_destroy hw
    exact effectFrame_of_shrinks hserver (Server.sameShell_close hclose).endpoints
  | send object message flightTime =>
    obtain ⟨i, server, socket, net, -, -, -, hadd, rfl⟩ := execute_send hw
    obtain ⟨_, -, -, -, hends, -⟩ := Network.add_spec hadd
    exact effectFrame_of_network hends
  | reply index message flightTime =>
    obtain ⟨i, server, socket, net, -, -, -, hadd, rfl⟩ := execute_reply hw
    obtain ⟨_, -, -, -, hends, -⟩ := Network.add_spec hadd
    exact effectFrame_of_network hends
  | serverFault target fault =>
    obtain ⟨-, server, server', hserver, hfault, rfl⟩ := execute_serverFault hw
    exact effectFrame_of_shrinks hserver (endpoints_of_fault hfault)
  | networkFault fault =>
    obtain ⟨net, hfault, rfl⟩ := execute_networkFault hw
    exact effectFrame_of_network (quiet_fault hfault).ends
  | restartServer target => exact absurd heffect (by simp [Action.isEffect])

/-! ## The end of a step -/

/-- What the start of a step, or a restart between two steps, does not change. -/
structure TurnFrame (w w' : World) : Prop where
  created : w'.created = w.created
  ends : ∀ l, w'.network.ends l = w.network.ends l
  stepNumber : w.stepNumber ≤ w'.stepNumber
  /-- Whoever runs now runs in a new step. -/
  current : w'.current ≠ none → w.stepNumber < w'.stepNumber
  endpoints : ∀ i port e, w'.endpointAt i port = some e → w.endpointAt i port = some e

/-- A packet was taken by an endpoint that is not newer than it. -/
structure Accepts (w : World) (a : Acceptance) : Prop where
  way : ∃ l frame ends endpoint, w.network.InFlight l frame ∧ frame.packet = a.packet ∧
    w.network.ends l = some ends ∧ ends.stop.id = a.server ∧
    w.endpointAt a.server a.packet.header.destPort = some endpoint ∧
    endpoint.ts ≤ a.packet.header.ts ∧ a.task.handler = endpoint.handler

/-- What an action does that is no effect: it opens nothing, and takes at most one
packet that was under way. -/
theorem turnFrame_of_execute {action : Action} (heffect : action.isEffect = false)
    (hw : w.execute action = .ok w') :
    TurnFrame w w' ∧ (w'.accepted = w.accepted ∨
      ∃ a, w'.accepted = w.accepted ++ [a] ∧ Accepts w a) := by
  cases action with
  | step flightTime =>
    cases stepped_of_execute hw with
    | deadlock =>
      exact ⟨⟨rfl, fun _ => rfl, Nat.le_refl _, fun h => absurd rfl h, fun _ _ _ he => he⟩,
        Or.inl rfl⟩
    | ran hserver hstep =>
      obtain ⟨_, -, hrun⟩ := Server.step_eq_ok hstep
      have hshell := Server.sameShell_run hrun
      refine ⟨⟨rfl, fun _ => rfl, Nat.le_succ _, fun _ => Nat.lt_succ_self _, fun j port e he => ?_⟩,
        Or.inl rfl⟩
      have hold := endpointAt_setServer (P := fun _ => False) hserver rfl
        (fun port e he => Or.inl (hshell.endpoints port e he)) j port e he
      exact hold.resolve_right id
    | skipped hquiet =>
      exact ⟨⟨rfl, hquiet.ends, Nat.le_succ _, fun h => absurd rfl h, fun _ _ _ he => he⟩,
        Or.inl rfl⟩
    | answered hquiet _ _ _ hadd =>
      obtain ⟨_, -, -, -, hends, -⟩ := Network.add_spec hadd
      exact ⟨⟨rfl, fun l => (hends l).trans (hquiet.ends l), Nat.le_succ _,
        fun h => absurd rfl h, fun _ _ _ he => he⟩, Or.inl rfl⟩
    | @accepted t _ l _ frame ends server _ task hquiet hframe hends _ hserver htask =>
      obtain ⟨endpoint, hendpoint, hts, hhandler, -⟩ := Transport.handlePacket_eq_scheduled htask
      refine ⟨⟨rfl, hquiet.ends, Nat.le_succ _, fun h => absurd rfl h, fun j port e he => ?_⟩,
        Or.inr ⟨_, rfl, l, frame, ends, endpoint, hframe, rfl, hends, rfl,
          endpointAt_eq_some.mpr ⟨server, hserver, hendpoint⟩, hts, hhandler⟩⟩
      -- the task does not touch the endpoints
      have hkeep : ∀ port e, ({ server with
          scheduler := server.scheduler.scheduleAsap (.transport task) t } : Server).transport.endpoints
            port = some e → server.transport.endpoints port = some e ∨ False :=
        fun port e he => Or.inl he
      exact (endpointAt_setServer hserver rfl hkeep j port e he).resolve_right id
  | restartServer target =>
    obtain ⟨server, server', hserver, hfault, rfl⟩ := execute_restartServer hw
    refine ⟨⟨rfl, fun _ => rfl, Nat.le_refl _, fun h => absurd rfl h, fun j port e he => ?_⟩,
      Or.inl rfl⟩
    have hold := endpointAt_setServer (P := fun _ => False) hserver rfl
      (fun port e he => Or.inl (endpoints_of_fault hfault port e he)) j port e he
    exact hold.resolve_right id
  | _ => exact absurd heffect (by simp [Action.isEffect])

/-- No client socket is forgotten. -/
theorem created_subset {action : Action} (hw : w.execute action = .ok w') :
    ∀ socket ∈ w.created, socket ∈ w'.created := by
  cases heffect : action.isEffect with
  | true => exact (effectFrame_of_execute heffect hw).kept
  | false =>
    rw [(turnFrame_of_execute heffect hw).1.created]
    exact fun _ h => h

/-- No link changes its ends. -/
theorem ends_execute {action : Action} (hw : w.execute action = .ok w') (l : LinkId) :
    w'.network.ends l = w.network.ends l := by
  cases heffect : action.isEffect with
  | true => exact (effectFrame_of_execute heffect hw).ends l
  | false => exact (turnFrame_of_execute heffect hw).1.ends l

/-- An action belongs to the current step, or begins the next one. -/
theorem stepNumber_le_of_execute {action : Action} (hw : w.execute action = .ok w') :
    w'.stepNumber ≤ w.stepNumber + 1 := by
  cases heffect : action.isEffect with
  | true =>
    rw [(effectFrame_of_execute heffect hw).stepNumber]
    exact Nat.le_succ _
  | false =>
    cases action with
    | step flightTime =>
      cases stepped_of_execute hw with
      | deadlock => exact Nat.le_succ _
      | ran => exact Nat.le_refl _
      | skipped => exact Nat.le_refl _
      | answered => exact Nat.le_refl _
      | accepted => exact Nat.le_refl _
    | restartServer target =>
      obtain ⟨server, server', -, -, rfl⟩ := execute_restartServer hw
      exact Nat.le_succ _
    | _ => exact absurd heffect (by simp [Action.isEffect])

/-- `world_step_number_` is exact in every run of fewer than 2^64 actions. -/
theorem stepNumber_mod_of_reachesIn {w₀ : World} {n : ℕ} {allowed : World → Action → Prop}
    (hrun : Runs.ReachesIn execute allowed n w₀ w) (hfew : w₀.stepNumber + n < 2 ^ 64) :
    w.stepNumber % 2 ^ 64 = w.stepNumber :=
  hrun.counter_mod (fun _ _ _ _ hw => stepNumber_le_of_execute hw) hfew

end World

end Whirl
