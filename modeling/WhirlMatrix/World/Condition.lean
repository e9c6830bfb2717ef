/-
# The condition of servers and links

Servers change their states and links are paused or resumed by faults alone: steps and the
other effects leave the condition of the world as it is.  A fault changes one server, and
`Network::Heal` opens all links, unless the clock is about to wrap around.
-/
import WhirlMatrix.World.Effects
import WhirlMatrix.Network.LinkEvents

namespace Whirl

open Net Process

/-! ## Healing a network -/

namespace Net.Network

variable {net net' : Network} {l : LinkId} {now : ℕ}

theorem isPaused_add {packet : Packet} {flightTime : ℕ} (h : net.add l packet now flightTime = .ok net')
    (l' : LinkId) : net'.isPaused l' = net.isPaused l' := by
  obtain ⟨link, -, rfl⟩ := add_eq_ok h
  exact isPaused_addFrame net l _ _ l'

/-- The number of overdue frames in a queue. -/
def countOverdue (frames : PriorityQueue FrameEvent) (now : ℕ) : ℕ :=
  frames.held.countP fun f => decide (f.time < now)

theorem countOverdue_le (frames : PriorityQueue FrameEvent) (now : ℕ) :
    countOverdue frames now ≤ frames.size := by
  have hsize : frames.held.length = frames.size := List.length_map _
  rw [← hsize]
  exact List.countP_le_length

/-- A frame that is sent again is not overdue any more. -/
theorem countOverdue_resend {frames frames' : PriorityQueue FrameEvent} {f : FrameEvent}
    (hextract : frames.extract = .ok (f, frames')) (hover : f.time < now) {t : ℕ} (ht : now ≤ t) :
    countOverdue (frames'.insert ⟨f.frame, t⟩) now + 1 = countOverdue frames now := by
  have hafter : ¬ t < now := Nat.not_lt.mpr ht
  rw [countOverdue, countOverdue, ← (PriorityQueue.extract_perm hextract).countP_eq,
    PriorityQueue.held_insert, List.countP_cons, List.countP_cons]
  simp [hover, hafter]

/-- The loop of `Link::Resume` ends when there are more tests than overdue frames.
Induction on the tests: a frame that is sent again is not overdue. -/
theorem exists_resumeLoop (hnow : now ≤ addTime now 1) {tests : ℕ} {link : Link}
    (hlink : net.links[l]? = some link) (hframes : link.frames.held ≠ [])
    (htests : countOverdue link.frames now < tests) :
    ∃ net', resumeLoop now l tests net = .ok net' := by
  induction tests generalizing net link with
  | zero => exact absurd htests (Nat.not_lt_zero _)
  | succ tests ih =>
    obtain ⟨f, frames, hextract⟩ := PriorityQueue.exists_extract hframes
    have hsmallest : link.frames.smallest = .ok f := PriorityQueue.smallest_eq_ok.mpr ⟨_, hextract⟩
    rw [resumeLoop, hlink]
    dsimp only
    rw [hsmallest, Outcome.ok_bind]
    split
    · rename_i hover
      rw [hextract, Outcome.ok_bind]
      apply ih (getElem?_resend hlink)
      · rw [PriorityQueue.held_insert]
        exact List.cons_ne_nil _ _
      · have hless := countOverdue_resend hextract hover hnow
        dsimp only
        omega
    · exact ⟨net, rfl⟩

theorem exists_resume (hnow : now ≤ addTime now 1) {link : Link}
    (hlink : net.links[l]? = some link) : ∃ net', net.resume l now = .ok net' := by
  rw [resume, hlink]
  dsimp only
  split
  · exact ⟨net, rfl⟩
  · split
    · exact ⟨_, rfl⟩
    · rename_i hempty
      apply exists_resumeLoop hnow (getElem?_setLink hlink _)
      · exact fun h => hempty (PriorityQueue.isEmpty_iff.mpr h)
      · exact Nat.lt_succ_of_le (countOverdue_le link.frames now)

/-- No link is paused when it is built. -/
theorem isPaused_buildLinks (servers : List IServer) (l : LinkId) :
    (({ servers := servers } : Network).buildLinks).isPaused l = false := by
  have hlinks : ∀ link ∈ (({ servers := servers } : Network).buildLinks).links,
      link.paused = false := by
    refine buildLinks_induction (P := fun net => ∀ link ∈ net.links, link.paused = false) ?_ ?_
    · intro link hlink
      simp only [List.nil_append, List.mem_flatMap, List.mem_map] at hlink
      obtain ⟨_, -, _, -, rfl⟩ := hlink
      rfl
    · intro net i j _ _ _ hnet link hlink
      obtain ⟨l, hl⟩ := List.mem_iff_getElem?.mp hlink
      rw [getElem?_setOpposite, Option.map_eq_some_iff] at hl
      obtain ⟨link', hlink', rfl⟩ := hl
      split
      · exact hnet link' (List.mem_of_getElem? hlink')
      · exact hnet link' (List.mem_of_getElem? hlink')
  rw [isPaused]
  cases hlink : (({ servers := servers } : Network).buildLinks).links[l]? with
  | none => rfl
  | some link => exact hlinks link (List.mem_of_getElem? hlink)

/-- The links have as many entries as they have ends. -/
theorem exists_link_iff : (∃ link, net.links[l]? = some link) ↔ (net.ends l).isSome = true := by
  rw [ends, Option.isSome_map, Option.isSome_iff_exists]

/-- The loop of `Heal` over some links. -/
theorem exists_resumeAll (hnow : now ≤ addTime now 1) {ls : List LinkId}
    (hls : ∀ l ∈ ls, ∃ link, net.links[l]? = some link) :
    ∃ net', ls.foldlM (fun net l => net.resume l now) net = .ok net' ∧ net.Quiet net' ∧
      ∀ l, net'.isPaused l = true ↔ net.isPaused l = true ∧ l ∉ ls := by
  induction ls generalizing net with
  | nil =>
    refine ⟨net, rfl, Quiet.refl net, ?_⟩
    simp
  | cons l ls ih =>
    obtain ⟨link, hlink⟩ := hls l (List.mem_cons_self ..)
    obtain ⟨net₁, hresume⟩ := exists_resume hnow hlink
    have hquiet := quiet_resume hresume
    have hlater : ∀ l' ∈ ls, ∃ link, net₁.links[l']? = some link := by
      intro l' hl'
      rw [exists_link_iff, hquiet.ends, ← exists_link_iff]
      exact hls l' (List.mem_cons_of_mem _ hl')
    obtain ⟨net', hrest, hquiet', hpaused⟩ := ih hlater
    refine ⟨net', ?_, hquiet.trans hquiet', ?_⟩
    · rw [List.foldlM_cons, hresume]
      exact hrest
    · intro l'
      rw [hpaused, isPaused_resume hresume]
      by_cases heq : l = l'
      · simp [heq]
      · simp [heq, Ne.symm heq]

/-- **`Heal` opens all links.** -/
theorem exists_heal (hnow : now ≤ addTime now 1) (net : Network) :
    ∃ net', net.heal now = .ok net' ∧ net.Quiet net' ∧ ∀ l, net'.isPaused l = false := by
  have hlinks : ∀ l ∈ List.range net.links.length, ∃ link, net.links[l]? = some link := by
    intro l hl
    exact ⟨_, List.getElem?_eq_getElem (List.mem_range.mp hl)⟩
  obtain ⟨net', hheal, hquiet, hpaused⟩ := exists_resumeAll hnow hlinks
  refine ⟨net', hheal, hquiet, ?_⟩
  intro l
  rw [← Bool.not_eq_true, hpaused]
  rintro ⟨hl, hnot⟩
  apply hnot
  rw [List.mem_range]
  by_contra hge
  rw [isPaused, List.getElem?_eq_none (Nat.not_lt.mp hge)] at hl
  exact absurd hl (by decide)

end Net.Network

/-! ## Faults of servers -/

/-- The checks of a fault. -/
def ServerFault.isAllowed : ServerFault → ServerState → Bool
  | .crash, state => state != .crashed
  | .launch, state => state == .initial || state == .crashed
  | _, _ => true

/-- The state that a fault leads to. -/
def ServerFault.next : ServerFault → ServerState → ServerState
  | .crash, _ => .crashed
  | .launch, _ => .running
  | .fastReboot, .paused => .running
  | .pause, .running => .paused
  | .resume, .paused => .running
  | _, state => state

/-- A fault whose checks pass does not fail. -/
theorem Server.exists_fault {server : Server} {f : ServerFault}
    (hallowed : f.isAllowed server.state = true) (now : ℕ) :
    ∃ server', server.fault now f = .ok server' ∧ server'.state = f.next server.state := by
  cases f with
  | crash => exact ⟨_, Outcome.bind_eq_ok.mpr ⟨(), Outcome.verify_eq_ok.mpr hallowed, rfl⟩, rfl⟩
  | launch => exact ⟨_, Outcome.bind_eq_ok.mpr ⟨(), Outcome.verify_eq_ok.mpr hallowed, rfl⟩, rfl⟩
  | fastReboot =>
    rw [fault, fastReboot]
    cases hstate : server.state
    case initial => exact ⟨server, by simp [isAlive, hstate], hstate⟩
    case crashed => exact ⟨server, by simp [isAlive, hstate], hstate⟩
    all_goals
      simp only [isAlive, hstate, crash, launch, verify]
      exact ⟨_, rfl, rfl⟩
  | pause =>
    refine ⟨server.pause, rfl, ?_⟩
    cases hstate : server.state <;> simp [pause, isAlive, hstate, ServerFault.next]
  | resume =>
    rw [fault, resume]
    cases hstate : server.state
    case paused =>
      obtain ⟨scheduler, hresume, -⟩ := server.scheduler.exists_resume now
      rw [hresume]
      exact ⟨_, rfl, rfl⟩
    all_goals exact ⟨server, rfl, hstate⟩

namespace World

variable {w w' : World}

/-- The state of the server with index `i`. -/
def stateAt (w : World) (i : ℕ) : Option ServerState := (w.servers[i]?).map Server.state

theorem stateAt_setServer {i : ℕ} {server : Server} (hserver : w.servers[i]? = some server)
    (server' : Server) (j : ℕ) :
    (w.setServer i server').stateAt j = if i = j then some server'.state else w.stateAt j := by
  by_cases heq : i = j
  · subst heq
    rw [stateAt, getElem?_setServer hserver, if_pos rfl]
    rfl
  · rw [stateAt, getElem?_setServer_ne w heq, if_neg heq, stateAt]

/-- A server gets a new value in the same state. -/
theorem stateAt_setServer_of_eq {i : ℕ} {server server' : Server}
    (hserver : w.servers[i]? = some server) (hstate : server'.state = server.state) (j : ℕ) :
    (w.setServer i server').stateAt j = w.stateAt j := by
  rw [stateAt_setServer hserver]
  split
  · rename_i heq
    rw [← heq, stateAt, hserver, hstate]
    rfl
  · rfl

/-- A fault of one server changes the state of that server. -/
theorem exists_faultServer {target : ℕ} {f : ServerFault} {state : ServerState}
    (hstate : w.stateAt target = some state) (hallowed : f.isAllowed state = true) :
    ∃ server', w.faultServer target f = .ok (w.setServer target server') ∧
      ∀ j, (w.setServer target server').stateAt j
        = if target = j then some (f.next state) else w.stateAt j := by
  obtain ⟨server, hserver, rfl⟩ := Option.map_eq_some_iff.mp hstate
  obtain ⟨server', hfault, hnext⟩ := Server.exists_fault hallowed w.time.now
  refine ⟨server', ?_, ?_⟩
  · rw [faultServer, hserver]
    exact Outcome.bind_eq_ok.mpr ⟨server', hfault, rfl⟩
  · intro j
    rw [stateAt_setServer hserver, hnext]

/-! ## Everything else -/

/-- Whether an action is not a fault. -/
def Action.isHarmless : Action → Bool
  | serverFault _ _ => false
  | networkFault _ => false
  | restartServer _ => false
  | _ => true

/-- The servers are in the same states, and the same links are paused. -/
structure SameCondition (w w' : World) : Prop where
  states : ∀ i, w'.stateAt i = w.stateAt i
  paused : ∀ l, w'.network.isPaused l = w.network.isPaused l
  servers : w'.network.servers = w.network.servers
  ends : ∀ l, w'.network.ends l = w.network.ends l

/-- The servers are the same, and packets were sent. -/
theorem sameCondition_of_add {net : Network} {l : LinkId} {packet : Packet} {now flightTime : ℕ}
    (hadd : w.network.add l packet now flightTime = .ok net) (hservers : w'.servers = w.servers)
    (hnet : w'.network = net) : SameCondition w w' := by
  subst hnet
  obtain ⟨-, -, -, hhosts, hends, -, -⟩ := Network.add_spec hadd
  refine ⟨fun i => ?_, Network.isPaused_add hadd, hhosts, hends⟩
  rw [stateAt, hservers, stateAt]

/-- A server gets a new value in the same state, and the network stays. -/
theorem sameCondition_of_setServer {i : ℕ} {server server' : Server}
    (hserver : w.servers[i]? = some server)
    (hservers : w'.servers = (w.setServer i server').servers) (hstate : server'.state = server.state)
    (hnet : w'.network = w.network) : SameCondition w w' := by
  refine ⟨fun j => ?_, fun l => by rw [hnet], by rw [hnet], fun l => by rw [hnet]⟩
  rw [← stateAt_setServer_of_eq hserver hstate, stateAt, hservers, stateAt]

theorem SameCondition.trans {w'' : World} (h : SameCondition w w') (h' : SameCondition w' w'') :
    SameCondition w w'' where
  states i := (h'.states i).trans (h.states i)
  paused l := (h'.paused l).trans (h.paused l)
  servers := h'.servers.trans h.servers
  ends l := (h'.ends l).trans (h.ends l)

theorem sameCondition_step {flightTime : ℕ} (hw : w.execute (.step flightTime) = .ok w') :
    SameCondition w w' := by
  obtain ⟨-, rfl⟩ | ⟨next, -, -, hstep⟩ := step_eq_ok hw
  · exact ⟨fun _ => rfl, fun _ => rfl, rfl, fun _ => rfl⟩
  · obtain ⟨server, task, server', hserver, hstep, rfl⟩ | ⟨-, net, delivery, hstep, hw⟩ := hstep
    · obtain ⟨scheduler, -, hrun⟩ := Server.step_eq_ok hstep
      exact sameCondition_of_setServer hserver rfl (Server.sameShell_run hrun).state rfl
    · obtain ⟨-, -, -, hpaused, -⟩ := Network.step_spec hstep
      obtain ⟨hquiet, -⟩ := Network.quiet_step hstep
      have hnet : SameCondition w { w with
          stepNumber := w.stepNumber + 1
          time := ⟨next.time⟩
          network := net
          current := none } := ⟨fun _ => rfl, hpaused, hquiet.servers, hquiet.ends⟩
      obtain rfl | ⟨d, -, hhandle⟩ := hw _ rfl
      · exact hnet
      · apply hnet.trans
        obtain ⟨server, out, ends, hserver, -, -, rfl | ⟨type, payload, net', hadd, rfl⟩ |
          ⟨task, -, rfl⟩⟩ := handlePacket_eq_ok hhandle
        · exact ⟨fun _ => rfl, fun _ => rfl, rfl, fun _ => rfl⟩
        · exact sameCondition_of_add hadd rfl rfl
        · exact sameCondition_of_setServer hserver rfl rfl rfl

/-- **Only faults change the condition of a world.** -/
theorem sameCondition_of_execute {action : Action} (hharmless : action.isHarmless = true)
    (hw : w.execute action = .ok w') : SameCondition w w' := by
  cases action with
  | step flightTime => exact sameCondition_step hw
  | schedule delay id =>
    obtain ⟨i, server, -, hserver, rfl⟩ := execute_schedule hw
    exact sameCondition_of_setServer hserver rfl rfl rfl
  | connectTo address flightTime =>
    obtain ⟨i, server, socket, transport, net, -, hserver, hconnect, rfl⟩ := execute_connectTo hw
    obtain ⟨-, -, -, -, -, -, -, -, hnet⟩ := Transport.connectTo_spec hconnect
    have hset : SameCondition w (w.setServer i ({ server with transport := transport }.setHandler
        w.nextObject (some (.socket (some socket))))) :=
      sameCondition_of_setServer hserver rfl rfl rfl
    apply hset.trans
    obtain rfl | hadd := hnet
    · exact ⟨fun _ => rfl, fun _ => rfl, rfl, fun _ => rfl⟩
    · exact sameCondition_of_add hadd rfl rfl
  | serve port =>
    obtain ⟨i, server, transport, -, hserver, -, rfl⟩ := execute_serve hw
    exact sameCondition_of_setServer hserver rfl rfl rfl
  | close object =>
    obtain ⟨i, server, server', -, hserver, hclose, rfl⟩ := execute_close hw
    exact sameCondition_of_setServer hserver rfl (Server.sameShell_close hclose).state rfl
  | destroy object =>
    obtain ⟨i, server, server', -, hserver, hclose, rfl⟩ := execute_destroy hw
    exact sameCondition_of_setServer hserver rfl (Server.sameShell_close hclose).state rfl
  | send object message flightTime =>
    obtain ⟨i, server, socket, net, -, -, -, hadd, rfl⟩ := execute_send hw
    exact sameCondition_of_add hadd rfl rfl
  | reply index message flightTime =>
    obtain ⟨i, server, socket, net, -, -, -, hadd, rfl⟩ := execute_reply hw
    exact sameCondition_of_add hadd rfl rfl
  | serverFault target fault => exact absurd hharmless (by simp [Action.isHarmless])
  | networkFault fault => exact absurd hharmless (by simp [Action.isHarmless])
  | restartServer target => exact absurd hharmless (by simp [Action.isHarmless])

end World

end Whirl
