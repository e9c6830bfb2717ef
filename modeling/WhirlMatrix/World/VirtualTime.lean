/-
# Virtual time

In every run of a world, whatever its programs do and whatever faults are injected,
no runnable actor is behind the clock.  So the check of `Time::FastForwardTo` never
fails, time never runs backwards, and each step runs the first of the actors whose
time is next.
-/
import WhirlMatrix.Network.LinkEvents
import WhirlMatrix.World.Effects

namespace Whirl

open Net Process

/-! ## The network -/

namespace Net.Network

/-- No pending event is behind the clock. -/
def OnTime (net : Network) (now : ℕ) : Prop := ∀ e ∈ net.events.held, now ≤ e.time

variable {net net' : Network} {now : ℕ}

theorem onTime_iff : net.OnTime now ↔ ∀ l t, t < now → net.awaited l t = 0 := by
  constructor
  · intro h l t ht
    by_contra hne
    obtain ⟨e, he, -, rfl⟩ := exists_event_of_awaited_pos (Nat.pos_of_ne_zero hne)
    have := h e he
    omega
  · intro h e he
    by_contra hlt
    have hzero := h e.link e.time (Nat.not_le.mp hlt)
    have hpos := awaited_pos he
    omega

theorem OnTime.add {l : LinkId} {packet : Packet} {flightTime : ℕ} (h : net.OnTime now)
    (hadd : net.add l packet now flightTime = .ok net') (hle : now ≤ addTime now flightTime) :
    net'.OnTime now := by
  obtain ⟨link, -, rfl⟩ := add_eq_ok hadd
  intro e he
  rcases List.mem_cons.mp he with rfl | he
  · exact hle
  · exact h e he

theorem OnTime.pause {l : LinkId} (h : net.OnTime now) (hpause : net.pause l = .ok net') :
    net'.OnTime now := by
  obtain ⟨link, -, -, rfl⟩ := pause_eq_ok hpause
  exact h

/-- Overdue frames get wake-ups in the future. -/
theorem OnTime.resume {l : LinkId} (h : net.OnTime now) (hresume : net.resume l now = .ok net') :
    net'.OnTime now := by
  cases hp : net.isPaused l with
  | false => rwa [resume_of_open hresume hp]
  | true =>
    obtain ⟨k, -, hawaited, -⟩ := resume_spec hresume hp
    rw [onTime_iff] at h ⊢
    intro l' t ht
    rw [hawaited, h l' t ht]
    have hne : now + 1 ≠ t := by omega
    simp [hne]

theorem OnTime.fault {f : World.NetworkFault} (h : net.OnTime now)
    (hfault : net.fault now f = .ok net') : net'.OnTime now := by
  cases f with
  | pauseLink start stop =>
    obtain ⟨l, -, hfault⟩ := Outcome.bind_eq_ok.mp hfault
    exact h.pause hfault
  | resumeLink start stop =>
    obtain ⟨l, -, hfault⟩ := Outcome.bind_eq_ok.mp hfault
    exact h.resume hfault
  | split lhs =>
    exact split_induction (I := fun net => net.OnTime now) hfault h
      fun _ _ _ h hpause => h.pause hpause
  | heal =>
    exact heal_induction (I := fun net => net.OnTime now) hfault h
      fun _ _ _ h hresume => h.resume hresume

/-- A step only takes a wake-up away. -/
theorem OnTime.step {delivery : Option Delivery} (h : net.OnTime now)
    (hstep : net.step = .ok (net', delivery)) : net'.OnTime now := by
  obtain ⟨e, -, hperm, -⟩ := step_spec hstep
  exact fun e' he' => h e' (hperm.mem_iff.mp (List.mem_cons_of_mem _ he'))

/-- A network with an event has a next time, and is on time then. -/
theorem exists_nextStepTime (h : net.isRunnable = true) :
    ∃ t, net.nextStepTime = .ok t ∧ net.OnTime t ∧ ∀ now, net.OnTime now → now ≤ t := by
  have hheld : net.events.held ≠ [] := by
    intro hempty
    rw [isRunnable, PriorityQueue.isEmpty_iff.mpr hempty] at h
    exact absurd h (by simp)
  obtain ⟨e, he⟩ := PriorityQueue.exists_smallest hheld
  have hnext : net.nextStepTime = .ok e.time := Outcome.bind_eq_ok.mpr ⟨e, he, rfl⟩
  exact ⟨e.time, hnext, (nextStepTime_eq_ok hnext).1,
    fun now hnow => hnow e (PriorityQueue.mem_of_smallest he)⟩

end Net.Network

/-! ## Servers -/

namespace Server

/-- A server without a process has neither tasks nor endpoints. -/
def Dormant (server : Server) : Prop :=
  server.isAlive = false →
    server.scheduler.tasks = [] ∧ ∀ port, server.transport.endpoints port = none

/-- A running server has no task behind the clock, and a server without a process has
neither tasks nor endpoints. -/
structure OnTime (server : Server) (now : ℕ) : Prop where
  running : server.state = .running → ∀ task ∈ server.scheduler.tasks, now ≤ task.atTime
  dead : server.isAlive = false →
    server.scheduler.tasks = [] ∧ ∀ port, server.transport.endpoints port = none

variable {server server' : Server} {now : ℕ}

theorem isAlive_of_running (h : server.state = .running) : server.isAlive = true := by
  rw [isAlive, h]
  rfl

theorem dormant_of_isAlive (h : server.isAlive = true) : server.Dormant := by
  intro hdead
  rw [h] at hdead
  exact absurd hdead (by decide)

/-- A server that accepts a packet has a process. -/
theorem Dormant.isAlive_of_scheduled {packet : Packet} {out : LinkId} {host : HostName}
    {task : TransportTask} (h : server.Dormant)
    (htask : server.transport.handlePacket packet out host = .scheduled task) :
    server.isAlive = true := by
  by_contra hdead
  obtain ⟨endpoint, hendpoint, -⟩ := Transport.handlePacket_eq_scheduled htask
  rw [(h (Bool.not_eq_true _ ▸ hdead)).2] at hendpoint
  exact absurd hendpoint (by simp)

/-- After every fault a server has a process, or has nothing that needs one. -/
theorem Dormant.fault {f : ServerFault} (h : server.Dormant)
    (hfault : server.fault now f = .ok server') : server'.Dormant := by
  rcases fault_cases hfault with rfl | ⟨-, rfl⟩ | ⟨-, scheduler, -, rfl⟩ | rfl | ⟨-, rfl⟩ | rfl
  · exact h
  · exact dormant_of_isAlive rfl
  · exact dormant_of_isAlive rfl
  · exact fun _ => ⟨rfl, fun _ => rfl⟩
  · exact dormant_of_isAlive rfl
  · exact dormant_of_isAlive rfl

/-- A task is scheduled on a live server, at a time that is not behind. -/
theorem OnTime.schedule {t : ℕ} {task : Task} (h : server.OnTime now) (hle : now ≤ t)
    (halive : server.isAlive = true) :
    { server with scheduler := server.scheduler.schedule t task }.OnTime now where
  running hrunning task' htask' := by
    rcases List.mem_cons.mp htask' with rfl | htask'
    · exact hle
    · exact h.running hrunning task' htask'
  dead := dormant_of_isAlive halive

/-- Another transport or process of a live server. -/
theorem OnTime.of_alive (h : server.OnTime now) (hstate : server'.state = server.state)
    (hscheduler : server'.scheduler = server.scheduler) (halive : server.isAlive = true) :
    server'.OnTime now where
  running hrunning := by
    rw [hscheduler]
    exact h.running (hstate ▸ hrunning)
  dead := by
    refine dormant_of_isAlive ?_
    rw [isAlive, hstate]
    exact halive

/-- Every fault keeps a server on time; a resume lifts the tasks that have become overdue. -/
theorem OnTime.fault {f : ServerFault} (h : server.OnTime now)
    (hfault : server.fault now f = .ok server') : server'.OnTime now := by
  have hdormant : server.Dormant := h.dead
  refine ⟨fun hrunning task htask => ?_, hdormant.fault hfault⟩
  rcases fault_cases hfault with rfl | ⟨-, rfl⟩ | ⟨-, scheduler, hresume, rfl⟩ | rfl | ⟨hstate, rfl⟩ |
    rfl
  · exact h.running hrunning task htask
  · -- a paused server may fall behind
    exact absurd hrunning (by simp)
  · rw [(Scheduler.tasks_of_resume hresume).mem_iff, List.mem_map] at htask
    obtain ⟨task', -, rfl⟩ := htask
    exact Nat.le_max_right _ _
  · exact absurd hrunning (by simp)
  · -- the queue of a server without a process is empty
    have hdead : server.isAlive = false := by
      rcases hstate with hstate | hstate <;> rw [isAlive, hstate] <;> rfl
    rcases List.mem_cons.mp htask with rfl | htask
    · exact Nat.le_refl now
    · have hnil := (h.dead hdead).1
      have htask : task ∈ server.scheduler.tasks := htask
      rw [hnil] at htask
      exact absurd htask List.not_mem_nil
  · rcases List.mem_cons.mp htask with rfl | htask
    · exact Nat.le_refl now
    · exact absurd htask List.not_mem_nil

/-- A server that is not wiped keeps its process. -/
theorem isAlive_fault {f : ServerFault} (halive : server.isAlive = true)
    (hf : ¬ (f = .crash ∨ f = .fastReboot)) (hfault : server.fault now f = .ok server') :
    server'.isAlive = true := by
  cases f with
  | crash => exact absurd (Or.inl rfl) hf
  | fastReboot => exact absurd (Or.inr rfl) hf
  | launch =>
    obtain ⟨-, rfl⟩ := launch_eq_ok hfault
    rfl
  | pause =>
    obtain rfl : server.pause = server' := Except.ok.inj hfault
    rw [pause, halive, Bool.not_true, if_neg (by simp)]
    split
    · exact halive
    · rfl
  | resume =>
    rw [fault, resume] at hfault
    split at hfault
    · obtain rfl := Except.ok.inj hfault
      exact halive
    · obtain ⟨scheduler, -, hfault⟩ := Outcome.bind_eq_ok.mp hfault
      obtain rfl := Outcome.pure_eq_ok.mp hfault
      rfl

/-- A step of a running server takes a task away. -/
theorem OnTime.step {task : Task} (h : server.OnTime now) (hrunning : server.state = .running)
    (hstep : server.step = .ok (task, server')) :
    server'.OnTime now ∧ server'.isAlive = true := by
  obtain ⟨scheduler, htake, hrun⟩ := step_eq_ok hstep
  have hshell := sameShell_run hrun
  have halive : server'.isAlive = true := isAlive_of_running (hshell.state.trans hrunning)
  refine ⟨⟨fun _ task' htask' => ?_, dormant_of_isAlive halive⟩, halive⟩
  rw [hshell.scheduler] at htask'
  exact h.running hrunning task' (Scheduler.mem_of_takeNext htake htask')

/-- Only a running server is runnable; its next time is not behind. -/
theorem exists_nextStepTime (h : server.isRunnable = true) :
    server.state = .running ∧ ∃ t, server.nextStepTime = .ok t ∧
      (∀ task ∈ server.scheduler.tasks, t ≤ task.atTime) ∧
      ∀ now, server.OnTime now → now ≤ t := by
  rw [isRunnable, Bool.and_eq_true, beq_iff_eq, Bool.not_eq_true'] at h
  obtain ⟨hrunning, hempty⟩ := h
  obtain ⟨t, ht⟩ := Scheduler.exists_nextTaskTime hempty
  obtain ⟨⟨task, htask, rfl⟩, hmin⟩ := Scheduler.nextTaskTime_eq_ok ht
  exact ⟨hrunning, _, ht, hmin, fun now hnow => hnow.running hrunning task htask⟩

end Server

/-! ## The choice of the next actor -/

/-- Among the actors, the one with the chosen index is the first whose time is next. -/
structure FirstNext (actors : List Actor) (next : NextStep) : Prop where
  runnable : ∃ actor, actors[next.actorIndex]? = some actor ∧ actor.isRunnable = true ∧
    actor.nextStepTime = .ok next.time
  minimal : ∀ (i : ℕ) actor t, actors[i]? = some actor → actor.isRunnable = true →
    actor.nextStepTime = .ok t → next.time ≤ t
  first : ∀ (i : ℕ) actor t, actors[i]? = some actor → actor.isRunnable = true →
    actor.nextStepTime = .ok t → i < next.actorIndex → next.time < t

/-- What `FindNextStep` knows after it has looked at some actors. -/
def Best (actors : List Actor) : Option NextStep → Prop
  | none => ∀ actor ∈ actors, actor.isRunnable = false
  | some next => FirstNext actors next

/-- An actor that is looked at is the last one or was there before. -/
theorem getElem?_concat {α : Type} {l : List α} {a b : α} {i : ℕ}
    (h : (l ++ [a])[i]? = some b) : (i < l.length ∧ l[i]? = some b) ∨ (i = l.length ∧ b = a) := by
  rcases Nat.lt_or_ge i l.length with hlt | hge
  · rw [List.getElem?_append_left hlt] at h
    exact Or.inl ⟨hlt, h⟩
  · rw [List.getElem?_append_right hge] at h
    rw [List.getElem?_singleton] at h
    split at h
    · exact Or.inr ⟨by omega, (Option.some.inj h).symm⟩
    · exact absurd h (by simp)

section Best

variable {actors : List Actor} {actor : Actor}

/-- An actor that is not runnable changes nothing. -/
theorem Best.skip {next : Option NextStep} (h : Best actors next)
    (hactor : actor.isRunnable = false) : Best (actors ++ [actor]) next := by
  cases next with
  | none =>
    intro actor' hactor'
    rcases List.mem_append.mp hactor' with hactor' | hactor'
    · exact h actor' hactor'
    · rwa [List.mem_singleton.mp hactor']
  | some next =>
    obtain ⟨⟨a, ha, hrunnable⟩, hminimal, hfirst⟩ := h
    refine ⟨⟨a, ?_, hrunnable⟩, fun i b t hb hb' ht => ?_, fun i b t hb hb' ht hlt => ?_⟩
    · rw [List.getElem?_append_left (List.getElem?_eq_some_iff.mp ha).1, ha]
    · rcases getElem?_concat hb with ⟨-, hb⟩ | ⟨-, rfl⟩
      · exact hminimal i b t hb hb' ht
      · exact absurd (hb'.symm.trans hactor) (by simp)
    · rcases getElem?_concat hb with ⟨-, hb⟩ | ⟨-, rfl⟩
      · exact hfirst i b t hb hb' ht hlt
      · exact absurd (hb'.symm.trans hactor) (by simp)

/-- A runnable actor with a smaller time takes the lead. -/
theorem Best.take {next : Option NextStep} {t : ℕ} (h : Best actors next)
    (hactor : actor.isRunnable = true) (ht : actor.nextStepTime = .ok t)
    (hless : ∀ n, next = some n → t < n.time) :
    Best (actors ++ [actor]) (some ⟨actors.length, t⟩) := by
  -- everything before is later than the new actor
  have hlater : ∀ (i : ℕ) b t', actors[i]? = some b → b.isRunnable = true →
      b.nextStepTime = .ok t' → t < t' := by
    intro i b t' hb hb' ht'
    cases next with
    | none => exact absurd (hb'.symm.trans (h b (List.mem_of_getElem? hb))) (by simp)
    | some n => exact Nat.lt_of_lt_of_le (hless n rfl) (h.minimal i b t' hb hb' ht')
  refine ⟨⟨actor, by simp, hactor, ht⟩, fun i b t' hb hb' ht' => ?_, fun i b t' hb hb' ht' hlt => ?_⟩
  · rcases getElem?_concat hb with ⟨-, hb⟩ | ⟨-, rfl⟩
    · exact (hlater i b t' hb hb' ht').le
    · exact (Except.ok.inj (ht.symm.trans ht')).le
  · rcases getElem?_concat hb with ⟨-, hb⟩ | ⟨rfl, -⟩
    · exact hlater i b t' hb hb' ht'
    · exact absurd hlt (Nat.lt_irrefl _)

/-- A runnable actor that is not earlier stays behind. -/
theorem Best.keep {n : NextStep} {t : ℕ} (h : Best actors (some n))
    (ht : actor.nextStepTime = .ok t) (hle : n.time ≤ t) : Best (actors ++ [actor]) (some n) := by
  obtain ⟨⟨a, ha, hrunnable⟩, hminimal, hfirst⟩ := h
  have hlt := (List.getElem?_eq_some_iff.mp ha).1
  refine ⟨⟨a, ?_, hrunnable⟩, fun i b t' hb hb' ht' => ?_, fun i b t' hb hb' ht' hi => ?_⟩
  · rw [List.getElem?_append_left hlt, ha]
  · rcases getElem?_concat hb with ⟨-, hb⟩ | ⟨-, rfl⟩
    · exact hminimal i b t' hb hb' ht'
    · rwa [← Except.ok.inj (ht.symm.trans ht')]
  · rcases getElem?_concat hb with ⟨-, hb⟩ | ⟨rfl, -⟩
    · exact hfirst i b t' hb hb' ht' hi
    · omega

end Best

namespace World

/-- The loop of `FindNextStep` returns, and finds the best of all actors.  Induction on
the actors that are left. -/
theorem findNextStepFrom_spec {seen rest : List Actor} {next : Option NextStep}
    (hseen : Best seen next)
    (htimes : ∀ actor ∈ rest, actor.isRunnable = true → ∃ t, actor.nextStepTime = .ok t) :
    ∃ result, findNextStepFrom seen.length next rest = .ok result ∧ Best (seen ++ rest) result := by
  induction rest generalizing seen next with
  | nil =>
    rw [List.append_nil]
    exact ⟨next, rfl, hseen⟩
  | cons actor rest ih =>
    have hrest := fun a ha => htimes a (List.mem_cons_of_mem actor ha)
    have hsplit : seen ++ actor :: rest = (seen ++ [actor]) ++ rest := by simp
    have hlength : seen.length + 1 = (seen ++ [actor]).length := by simp
    rw [findNextStepFrom, hsplit, hlength]
    cases hrunnable : actor.isRunnable with
    | false => exact ih (hseen.skip hrunnable) hrest
    | true =>
      obtain ⟨t, ht⟩ := htimes actor (List.mem_cons_self ..) hrunnable
      rw [if_pos rfl, ht, Outcome.ok_bind]
      split
      · rename_i hless
        refine ih (hseen.take hrunnable ht fun n hn => ?_) hrest
        subst hn
        simpa using hless
      · rename_i hless
        cases next with
        | none => exact absurd rfl hless
        | some n => exact ih (hseen.keep ht (by simpa using hless)) hrest

/-! ## The invariant -/

/-- No actor of the world is behind the clock. -/
structure OnTime (w : World) : Prop where
  servers : ∀ (i : ℕ) (server : Server), w.servers[i]? = some server → server.OnTime w.time.now
  network : w.network.OnTime w.time.now
  /-- The server whose step is going on has a process. -/
  current : ∀ (i : ℕ) (server : Server), w.current = some i → w.servers[i]? = some server →
    server.isAlive = true

/-- Flight times and sleeps do not overflow. -/
def NoOverflow (w : World) : Action → Prop
  | .step flightTime =>
    match w.findNextStep with
    | .ok (some next) => next.time + flightTime < 2 ^ 64
    | _ => True
  | .schedule delay _ => w.time.now + delay < 2 ^ 64
  | .connectTo _ flightTime => w.time.now + flightTime < 2 ^ 64
  | .send _ _ flightTime => w.time.now + flightTime < 2 ^ 64
  | .reply _ _ flightTime => w.time.now + flightTime < 2 ^ 64
  | _ => True

instance (w : World) : (action : Action) → Decidable (NoOverflow w action)
  | .step flightTime =>
    match h : w.findNextStep with
    | .ok (some next) =>
      decidable_of_iff (next.time + flightTime < 2 ^ 64) (by simp only [NoOverflow, h])
    | .ok none => .isTrue (by simp only [NoOverflow, h])
    | .error _ => .isTrue (by simp only [NoOverflow, h])
  | .schedule delay _ => inferInstanceAs (Decidable (w.time.now + delay < 2 ^ 64))
  | .connectTo _ flightTime => inferInstanceAs (Decidable (w.time.now + flightTime < 2 ^ 64))
  | .send _ _ flightTime => inferInstanceAs (Decidable (w.time.now + flightTime < 2 ^ 64))
  | .reply _ _ flightTime => inferInstanceAs (Decidable (w.time.now + flightTime < 2 ^ 64))
  | .serve _ | .close _ | .destroy _ | .serverFault _ _ | .networkFault _ | .restartServer _ =>
    .isTrue trivial

theorem le_addTime {t d : ℕ} (h : t + d < 2 ^ 64) : t ≤ addTime t d := by
  rw [addTime_of_lt h]
  exact Nat.le_add_right t d

variable {w w' : World}

/-- Every actor that is runnable has a next time, which is not behind the clock. -/
theorem OnTime.actor (h : w.OnTime) {actor : Actor} (hactor : actor ∈ w.actors)
    (hrunnable : actor.isRunnable = true) :
    ∃ t, actor.nextStepTime = .ok t ∧ w.time.now ≤ t := by
  rcases List.mem_append.mp hactor with hactor | hactor
  · obtain ⟨server, hserver, rfl⟩ := List.mem_map.mp hactor
    obtain ⟨i, hi⟩ := List.mem_iff_getElem?.mp hserver
    obtain ⟨-, t, ht, -, hle⟩ := Server.exists_nextStepTime hrunnable
    exact ⟨t, ht, hle _ (h.servers i server hi)⟩
  · obtain rfl := List.mem_singleton.mp hactor
    obtain ⟨t, ht, -, hle⟩ := Network.exists_nextStepTime hrunnable
    exact ⟨t, ht, hle _ h.network⟩

/-- `FindNextStep` returns, and finds the first actor whose time is next. -/
theorem OnTime.findNextStep (h : w.OnTime) :
    ∃ result, w.findNextStep = .ok result ∧ Best w.actors result := by
  have hseen : Best [] none := fun actor hactor => absurd hactor List.not_mem_nil
  exact findNextStepFrom_spec hseen fun actor hactor hrunnable =>
    (h.actor hactor hrunnable).imp fun _ ht => ht.1

/-! ## One action -/

theorem getElem?_actors {i : ℕ} {server : Server} (h : w.servers[i]? = some server) :
    w.actors[i]? = some (.server server) := by
  have hlt : i < (w.servers.map Actor.server).length := by
    rw [List.length_map]
    exact (List.getElem?_eq_some_iff.mp h).1
  rw [actors, List.getElem?_append_left hlt, List.getElem?_map, h, Option.map_some]

theorem getElem?_actors_network (w : World) :
    w.actors[w.servers.length]? = some (.network w.network) := by
  rw [actors, List.getElem?_append_right (by rw [List.length_map]), List.length_map, Nat.sub_self]
  rfl

/-- When the clock goes on to the next step, nobody falls behind. -/
theorem OnTime.advance {next : NextStep} (h : w.OnTime) (hnext : FirstNext w.actors next) :
    (∀ (i : ℕ) (server : Server), w.servers[i]? = some server → server.OnTime next.time) ∧
      w.network.OnTime next.time := by
  constructor
  · intro i server hserver
    refine ⟨fun hrunning task htask => ?_, (h.servers i server hserver).dead⟩
    have hrunnable : server.isRunnable = true := by
      rw [Server.isRunnable, Bool.and_eq_true, beq_iff_eq, Bool.not_eq_true', ← Bool.not_eq_true,
        Scheduler.isEmpty_iff]
      exact ⟨hrunning, List.ne_nil_of_mem htask⟩
    obtain ⟨-, t, ht, hmin, -⟩ := Server.exists_nextStepTime hrunnable
    have hle : next.time ≤ t := hnext.minimal i _ t (getElem?_actors hserver) hrunnable ht
    exact hle.trans (hmin task htask)
  · intro e he
    have hrunnable : w.network.isRunnable = true := by
      rw [Network.isRunnable, Bool.not_eq_true', ← Bool.not_eq_true, PriorityQueue.isEmpty_iff]
      exact List.ne_nil_of_mem he
    obtain ⟨t, ht, honTime, -⟩ := Network.exists_nextStepTime hrunnable
    have hle : next.time ≤ t :=
      hnext.minimal _ _ t (getElem?_actors_network w) hrunnable ht
    exact hle.trans (honTime e he)

/-- The live server of the current step gets a new value that is on time. -/
theorem OnTime.setCurrent {i : ℕ} {server' : Server} (h : w.OnTime)
    (honTime : server'.OnTime w.time.now) (halive : server'.isAlive = true)
    (hservers : w'.servers = (w.setServer i server').servers) (htime : w'.time = w.time)
    (hcurrent : w'.current = w.current) (hnetwork : w'.network.OnTime w.time.now) : w'.OnTime where
  servers := by
    rw [hservers, htime]
    exact forall_setServer h.servers honTime
  network := by rwa [htime]
  current j server hj hserver := by
    rw [hservers] at hserver
    rw [hcurrent] at hj
    exact forall_setServer (P := fun j server => w.current = some j → server.isAlive = true)
      (fun j server hserver hj => h.current j server hj hserver) (fun _ => halive) j server hserver hj

/-- A packet is handled: the answer is sent, or a task of a live server is scheduled. -/
theorem OnTime.handlePacket {delivery : Delivery} {flightTime : ℕ} (h : w.OnTime)
    (hle : w.time.now + flightTime < 2 ^ 64)
    (hw : w.handlePacket delivery flightTime = .ok w') : w'.OnTime := by
  obtain ⟨server, out, ends, hserver, -, -, rfl | ⟨type, payload, net, hadd, rfl⟩ | ⟨task, htask, rfl⟩⟩
    := handlePacket_eq_ok hw
  · exact h
  · exact ⟨h.servers, h.network.add hadd (le_addTime hle), h.current⟩
  · have honTime := h.servers _ _ hserver
    -- a server without a process has no endpoint to accept the packet
    have hdormant : server.Dormant := honTime.dead
    have halive := hdormant.isAlive_of_scheduled htask
    exact h.setCurrent (honTime.schedule (Nat.le_refl _) halive) halive rfl rfl rfl h.network

/-- **One action keeps every actor on time.** -/
theorem OnTime.execute {action : Action} (h : w.OnTime) (hno : NoOverflow w action)
    (hw : w.execute action = .ok w') : w'.OnTime := by
  cases action with
  | step flightTime =>
    obtain ⟨result, hresult, hbest⟩ := h.findNextStep
    rcases step_eq_ok hw with ⟨-, rfl⟩ | ⟨next, hnext, -, hstep⟩
    · exact ⟨h.servers, h.network, fun i server hi => absurd hi (by simp)⟩
    · obtain rfl := Except.ok.inj (hresult.symm.trans hnext)
      have hnext' : FirstNext w.actors next := hbest
      obtain ⟨hservers, hnetwork⟩ := h.advance hnext'
      rcases hstep with ⟨server, task, server', hserver, hstep, rfl⟩ | ⟨-, net, delivery, hstep, hw⟩
      -- The server runs a task that is due now; it must be running to have been chosen.
      · obtain ⟨actor, hactor, hrunnable, -⟩ := hnext'.runnable
        obtain rfl := Option.some.inj ((getElem?_actors hserver).symm.trans hactor)
        have hrunning := (Server.exists_nextStepTime hrunnable).1
        obtain ⟨honTime, halive⟩ := (hservers _ _ hserver).step hrunning hstep
        refine ⟨forall_setServer hservers honTime, hnetwork, fun i server'' hi hserver'' => ?_⟩
        obtain rfl := Option.some.inj hi
        have heq := (getElem?_setServer hserver server').symm.trans hserver''
        rwa [← Option.some.inj heq]
      -- The network hands over a frame, and the server it stops at may answer at once.
      · have h₁ := hw _ rfl
        have honTime₁ : World.OnTime { w with
            stepNumber := w.stepNumber + 1
            time := ⟨next.time⟩
            network := net
            current := none } :=
          ⟨hservers, hnetwork.step hstep, fun i server hi => absurd hi (by simp)⟩
        rcases h₁ with rfl | ⟨d, -, hd⟩
        · exact honTime₁
        · rw [NoOverflow, hnext] at hno
          exact honTime₁.handlePacket hno hd
  | schedule delay id =>
    obtain ⟨i, server, hcurrent, hserver, rfl⟩ := execute_schedule hw
    have halive := h.current i server hcurrent hserver
    exact h.setCurrent ((h.servers i server hserver).schedule (le_addTime hno) halive) halive
      rfl rfl rfl h.network
  | connectTo address flightTime =>
    obtain ⟨i, server, socket, transport, net, hcurrent, hserver, hconnect, rfl⟩ :=
      execute_connectTo hw
    have halive := h.current i server hcurrent hserver
    obtain ⟨-, -, -, -, -, -, -, -, hnet⟩ := Transport.connectTo_spec hconnect
    have hnetwork : net.OnTime w.time.now := by
      rcases hnet with rfl | hadd
      · exact h.network
      · exact h.network.add hadd (le_addTime hno)
    have honTime : Server.OnTime ({ server with transport := transport }.setHandler w.nextObject
        (some (.socket (some socket)))) w.time.now :=
      (h.servers i server hserver).of_alive rfl rfl halive
    exact h.setCurrent honTime halive rfl rfl rfl hnetwork
  | serve port =>
    obtain ⟨i, server, transport, hcurrent, hserver, -, rfl⟩ := execute_serve hw
    have halive := h.current i server hcurrent hserver
    have honTime : Server.OnTime ({ server with transport := transport }.setHandler w.nextObject
        (some (.server (some port)))) w.time.now :=
      (h.servers i server hserver).of_alive rfl rfl halive
    exact h.setCurrent honTime halive rfl rfl rfl h.network
  | close object =>
    obtain ⟨i, server, server', hcurrent, hserver, hclose, rfl⟩ := execute_close hw
    have halive := h.current i server hcurrent hserver
    have hshell := Server.sameShell_close hclose
    have halive' : server'.isAlive = true := by rwa [Server.isAlive, hshell.state]
    exact h.setCurrent ((h.servers i server hserver).of_alive hshell.state hshell.scheduler halive)
      halive' rfl rfl rfl h.network
  | destroy object =>
    obtain ⟨i, server, server', hcurrent, hserver, hclose, rfl⟩ := execute_destroy hw
    have halive := h.current i server hcurrent hserver
    have hshell := Server.sameShell_close hclose
    have halive' : server'.isAlive = true := by rwa [Server.isAlive, hshell.state]
    have honTime : Server.OnTime (server'.setHandler object none) w.time.now :=
      (h.servers i server hserver).of_alive hshell.state hshell.scheduler halive
    exact h.setCurrent honTime halive' rfl rfl rfl h.network
  | send object message flightTime =>
    obtain ⟨i, server, socket, net, -, -, -, hadd, rfl⟩ := execute_send hw
    exact ⟨h.servers, h.network.add hadd (le_addTime hno), h.current⟩
  | reply index message flightTime =>
    obtain ⟨i, server, socket, net, -, -, -, hadd, rfl⟩ := execute_reply hw
    exact ⟨h.servers, h.network.add hadd (le_addTime hno), h.current⟩
  | serverFault target fault =>
    obtain ⟨hother, server, server', hserver, hfault, rfl⟩ := execute_serverFault hw
    refine ⟨forall_setServer h.servers ((h.servers _ _ hserver).fault hfault), h.network, ?_⟩
    -- The current server does not kill itself, so it is alive after the fault too.
    have halive : w.current = some target → server'.isAlive = true := fun hi =>
      Server.isAlive_fault (h.current target server hi hserver) (fun hf => hother ⟨hi, hf⟩) hfault
    intro i server'' hi hserver''
    exact forall_setServer (P := fun i server => w.current = some i → server.isAlive = true)
      (fun i server hserver hi => h.current i server hi hserver) halive i server'' hserver'' hi
  | networkFault fault =>
    obtain ⟨net, hfault, rfl⟩ := execute_networkFault hw
    exact ⟨h.servers, h.network.fault hfault, h.current⟩
  | restartServer target =>
    obtain ⟨server, server', hserver, hfault, rfl⟩ := execute_restartServer hw
    exact ⟨forall_setServer h.servers ((h.servers _ _ hserver).fault hfault), h.network,
      fun i server'' hi => absurd hi (by simp)⟩

/-- Only a step moves the clock, and it moves it forward. -/
theorem now_le_of_execute {action : Action} (hw : w.execute action = .ok w') :
    w.time.now ≤ w'.time.now := by
  cases heffect : action.isEffect with
  | true => rw [(effectFrame_of_execute heffect hw).time]
  | false =>
    cases action with
    | step flightTime =>
      rcases step_eq_ok hw with ⟨-, rfl⟩ | ⟨next, -, hle, hstep⟩
      · exact Nat.le_refl _
      · rcases hstep with ⟨server, task, server', -, -, rfl⟩ | ⟨-, net, delivery, -, hw⟩
        · exact hle
        · rcases hw _ rfl with rfl | ⟨d, -, hd⟩
          · exact hle
          · obtain ⟨_, _, _, -, -, -, rfl | ⟨_, _, _, -, rfl⟩ | ⟨_, -, rfl⟩⟩ := handlePacket_eq_ok hd
            all_goals exact hle
    | restartServer target =>
      obtain ⟨_, _, -, -, rfl⟩ := execute_restartServer hw
      exact Nat.le_refl _
    | _ => exact absurd heffect (by simp [Action.isEffect])

/-- A step is made at the time of the chosen actor. -/
theorem now_eq_of_step {flightTime : ℕ} {next : NextStep} (hw : w.step flightTime = .ok w')
    (hnext : w.findNextStep = .ok (some next)) :
    w'.time.now = next.time ∧
      w'.current = if next.actorIndex < w.servers.length then some next.actorIndex else none := by
  rcases step_eq_ok hw with ⟨hnone, -⟩ | ⟨next', hnext', -, hstep⟩
  · exact absurd (hnone.symm.trans hnext) (by simp)
  · obtain rfl := Option.some.inj (Except.ok.inj (hnext'.symm.trans hnext))
    rcases hstep with ⟨server, task, server', hserver, -, rfl⟩ | ⟨hserver, net, delivery, -, hw⟩
    · have hlt := (List.getElem?_eq_some_iff.mp hserver).1
      rw [if_pos hlt]
      exact ⟨rfl, rfl⟩
    · have hge := List.getElem?_eq_none_iff.mp hserver
      rw [if_neg (Nat.not_lt.mpr hge)]
      rcases hw _ rfl with rfl | ⟨d, -, hd⟩
      · exact ⟨rfl, rfl⟩
      · obtain ⟨_, _, _, -, -, -, rfl | ⟨_, _, _, -, rfl⟩ | ⟨_, -, rfl⟩⟩ := handlePacket_eq_ok hd
        all_goals exact ⟨rfl, rfl⟩

/-! ## Every run -/

/-- At its start every server has one task, for the present. -/
theorem Started.onTime (h : Started w) : w.OnTime := by
  obtain ⟨hosts, adversary, startTime, hstart⟩ := h
  obtain ⟨servers, rfl, hservers⟩ := start_eq_ok hstart
  refine ⟨fun i server hserver => ?_, ?_, fun i server hi => absurd hi (by simp)⟩
  · have hserver : servers[i]? = some server := hserver
    rw [hservers, Option.map_eq_some_iff] at hserver
    obtain ⟨host, -, rfl⟩ := hserver
    refine ⟨fun _ task htask => ?_, fun hdead => absurd hdead (by simp [Server.isAlive])⟩
    rw [List.mem_singleton.mp htask]
  · intro e he
    rw [Network.events_buildLinks] at he
    exact absurd he List.not_mem_nil

/-- How a world keeps its time. -/
structure KeepsTime (w : World) : Prop where
  /-- Every runnable actor has a next time, and it is not behind the clock. -/
  notBehind : ∀ actor ∈ w.actors, actor.isRunnable = true →
    ∃ t, actor.nextStepTime = .ok t ∧ w.time.now ≤ t
  /-- `FindNextStep` returns. -/
  found : ∃ result, w.findNextStep = .ok result
  /-- The chosen actor is the first whose time is next, and the check of `FastForwardTo`
  holds for its time. -/
  chosen : ∀ next, w.findNextStep = .ok (some next) →
    FirstNext w.actors next ∧ w.time.fastForwardTo next.time = .ok ⟨next.time⟩
  /-- A step runs the chosen actor at its time. -/
  stepped : ∀ flightTime w' next, w.step flightTime = .ok w' → w.findNextStep = .ok (some next) →
    w'.time.now = next.time ∧
      w'.current = if next.actorIndex < w.servers.length then some next.actorIndex else none
  /-- Later times are not smaller. -/
  forward : ∀ w', Runs.Reaches execute NoOverflow w w' → w.time.now ≤ w'.time.now

/-- **Virtual time never runs backwards**, in every world, for every user program and
every interleaving of steps and faults. -/
theorem keepsTime_of_reaches {w₀ : World} (hstart : Started w₀)
    (hrun : Runs.Reaches execute NoOverflow w₀ w) : w.KeepsTime := by
  have h : w.OnTime := hrun.invariant (I := OnTime) hstart.onTime
    fun _ _ _ hI hno hw => hI.execute hno hw
  obtain ⟨result, hresult, hbest⟩ := h.findNextStep
  refine ⟨fun actor hactor hrunnable => h.actor hactor hrunnable, ⟨result, hresult⟩,
    fun next hnext => ?_, fun flightTime w' next hw hnext => now_eq_of_step hw hnext,
    fun w' hrun' => ?_⟩
  · obtain rfl := Except.ok.inj (hresult.symm.trans hnext)
    have hnext' : FirstNext w.actors next := hbest
    obtain ⟨actor, hactor, hrunnable, ht⟩ := hnext'.runnable
    obtain ⟨t, ht', hle⟩ := h.actor (List.mem_of_getElem? hactor) hrunnable
    obtain rfl := Except.ok.inj (ht.symm.trans ht')
    exact ⟨hnext', Time.fastForwardTo_eq_ok.mpr ⟨hle, rfl⟩⟩
  · exact hrun'.invariant (I := fun w' => w.time.now ≤ w'.time.now) (Nat.le_refl _)
      fun _ _ _ hI _ hw => hI.trans (now_le_of_execute hw)

/-- A world with two servers, started at time 3. -/
def twoServers : World :=
  match (deploy ["Server-1", "Client-1"] false).start 3 with
  | .ok w => w
  | .error _ => {}

/-- The server sets a timer for time 7, and is paused by the client, which resumes it at time
12, when the timer fires late, and then reboots it. -/
def pausing : List Action :=
  [.step 0, .schedule 4 1, .step 0, .serverFault 0 .pause, .schedule 9 2, .step 0,
    .serverFault 0 .resume, .schedule 0 3, .step 0, .step 0, .serverFault 0 .fastReboot, .step 0]

/-- The overdue timer does not turn the clock back. -/
theorem keepsTime_of_reaches_pausing :
    ∃ w, Runs.exec execute NoOverflow twoServers pausing = some w ∧
      w.time.now = 12 ∧ w.KeepsTime := by
  have hstart : Started twoServers := ⟨["Server-1", "Client-1"], false, 3, rfl⟩
  have htime : (Runs.exec execute NoOverflow twoServers pausing).map
      (fun w => w.time.now) = some 12 := by decide
  obtain ⟨w, hw, hnow⟩ := Option.map_eq_some_iff.mp htime
  exact ⟨w, hw, hnow, keepsTime_of_reaches hstart (Runs.reaches_of_exec hw)⟩

end World

end Whirl
