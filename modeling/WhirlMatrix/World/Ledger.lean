/-
# The ledger of a server

A ledger follows one server through a run.  It knows every task by its number in the
order of scheduling, and does to its queue of numbers what the server does to its
queue of tasks.  The two queues agree in every state, so the ledger says what has
become of each task.
-/
import WhirlMatrix.Process.Relabel
import WhirlMatrix.World.Alive
import WhirlMatrix.World.Connections

namespace Whirl

open Net Process

/-! ## Records -/

/-- A task that was scheduled, by one incarnation of the process. -/
structure Scheduled where
  task : Task
  atTime : ℕ
  incarnation : ℕ
  deriving DecidableEq, Repr

/-- A task that was run, with the state of the server that ran it. -/
structure Executed where
  number : ℕ
  task : Task
  time : ℕ
  incarnation : ℕ
  state : ServerState
  deriving DecidableEq, Repr

/-- A task that was dropped by the crash that ended an incarnation. -/
structure Dropped where
  number : ℕ
  incarnation : ℕ
  deriving DecidableEq, Repr

/-- What is known of the tasks of a server.  A task is known by its place in `scheduled`. -/
structure Ledger where
  incarnation : ℕ := 0
  scheduled : List Scheduled := []
  waiting : Scheduler ℕ := {}
  executed : List Executed := []
  dropped : List Dropped := []
  deriving DecidableEq, Repr

namespace Ledger

/-! ## Operations -/

/-- A task is scheduled by the present incarnation. -/
def schedule (ledger : Ledger) (atTime : ℕ) (task : Task) : Ledger :=
  { ledger with
    scheduled := ledger.scheduled ++ [⟨task, atTime, ledger.incarnation⟩]
    waiting := ledger.waiting.schedule atTime ledger.scheduled.length }

/-- The server takes its next task and runs it. -/
def step (ledger : Ledger) (server : Server) (now : ℕ) : Ledger :=
  match ledger.waiting.takeNext, server.scheduler.takeNext with
  | .ok (number, waiting), .ok (task, _) =>
    { ledger with
      waiting := waiting
      executed := ledger.executed
        ++ [⟨number, task, now, ledger.incarnation, server.state⟩] }
  | _, _ => ledger

/-- The crash that ends the present incarnation drops what waits. -/
def crash (ledger : Ledger) : Ledger :=
  { ledger with
    waiting := ledger.waiting.reset
    dropped := ledger.dropped
      ++ ledger.waiting.tasks.map fun number => ⟨number.task, ledger.incarnation⟩ }

/-- A new incarnation, which begins with its main task. -/
def launch (ledger : Ledger) (now : ℕ) : Ledger :=
  { ledger with incarnation := ledger.incarnation + 1 }.schedule now .main

/-- What is overdue is lifted to the present. -/
def resume (ledger : Ledger) (now : ℕ) : Ledger :=
  match ledger.waiting.resume now with
  | .ok waiting => { ledger with waiting := waiting }
  | .error _ => ledger

/-- A fault of the server. -/
def fault (ledger : Ledger) (server : Server) (now : ℕ) : ServerFault → Ledger
  | .crash => ledger.crash
  | .launch => ledger.launch now
  | .fastReboot => if server.isAlive then ledger.crash.launch now else ledger
  | .pause => ledger
  | .resume => if server.state = .paused then ledger.resume now else ledger

/-- The tasks that the transport has scheduled between two states. -/
def accept (ledger : Ledger) (i : ℕ) (w w' : World) : Ledger :=
  (w'.accepted.drop w.accepted.length).foldl
    (fun ledger a =>
      if a.server = i then ledger.schedule w'.time.now (.transport a.task) else ledger)
    ledger

/-- The ledger of the server with index `i` after an action. -/
def follow (ledger : Ledger) (i : ℕ) (w w' : World) (action : World.Action) : Ledger :=
  match w.servers[i]?, action with
  | some server, .step _ =>
    if w'.current = some i then ledger.step server w'.time.now else ledger.accept i w w'
  | some _, .schedule delay id =>
    if w.current = some i then ledger.schedule (addTime w.time.now delay) (.user id) else ledger
  | some server, .serverFault target fault =>
    if target = i then ledger.fault server w.time.now fault else ledger
  | some server, .restartServer target =>
    if target = i then ledger.fault server w.time.now .fastReboot else ledger
  | _, _ => ledger

/-! ## What a ledger says -/

/-- The task with a number. -/
def taskOf (ledger : Ledger) (number : ℕ) : Task :=
  ((ledger.scheduled[number]?).map Scheduled.task).getD .main

/-- The numbers of the tasks that wait, were run and were dropped. -/
def numbers (ledger : Ledger) : List ℕ :=
  ledger.waiting.tasks.map ScheduledTask.task ++ ledger.executed.map Executed.number
    ++ ledger.dropped.map Dropped.number

/-- **The account of the tasks of a server.** -/
structure Accounts (ledger : Ledger) (server : Server) : Prop where
  /-- The tasks that wait in the scheduler are those with the numbers that wait. -/
  follows : server.scheduler = ledger.waiting.map ledger.taskOf
  /-- Each task waits, was run, or was dropped: one of these, and once. -/
  once : ledger.numbers.Perm (List.range ledger.scheduled.length)
  /-- What waits was scheduled by the present incarnation, and has not become earlier. -/
  waits : ∀ number ∈ ledger.waiting.tasks, ∃ entry : Scheduled,
    ledger.scheduled[number.task]? = some entry ∧ entry.incarnation = ledger.incarnation ∧
      entry.atTime ≤ number.atTime
  /-- What was run was run by its own incarnation, not before its time, on a server that was
  running. -/
  runs : ∀ run ∈ ledger.executed, ∃ entry : Scheduled,
    ledger.scheduled[run.number]? = some entry ∧ run.task = entry.task ∧
      run.incarnation = entry.incarnation ∧ entry.atTime ≤ run.time ∧ run.state = .running
  /-- What was dropped was dropped by the crash that ended its incarnation. -/
  drops : ∀ drop ∈ ledger.dropped, ∃ entry : Scheduled,
    ledger.scheduled[drop.number]? = some entry ∧ drop.incarnation = entry.incarnation
  /-- The incarnations of what was dropped have ended. -/
  ended : ∀ drop ∈ ledger.dropped, drop.incarnation < ledger.incarnation ∨
    (drop.incarnation = ledger.incarnation ∧ server.isAlive = false)

variable {ledger : Ledger} {server server' : Server}

/-! ## One operation -/

/-- Only the scheduler and the life of the server matter. -/
theorem Accounts.congr (h : ledger.Accounts server)
    (hscheduler : server'.scheduler = server.scheduler) (halive : server'.isAlive = server.isAlive) :
    ledger.Accounts server' where
  follows := hscheduler.trans h.follows
  once := h.once
  waits := h.waits
  runs := h.runs
  drops := h.drops
  ended := by
    rw [halive]
    exact h.ended

/-- A new entry leaves the others as they are. -/
theorem getElem?_entries {entry : Scheduled} {number : ℕ}
    (h : ledger.scheduled[number]? = some entry) (new : Scheduled) :
    (ledger.scheduled ++ [new])[number]? = some entry := by
  have hlt := (List.getElem?_eq_some_iff.mp h).1
  rw [List.getElem?_append_left hlt, h]

/-- A task is scheduled on a server with a process. -/
theorem Accounts.schedule (h : ledger.Accounts server) (t : ℕ) (task : Task) :
    (ledger.schedule t task).Accounts
      { server with scheduler := server.scheduler.schedule t task } where
  follows := by
    have hnew : (ledger.schedule t task).taskOf ledger.scheduled.length = task := by
      simp [taskOf, Ledger.schedule]
    have hold : ledger.waiting.map ledger.taskOf
        = ledger.waiting.map (ledger.schedule t task).taskOf := by
      apply Scheduler.map_congr
      intro number hnumber
      obtain ⟨entry, hentry, -⟩ := h.waits number hnumber
      simp only [taskOf, Ledger.schedule, getElem?_entries hentry, hentry]
    show server.scheduler.schedule t task
      = (ledger.waiting.schedule t ledger.scheduled.length).map (ledger.schedule t task).taskOf
    rw [Scheduler.map_schedule, hnew, h.follows, hold]
  once := by
    have hperm := h.once
    simp only [numbers, Ledger.schedule, List.length_append, List.length_singleton,
      List.range_succ] at hperm ⊢
    exact (hperm.cons ledger.scheduled.length).trans (List.perm_append_singleton _ _).symm
  waits number hnumber := by
    rcases List.mem_cons.mp hnumber with rfl | hnumber
    · exact ⟨⟨task, t, ledger.incarnation⟩, by simp [Ledger.schedule], rfl, Nat.le_refl _⟩
    · obtain ⟨entry, hentry, hrest⟩ := h.waits number hnumber
      exact ⟨entry, getElem?_entries hentry _, hrest⟩
  runs run hrun := by
    obtain ⟨entry, hentry, hrest⟩ := h.runs run hrun
    exact ⟨entry, getElem?_entries hentry _, hrest⟩
  drops drop hdrop := by
    obtain ⟨entry, hentry, hrest⟩ := h.drops drop hdrop
    exact ⟨entry, getElem?_entries hentry _, hrest⟩
  ended := h.ended

/-- The number that leaves the queue is that of the task that the server takes. -/
theorem Accounts.takeNext {task : Task} {scheduler : Scheduler Task} (h : ledger.Accounts server)
    (htake : server.scheduler.takeNext = .ok (task, scheduler)) :
    ∃ number waiting, ledger.waiting.takeNext = .ok (number, waiting) ∧
      ledger.taskOf number = task ∧ waiting.map ledger.taskOf = scheduler := by
  rw [h.follows, Scheduler.takeNext_map] at htake
  cases hwaiting : ledger.waiting.takeNext with
  | error e =>
    rw [hwaiting] at htake
    exact absurd htake (by simp [Except.map])
  | ok p =>
    obtain ⟨number, waiting⟩ := p
    rw [hwaiting] at htake
    obtain ⟨htask, hscheduler⟩ := Prod.mk.inj (Except.ok.inj htake)
    exact ⟨number, waiting, rfl, htask, hscheduler⟩

/-- A running server takes its next task at the time of that task. -/
theorem Accounts.step {task : Task} {now : ℕ} (h : ledger.Accounts server)
    (hrunning : server.state = .running) (htime : server.nextStepTime = .ok now)
    (hstep : server.step = .ok (task, server')) : (ledger.step server now).Accounts server' := by
  obtain ⟨scheduler, htake, hrun⟩ := Server.step_eq_ok hstep
  have hshell := Server.sameShell_run hrun
  obtain ⟨number, waiting, hwaiting, htask, hmap⟩ := h.takeNext htake
  obtain ⟨t, ht, hperm⟩ := Scheduler.takeNext_eq_ok hwaiting
  -- the number leaves at the time at which the task is due
  have hdue : t = now := by
    rw [Server.nextStepTime, h.follows, Scheduler.nextTaskTime_map, ht] at htime
    exact Except.ok.inj htime
  obtain ⟨entry, hentry, hown, hle⟩ := h.waits ⟨t, number⟩ (hperm.mem_iff.mp (List.mem_cons_self ..))
  rw [hdue] at hle
  have hledger : ledger.step server now = { ledger with
      waiting := waiting
      executed := ledger.executed ++ [⟨number, task, now, ledger.incarnation, server.state⟩] } := by
    rw [Ledger.step, hwaiting, htake]
  rw [hledger]
  constructor
  · rw [hshell.scheduler, ← hmap]
    rfl
  · refine List.Perm.trans ?_ h.once
    simp only [numbers, List.map_append, List.map_singleton, List.append_assoc]
    have hmoved := (hperm.map ScheduledTask.task).symm
    rw [List.map_cons] at hmoved
    refine List.Perm.trans ?_ (hmoved.append_right _).symm
    have hmiddle : (waiting.tasks.map ScheduledTask.task ++ ledger.executed.map Executed.number
        ++ number :: ledger.dropped.map Dropped.number).Perm (number ::
          (waiting.tasks.map ScheduledTask.task ++ ledger.executed.map Executed.number
            ++ ledger.dropped.map Dropped.number)) := List.perm_middle
    simpa only [List.append_assoc, List.cons_append, List.nil_append] using hmiddle
  · intro number' hnumber'
    exact h.waits number' (hperm.mem_iff.mp (List.mem_cons_of_mem _ hnumber'))
  · intro run hrun'
    rcases List.mem_append.mp hrun' with hold | hnew
    · exact h.runs run hold
    · rw [List.mem_singleton.mp hnew]
      refine ⟨entry, hentry, ?_, hown.symm, hle, hrunning⟩
      rw [← htask, taskOf, hentry]
      rfl
  · exact h.drops
  · have halive : server'.isAlive = server.isAlive := by
      rw [Server.isAlive, hshell.state]
      rfl
    rw [halive]
    exact h.ended

/-- A crash drops what waits; afterwards the server has no process. -/
theorem Accounts.crash (h : ledger.Accounts server) :
    ledger.crash.Accounts ⟨server.transport.reset, .crashed, server.scheduler.reset, {}⟩ where
  follows := by
    show server.scheduler.reset = ledger.waiting.reset.map ledger.taskOf
    rw [Scheduler.map_reset, h.follows]
  once := by
    refine List.Perm.trans ?_ h.once
    have hnumbers : ledger.waiting.tasks.map (Dropped.number ∘ fun number =>
        (⟨number.task, ledger.incarnation⟩ : Dropped)) = ledger.waiting.tasks.map ScheduledTask.task := rfl
    show (ledger.executed.map Executed.number ++ (ledger.dropped
      ++ ledger.waiting.tasks.map fun number => (⟨number.task, ledger.incarnation⟩ : Dropped)).map
        Dropped.number).Perm _
    rw [List.map_append, List.map_map, hnumbers, ← List.append_assoc, numbers, List.append_assoc
      (ledger.waiting.tasks.map _)]
    exact List.perm_append_comm
  waits number hnumber := absurd hnumber List.not_mem_nil
  runs := h.runs
  drops drop hdrop := by
    rcases List.mem_append.mp hdrop with hold | hnew
    · exact h.drops drop hold
    · obtain ⟨number, hnumber, rfl⟩ := List.mem_map.mp hnew
      obtain ⟨entry, hentry, hown, -⟩ := h.waits number hnumber
      exact ⟨entry, hentry, hown.symm⟩
  ended drop hdrop := by
    rcases List.mem_append.mp hdrop with hold | hnew
    · exact (h.ended drop hold).imp_right fun hend => ⟨hend.1, rfl⟩
    · obtain ⟨number, -, rfl⟩ := List.mem_map.mp hnew
      exact Or.inr ⟨rfl, rfl⟩

/-- A new incarnation begins on a server that has no tasks. -/
theorem Accounts.launch (h : ledger.Accounts server) (hempty : server.scheduler.tasks = [])
    (now : ℕ) : (ledger.launch now).Accounts { server.startProcess now with state := .running } := by
  have hwaiting : ledger.waiting.tasks = [] := by
    rw [h.follows, Scheduler.tasks_map] at hempty
    exact List.map_eq_nil_iff.mp hempty
  have hnext : Ledger.Accounts { ledger with incarnation := ledger.incarnation + 1 }
      { server with state := .running } := by
    constructor
    · exact h.follows
    · exact h.once
    · intro number hnumber
      have hnumber : number ∈ ledger.waiting.tasks := hnumber
      rw [hwaiting] at hnumber
      exact absurd hnumber List.not_mem_nil
    · exact h.runs
    · exact h.drops
    · intro drop hdrop
      left
      rcases h.ended drop hdrop with hlt | ⟨heq, -⟩
      · exact Nat.lt_succ_of_lt hlt
      · rw [heq]
        exact Nat.lt_succ_self _
  exact (hnext.schedule now .main).congr rfl rfl

/-- A resume lifts what is overdue. -/
theorem Accounts.resume {now : ℕ} {scheduler : Scheduler Task} (h : ledger.Accounts server)
    (hpaused : server.state = .paused) (hresume : server.scheduler.resume now = .ok scheduler) :
    (ledger.resume now).Accounts { server with scheduler := scheduler, state := .running } := by
  obtain ⟨waiting, hwaiting, hperm⟩ := Scheduler.exists_resume ledger.waiting now
  have hmap : scheduler = waiting.map ledger.taskOf := by
    rw [h.follows, Scheduler.resume_map, hwaiting] at hresume
    exact (Except.ok.inj hresume).symm
  have hledger : ledger.resume now = { ledger with waiting := waiting } := by
    rw [Ledger.resume, hwaiting]
  rw [hledger]
  constructor
  · exact hmap
  · refine List.Perm.trans ?_ h.once
    have hnumbers : (ledger.waiting.tasks.map (Scheduler.lift now)).map ScheduledTask.task
        = ledger.waiting.tasks.map ScheduledTask.task := by
      rw [List.map_map]
      rfl
    have hmoved := hperm.map ScheduledTask.task
    rw [hnumbers] at hmoved
    exact (hmoved.append_right _).append_right _
  · intro number hnumber
    obtain ⟨old, hold, rfl⟩ := List.mem_map.mp (hperm.mem_iff.mp hnumber)
    obtain ⟨entry, hentry, hown, hle⟩ := h.waits old hold
    exact ⟨entry, hentry, hown, hle.trans (Nat.le_max_left _ _)⟩
  · exact h.runs
  · exact h.drops
  · intro drop hdrop
    refine (h.ended drop hdrop).imp_right fun hend => absurd hend.2 ?_
    rw [Server.isAlive, hpaused]
    decide

/-- **Every fault keeps the account.** -/
theorem Accounts.fault {now : ℕ} {f : ServerFault} (h : ledger.Accounts server)
    (hdormant : server.Dormant) (hfault : server.fault now f = .ok server') :
    (ledger.fault server now f).Accounts server' := by
  cases f with
  | crash =>
    obtain rfl := Server.crash_eq_ok hfault
    exact h.crash
  | launch =>
    obtain ⟨hstate, rfl⟩ := Server.launch_eq_ok hfault
    -- The queue of a dead server is empty, so the launch finds nothing to account for.
    have hdead : server.isAlive = false := by
      rcases hstate with hstate | hstate <;> rw [Server.isAlive, hstate] <;> rfl
    exact h.launch (hdormant hdead).1 now
  | fastReboot =>
    rw [Server.fault, Server.fastReboot] at hfault
    rw [Ledger.fault]
    cases halive : server.isAlive with
    | false =>
      rw [halive] at hfault
      obtain rfl := Except.ok.inj hfault
      exact h
    | true =>
      rw [halive] at hfault
      obtain ⟨crashed, hcrash, hlaunch⟩ := Outcome.bind_eq_ok.mp hfault
      obtain rfl := Server.crash_eq_ok hcrash
      obtain ⟨-, rfl⟩ := Server.launch_eq_ok hlaunch
      -- A crash and a launch in one: the crash left the queue empty.
      exact h.crash.launch rfl now
  | pause =>
    obtain rfl : server.pause = server' := Except.ok.inj hfault
    rw [Ledger.fault]
    refine h.congr ?_ ?_
    · unfold Server.pause
      split
      · rfl
      · split <;> rfl
    · unfold Server.pause
      split
      · rfl
      · rename_i halive
        rw [Bool.not_eq_true', Bool.not_eq_false] at halive
        split
        · rfl
        · rw [halive]
          rfl
  | resume =>
    rw [Server.fault, Server.resume] at hfault
    rw [Ledger.fault]
    split at hfault
    · rename_i hstate
      obtain rfl := Except.ok.inj hfault
      rw [if_neg (by simpa using hstate)]
      exact h
    · rename_i hstate
      have hpaused : server.state = .paused := by simpa using hstate
      obtain ⟨scheduler, hresume, hfault⟩ := Outcome.bind_eq_ok.mp hfault
      obtain rfl := Outcome.pure_eq_ok.mp hfault
      rw [if_pos hpaused]
      exact h.resume hpaused hresume

/-! ## One action of the world -/

variable {w w' : World} {i : ℕ}

theorem accept_of_eq (haccepted : w'.accepted = w.accepted) : ledger.accept i w w' = ledger := by
  rw [accept, haccepted, List.drop_length]
  rfl

theorem accept_append {a : Acceptance} (haccepted : w'.accepted = w.accepted ++ [a]) :
    ledger.accept i w w'
      = if a.server = i then ledger.schedule w'.time.now (.transport a.task) else ledger := by
  rw [accept, haccepted, List.drop_left]
  rfl

theorem follow_step_of_current {flightTime : ℕ} (hserver : w.servers[i]? = some server)
    (hcurrent : w'.current = some i) :
    ledger.follow i w w' (.step flightTime) = ledger.step server w'.time.now := by
  simp only [follow, hserver, hcurrent, if_true]

/-- The step of somebody else, in which no packet is accepted. -/
theorem accounts_step_of_eq {flightTime : ℕ} (hserver : w.servers[i]? = some server)
    (hcurrent : w'.current ≠ some i) (haccepted : w'.accepted = w.accepted)
    (h : ledger.Accounts server') :
    (ledger.follow i w w' (.step flightTime)).Accounts server' := by
  simp only [follow, hserver, hcurrent, if_false, accept_of_eq haccepted]
  exact h

/-- The step of the network, in which a packet is accepted. -/
theorem accounts_step_of_append {flightTime : ℕ} {a : Acceptance}
    (hserver : w.servers[i]? = some server) (hcurrent : w'.current ≠ some i)
    (haccepted : w'.accepted = w.accepted ++ [a])
    (h : (if a.server = i then ledger.schedule w'.time.now (.transport a.task)
      else ledger).Accounts server') :
    (ledger.follow i w w' (.step flightTime)).Accounts server' := by
  simp only [follow, hserver, hcurrent, if_false, accept_append haccepted]
  exact h

/-- Whether an action can schedule, run or drop a task. -/
def touchesTasks : World.Action → Bool
  | .step _ => true
  | .schedule _ _ => true
  | .serverFault _ _ => true
  | .restartServer _ => true
  | _ => false

/-- All other actions leave a ledger alone. -/
theorem follow_of_untouched {action : World.Action} (h : touchesTasks action = false) :
    ledger.follow i w w' action = ledger := by
  unfold follow
  cases w.servers[i]? with
  | none => rfl
  | some server => cases action <;> first | rfl | exact absurd h (by simp [touchesTasks])

/-- The server with index `i` is the one that gets a new value, or stays. -/
theorem server_cases {j : ℕ} {old new : Server} (hold : w.servers[j]? = some old)
    (hservers : w'.servers = (w.setServer j new).servers) (hserver' : w'.servers[i]? = some server') :
    (j = i ∧ w.servers[i]? = some old ∧ server' = new) ∨
      (j ≠ i ∧ w.servers[i]? = some server') := by
  rw [hservers] at hserver'
  by_cases hj : j = i
  · subst hj
    rw [World.getElem?_setServer hold] at hserver'
    exact Or.inl ⟨rfl, hold, (Option.some.inj hserver').symm⟩
  · rw [World.getElem?_setServer_ne w hj] at hserver'
    exact Or.inr ⟨hj, hserver'⟩

/-- The current server gets a new value with the same tasks. -/
theorem accounts_keep {j : ℕ} {old new : Server} (hserver' : w'.servers[i]? = some server')
    (h : ∀ server, w.servers[i]? = some server → ledger.Accounts server)
    (hold : w.servers[j]? = some old) (hservers : w'.servers = (w.setServer j new).servers)
    (hscheduler : new.scheduler = old.scheduler) (hstate : new.state = old.state) :
    ledger.Accounts server' := by
  rcases server_cases hold hservers hserver' with ⟨-, hserver, rfl⟩ | ⟨-, hserver⟩
  · refine (h old hserver).congr hscheduler ?_
    rw [Server.isAlive, Server.isAlive, hstate]
  · exact h server' hserver

/-- **One action keeps the account.** -/
theorem accounts_follow {action : World.Action}
    (h : ∀ server, w.servers[i]? = some server → ledger.Accounts server) (horderly : w.Orderly)
    (hw : w.execute action = .ok w') :
    ∀ server', w'.servers[i]? = some server' → (ledger.follow i w w' action).Accounts server' := by
  intro server' hserver'
  cases action with
  | step flightTime =>
    cases World.stepped_of_execute hw with
    | deadlock =>
      have hserver : w.servers[i]? = some server' := hserver'
      exact accounts_step_of_eq hserver (by simp) rfl (h server' hserver)
    | @ran t j old new task hold hstep hnext =>
      rcases server_cases hold rfl hserver' with ⟨rfl, hserver, rfl⟩ | ⟨hne, hserver⟩
      -- The ledger crosses off the task that runs: it is the first one due.
      · rw [follow_step_of_current hserver rfl]
        obtain ⟨hrunning, htime⟩ := World.running_of_findNextStep hnext hserver
        exact (h old hserver).step hrunning htime hstep
      · exact accounts_step_of_eq hserver (by simpa using hne) rfl (h server' hserver)
    | skipped hquiet =>
      have hserver : w.servers[i]? = some server' := hserver'
      exact accounts_step_of_eq hserver (by simp) rfl (h server' hserver)
    | answered hquiet =>
      have hserver : w.servers[i]? = some server' := hserver'
      exact accounts_step_of_eq hserver (by simp) rfl (h server' hserver)
    -- An accepted packet becomes a task of the server it stops at, at the present time.
    | accepted hquiet hframe hends hout hold htask =>
      rcases server_cases hold rfl hserver' with ⟨hj, hserver, rfl⟩ | ⟨hne, hserver⟩
      · refine accounts_step_of_append hserver (by simp) rfl ?_
        rw [if_pos hj]
        exact (h _ hserver).schedule _ _
      · refine accounts_step_of_append hserver (by simp) rfl ?_
        rw [if_neg hne]
        exact h server' hserver
  | schedule delay id =>
    obtain ⟨j, old, hcurrent, hold, rfl⟩ := World.execute_schedule hw
    rcases server_cases hold rfl hserver' with ⟨rfl, hserver, rfl⟩ | ⟨hne, hserver⟩
    · simp only [follow, hserver, hcurrent, if_true]
      exact (h old hserver).schedule _ _
    · simp only [follow, hserver, hcurrent, Option.some.injEq, hne, if_false]
      exact h server' hserver
  | connectTo address flightTime =>
    obtain ⟨j, old, _, _, _, -, hold, -, rfl⟩ := World.execute_connectTo hw
    rw [follow_of_untouched rfl]
    exact accounts_keep hserver' h hold rfl rfl rfl
  | serve port =>
    obtain ⟨j, old, _, -, hold, -, rfl⟩ := World.execute_serve hw
    rw [follow_of_untouched rfl]
    exact accounts_keep hserver' h hold rfl rfl rfl
  | close object =>
    obtain ⟨j, old, new, -, hold, hclose, rfl⟩ := World.execute_close hw
    have hshell := Server.sameShell_close hclose
    rw [follow_of_untouched rfl]
    exact accounts_keep hserver' h hold rfl hshell.scheduler hshell.state
  | destroy object =>
    obtain ⟨j, old, new, -, hold, hclose, rfl⟩ := World.execute_destroy hw
    have hshell := Server.sameShell_close hclose
    rw [follow_of_untouched rfl]
    exact accounts_keep hserver' h hold rfl hshell.scheduler hshell.state
  | send object message flightTime =>
    obtain ⟨_, _, _, _, -, -, -, -, rfl⟩ := World.execute_send hw
    rw [follow_of_untouched rfl]
    exact h server' hserver'
  | reply index message flightTime =>
    obtain ⟨_, _, _, _, -, -, -, -, rfl⟩ := World.execute_reply hw
    rw [follow_of_untouched rfl]
    exact h server' hserver'
  | serverFault target fault =>
    obtain ⟨-, old, new, hold, hfault, rfl⟩ := World.execute_serverFault hw
    rcases server_cases hold rfl hserver' with ⟨rfl, hserver, rfl⟩ | ⟨hne, hserver⟩
    · simp only [follow, hserver, if_true]
      exact (h old hserver).fault (horderly.dormant _ old hserver) hfault
    · simp only [follow, hserver, hne, if_false]
      exact h server' hserver
  | networkFault fault =>
    obtain ⟨net, -, rfl⟩ := World.execute_networkFault hw
    rw [follow_of_untouched rfl]
    exact h server' hserver'
  | restartServer target =>
    obtain ⟨old, new, hold, hfault, rfl⟩ := World.execute_restartServer hw
    rcases server_cases hold rfl hserver' with ⟨rfl, hserver, rfl⟩ | ⟨hne, hserver⟩
    · simp only [follow, hserver, if_true]
      exact (h old hserver).fault (horderly.dormant _ old hserver) hfault
    · simp only [follow, hserver, hne, if_false]
      exact h server' hserver

end Ledger

/-! ## Every run -/

namespace World

/-- An action of the world, followed by the ledger of the server with index `i`. -/
def executeTracked (i : ℕ) (s : World × Ledger) (action : Action) : Outcome (World × Ledger) := do
  let w ← s.1.execute action
  return (w, s.2.follow i s.1 w action)

/-- The ledger that has followed the server with index `i` through a run of any actions,
from the launch of the server on. -/
def Tracked (i : ℕ) (w₀ w : World) (ledger : Ledger) : Prop :=
  Runs.Reaches (executeTracked i) (fun _ _ => True) (w₀, ({} : Ledger).launch w₀.time.now)
    (w, ledger)

variable {w₀ w : World} {i : ℕ}

/-- Every run can be followed. -/
theorem exists_tracked (i : ℕ) (hrun : Runs.Reaches execute anyAction w₀ w) :
    ∃ ledger, Tracked i w₀ w ledger := by
  refine hrun.invariant (I := fun w => ∃ ledger, Tracked i w₀ w ledger)
    ⟨_, Runs.Reaches.refl⟩ ?_
  rintro v action v' ⟨ledger, htracked⟩ - hv
  refine ⟨ledger.follow i v v' action, htracked.tail action trivial ?_⟩
  rw [executeTracked, hv]
  rfl

/-- The launch of a server is the first entry of its ledger. -/
theorem Started.accounts (h : Started w₀) {server : Server} (hserver : w₀.servers[i]? = some server) :
    (({} : Ledger).launch w₀.time.now).Accounts server := by
  obtain ⟨hosts, adversary, startTime, hstart⟩ := h
  obtain ⟨servers, rfl, hservers⟩ := start_eq_ok hstart
  have hserver : servers[i]? = some server := hserver
  rw [hservers, Option.map_eq_some_iff] at hserver
  obtain ⟨host, -, rfl⟩ := hserver
  have hempty : ({} : Ledger).Accounts ({ transport := { host := host } } : Server) :=
    ⟨rfl, List.Perm.refl _, fun _ h => absurd h List.not_mem_nil,
      fun _ h => absurd h List.not_mem_nil, fun _ h => absurd h List.not_mem_nil,
      fun _ h => absurd h List.not_mem_nil⟩
  exact hempty.launch rfl startTime

/-- **No task is lost, duplicated or inherited.**  Every run can be followed by the ledger
of each server, and in every state the ledger accounts for all tasks of the server. -/
theorem accounts_of_reaches (hstart : Started w₀) (hrun : Runs.Reaches execute anyAction w₀ w)
    {server : Server} (hserver : w.servers[i]? = some server) :
    (∃ ledger, Tracked i w₀ w ledger) ∧
      ∀ ledger, Tracked i w₀ w ledger → ledger.Accounts server := by
  refine ⟨exists_tracked i hrun, fun ledger htracked => ?_⟩
  have hinv := htracked.invariant (I := fun s => s.1.Orderly ∧
    ∀ server, s.1.servers[i]? = some server → s.2.Accounts server)
    ⟨hstart.orderly, fun server hserver => hstart.accounts hserver⟩ ?_
  · exact hinv.2 server hserver
  rintro ⟨v, ledger⟩ action ⟨v', ledger'⟩ ⟨horderly, haccounts⟩ - hv
  obtain ⟨v'', hexecute, hpair⟩ := Outcome.bind_eq_ok.mp hv
  obtain ⟨rfl, rfl⟩ := Prod.mk.inj (Outcome.pure_eq_ok.mp hpair)
  exact ⟨horderly.execute hexecute, Ledger.accounts_follow haccounts horderly hexecute⟩

/-- A server and an adversary, started at time 3. -/
def attacked : World :=
  match (deploy ["Server-1", "Adversary-1"] true).start 3 with
  | .ok w => w
  | .error _ => {}

/-- The server sets two timers.  The adversary pauses it until the first is overdue, and
reboots it before the second is due. -/
def attack : List Action :=
  [.step 0, .schedule 4 1, .schedule 20 2, .step 0, .serverFault 0 .pause, .schedule 10 7,
    .step 0, .serverFault 0 .resume, .schedule 2 8, .step 0, .step 0, .serverFault 0 .fastReboot,
    .step 0]

/-- The world after the attack, and the ledger of the server. -/
def rebooted : World × Ledger :=
  (Runs.exec (executeTracked 0) (fun _ _ => True)
    (attacked, ({} : Ledger).launch attacked.time.now) attack).getD ({}, {})

/-- The first timer was run, the second was dropped, and the main task was run twice. -/
theorem accounts_of_reaches_rebooted :
    rebooted.2.executed.map Executed.number = [0, 1, 3] ∧ rebooted.2.dropped = [⟨2, 1⟩] ∧
      ∃ server, rebooted.1.servers[0]? = some server ∧ rebooted.2.Accounts server := by
  have hstart : Started attacked := ⟨["Server-1", "Adversary-1"], true, 3, rfl⟩
  have hrun : Runs.exec execute anyAction attacked attack = some rebooted.1 := rfl
  have htracked : Runs.exec (executeTracked 0) (fun _ _ => True)
      (attacked, ({} : Ledger).launch attacked.time.now) attack = some rebooted := rfl
  obtain ⟨server, hserver⟩ : ∃ server, rebooted.1.servers[0]? = some server := ⟨_, rfl⟩
  refine ⟨by decide, by decide, server, hserver, ?_⟩
  exact (accounts_of_reaches hstart (Runs.reaches_of_exec hrun) hserver).2 rebooted.2
    (Runs.reaches_of_exec htracked)

end World

end Whirl
