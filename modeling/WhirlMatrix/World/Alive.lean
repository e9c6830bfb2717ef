/-
# Servers without a process

A server that was crashed, or not launched yet, has no tasks and no endpoints: nobody
schedules anything on it until it is launched.  The server whose step is going on has
a process, and it is a running one that is chosen for a step.
-/
import WhirlMatrix.World.VirtualTime

namespace Whirl

open Net Process

namespace World

/-! ## The chosen actor -/

/-- The loop of `FindNextStep` chooses a runnable actor and its next time.  Induction on
the actors that are left. -/
theorem chosen_of_findNextStepFrom {seen rest : List Actor} {next : Option NextStep}
    {found : NextStep}
    (hseen : ∀ n, next = some n → ∃ actor, seen[n.actorIndex]? = some actor ∧
      actor.isRunnable = true ∧ actor.nextStepTime = .ok n.time)
    (h : findNextStepFrom seen.length next rest = .ok (some found)) :
    ∃ actor, (seen ++ rest)[found.actorIndex]? = some actor ∧ actor.isRunnable = true ∧
      actor.nextStepTime = .ok found.time := by
  induction rest generalizing seen next with
  | nil =>
    rw [List.append_nil]
    exact hseen found (Except.ok.inj h)
  | cons actor rest ih =>
    have hsplit : seen ++ actor :: rest = (seen ++ [actor]) ++ rest := by simp
    have hlength : seen.length + 1 = (seen ++ [actor]).length := by simp
    have hkeep : ∀ n, next = some n → ∃ a, (seen ++ [actor])[n.actorIndex]? = some a ∧
        a.isRunnable = true ∧ a.nextStepTime = .ok n.time := by
      intro n hn
      obtain ⟨a, ha, hrunnable⟩ := hseen n hn
      have hlt := (List.getElem?_eq_some_iff.mp ha).1
      exact ⟨a, by rw [List.getElem?_append_left hlt, ha], hrunnable⟩
    rw [findNextStepFrom, hlength] at h
    rw [hsplit]
    split at h
    · rename_i hrunnable
      obtain ⟨t, ht, h⟩ := Outcome.bind_eq_ok.mp h
      split at h
      · refine ih (fun n hn => ?_) h
        obtain rfl := Option.some.inj hn
        exact ⟨actor, by simp, hrunnable, ht⟩
      · exact ih hkeep h
    · exact ih hkeep h

variable {w w' : World}

/-- A server that is chosen for a step is running, and the step is at its next time. -/
theorem running_of_findNextStep {i t : ℕ} {server : Server}
    (h : w.findNextStep = .ok (some ⟨i, t⟩)) (hserver : w.servers[i]? = some server) :
    server.state = .running ∧ server.nextStepTime = .ok t := by
  have h : findNextStepFrom ([] : List Actor).length none w.actors = .ok (some ⟨i, t⟩) := h
  obtain ⟨actor, hactor, hrunnable, ht⟩ :=
    chosen_of_findNextStepFrom (fun n hn => absurd hn (by simp)) h
  rw [List.nil_append] at hactor
  obtain rfl := Option.some.inj ((getElem?_actors hserver).symm.trans hactor)
  exact ⟨(Server.exists_nextStepTime hrunnable).1, ht⟩

/-! ## Every run -/

/-- Servers without a process have nothing, and none of them makes a step. -/
structure Orderly (w : World) : Prop where
  dormant : ∀ (i : ℕ) (server : Server), w.servers[i]? = some server → server.Dormant
  current : ∀ (i : ℕ) (server : Server), w.current = some i → w.servers[i]? = some server →
    server.isAlive = true

/-- A live server gets a new value in the same state. -/
theorem Orderly.setAlive {i : ℕ} {server server' : Server} (h : w.Orderly)
    (hservers : w'.servers = (w.setServer i server').servers) (halive : server.isAlive = true)
    (hstate : server'.state = server.state)
    (hcurrent : ∀ j, w'.current = some j → w.current = some j ∨ j = i) : w'.Orderly where
  dormant := by
    rw [Server.isAlive, ← hstate] at halive
    rw [hservers]
    exact forall_setServer h.dormant (Server.dormant_of_isAlive halive)
  current j server hj hserver := by
    rw [hservers] at hserver
    rcases eq_or_ne j i with rfl | hne
    · have hlt := (List.getElem?_eq_some_iff.mp hserver).1
      rw [setServer, List.length_set] at hlt
      rw [setServer, List.getElem?_set_self hlt] at hserver
      rwa [← Option.some.inj hserver, Server.isAlive, hstate]
    · rw [getElem?_setServer_ne w hne.symm] at hserver
      exact h.current j server ((hcurrent j hj).resolve_right hne) hserver

/-- The servers stay, and nobody makes a step now. -/
theorem Orderly.idle (h : w.Orderly) (hservers : w'.servers = w.servers)
    (hcurrent : w'.current = none ∨ w'.current = w.current) : w'.Orderly where
  dormant := by
    rw [hservers]
    exact h.dormant
  current j server hj hserver := by
    rw [hservers] at hserver
    rcases hcurrent with hnone | hsame
    · rw [hnone] at hj
      exact absurd hj (by simp)
    · rw [hsame] at hj
      exact h.current j server hj hserver

/-- A fault that does not wipe the server of the current step. -/
theorem Orderly.fault {target : ℕ} {fault : ServerFault} {server server' : Server}
    (h : w.Orderly) (hserver : w.servers[target]? = some server)
    (hfault : server.fault w.time.now fault = .ok server')
    (hother : w'.current = some target → w.current = some target ∧
      ¬ (fault = .crash ∨ fault = .fastReboot))
    (hcurrent : ∀ j, w'.current = some j → w.current = some j)
    (hservers : w'.servers = (w.setServer target server').servers) : w'.Orderly where
  dormant := by
    rw [hservers]
    exact forall_setServer h.dormant ((h.dormant target server hserver).fault hfault)
  current j server'' hj hserver'' := by
    rw [hservers] at hserver''
    rcases eq_or_ne j target with rfl | hne
    · rw [getElem?_setServer hserver] at hserver''
      obtain ⟨hold, hkeeps⟩ := hother hj
      rw [← Option.some.inj hserver'']
      exact Server.isAlive_fault (h.current j server hold hserver) hkeeps hfault
    · rw [getElem?_setServer_ne w hne.symm] at hserver''
      exact h.current j server'' (hcurrent j hj) hserver''

/-- **One action keeps the world orderly.** -/
theorem Orderly.execute {action : Action} (h : w.Orderly) (hw : w.execute action = .ok w') :
    w'.Orderly := by
  -- An action of the current server leaves it the current one.
  have hsame : ∀ {v : World} {i : ℕ}, v.current = w.current →
      ∀ j, v.current = some j → w.current = some j ∨ j = i := by
    intro v i hv j hj
    exact Or.inl (hv ▸ hj)
  cases action with
  | step flightTime =>
    cases stepped_of_execute hw with
    | deadlock => exact h.idle rfl (Or.inl rfl)
    | ran hserver hstep hnext =>
      obtain ⟨_, -, hrun⟩ := Server.step_eq_ok hstep
      have hrunning := (running_of_findNextStep hnext hserver).1
      exact h.setAlive rfl (Server.isAlive_of_running hrunning) (Server.sameShell_run hrun).state
        fun j hj => Or.inr (Option.some.inj hj).symm
    | skipped hquiet => exact h.idle rfl (Or.inl rfl)
    | answered hquiet _ _ _ hadd => exact h.idle rfl (Or.inl rfl)
    | accepted hquiet _ _ _ hserver htask =>
      -- A dead server has no endpoints to accept a packet at, so this one is alive.
      have halive := (h.dormant _ _ hserver).isAlive_of_scheduled htask
      exact h.setAlive rfl halive rfl fun j hj => absurd hj (by simp)
  | schedule delay id =>
    obtain ⟨i, server, hcurrent, hserver, rfl⟩ := execute_schedule hw
    exact h.setAlive rfl (h.current i server hcurrent hserver) rfl (hsame rfl)
  | connectTo address flightTime =>
    obtain ⟨i, server, socket, transport, net, hcurrent, hserver, -, rfl⟩ := execute_connectTo hw
    exact h.setAlive rfl (h.current i server hcurrent hserver) rfl (hsame rfl)
  | serve port =>
    obtain ⟨i, server, transport, hcurrent, hserver, -, rfl⟩ := execute_serve hw
    exact h.setAlive rfl (h.current i server hcurrent hserver) rfl (hsame rfl)
  | close object =>
    obtain ⟨i, server, server', hcurrent, hserver, hclose, rfl⟩ := execute_close hw
    exact h.setAlive rfl (h.current i server hcurrent hserver) (Server.sameShell_close hclose).state
      (hsame rfl)
  | destroy object =>
    obtain ⟨i, server, server', hcurrent, hserver, hclose, rfl⟩ := execute_destroy hw
    exact h.setAlive rfl (h.current i server hcurrent hserver) (Server.sameShell_close hclose).state
      (hsame rfl)
  | send object message flightTime =>
    obtain ⟨i, server, socket, net, -, -, -, -, rfl⟩ := execute_send hw
    exact h.idle rfl (Or.inr rfl)
  | reply index message flightTime =>
    obtain ⟨i, server, socket, net, -, -, -, -, rfl⟩ := execute_reply hw
    exact h.idle rfl (Or.inr rfl)
  | serverFault target fault =>
    obtain ⟨hother, server, server', hserver, hfault, rfl⟩ := execute_serverFault hw
    exact h.fault hserver hfault (fun hj => ⟨hj, fun hwipes => hother ⟨hj, hwipes⟩⟩)
      (fun j hj => hj) rfl
  | networkFault fault =>
    obtain ⟨net, -, rfl⟩ := execute_networkFault hw
    exact h.idle rfl (Or.inr rfl)
  | restartServer target =>
    obtain ⟨server, server', hserver, hfault, rfl⟩ := execute_restartServer hw
    exact h.fault hserver hfault (fun hj => absurd hj (by simp)) (fun j hj => absurd hj (by simp)) rfl

/-- All servers have a process when the world starts. -/
theorem Started.orderly (h : Started w) : w.Orderly := by
  obtain ⟨hosts, adversary, startTime, hstart⟩ := h
  obtain ⟨servers, rfl, hservers⟩ := start_eq_ok hstart
  refine ⟨fun i server hserver => ?_, fun i server hi => absurd hi (by simp)⟩
  have hserver : servers[i]? = some server := hserver
  rw [hservers, Option.map_eq_some_iff] at hserver
  obtain ⟨host, -, rfl⟩ := hserver
  exact Server.dormant_of_isAlive rfl

end World

end Whirl
