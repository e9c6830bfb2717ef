/-
# The scheduler of a node process

`Scheduler` of `process/scheduler.hpp`: tasks wait in a priority queue for their
time.  A resumed scheduler moves every overdue task to the present time.
-/
import WhirlMatrix.Helpers.PriorityQueue
import Mathlib.Order.Basic
import Mathlib.Data.Nat.Basic

namespace Whirl.Process

variable {T : Type}

/-- `Scheduler::ScheduledTask`. -/
structure ScheduledTask (T : Type) where
  atTime : ℕ
  task : T
  deriving DecidableEq, Repr

instance : LT (ScheduledTask T) := ⟨fun a b => a.atTime < b.atTime⟩

instance : DecidableLT (ScheduledTask T) := fun a b =>
  inferInstanceAs (Decidable (a.atTime < b.atTime))

instance : IsStrictWeakOrder (ScheduledTask T) (· < ·) :=
  isStrictWeakOrder_of_time ScheduledTask.atTime

/-- `Scheduler`. -/
structure Scheduler (T : Type) where
  queue : PriorityQueue (ScheduledTask T) := {}
  deriving DecidableEq, Repr

namespace Scheduler

/-- `Schedule`. -/
def schedule (scheduler : Scheduler T) (atTime : ℕ) (task : T) : Scheduler T where
  queue := scheduler.queue.insert ⟨atTime, task⟩

/-- `ScheduleAsap`. -/
def scheduleAsap (scheduler : Scheduler T) (task : T) (now : ℕ) : Scheduler T :=
  scheduler.schedule now task

/-- `IsEmpty`. -/
def isEmpty (scheduler : Scheduler T) : Bool := scheduler.queue.isEmpty

/-- `NextTaskTime`. -/
def nextTaskTime (scheduler : Scheduler T) : Outcome ℕ := do
  let smallest ← scheduler.queue.smallest
  return smallest.atTime

/-- `TakeNext`. -/
def takeNext (scheduler : Scheduler T) : Outcome (T × Scheduler T) := do
  let (next, queue) ← scheduler.queue.extract
  return (next.task, { queue := queue })

/-- `Reset`. -/
def reset (scheduler : Scheduler T) : Scheduler T where
  queue := scheduler.queue.clear

/-- The loop of `Resume`.  The first argument bounds the number of tests of the loop
condition. -/
def resumeLoop (atTime : ℕ) :
    ℕ → PriorityQueue (ScheduledTask T) → Outcome (PriorityQueue (ScheduledTask T))
  | 0, _ => .error .diverges
  | tests + 1, queue =>
    if queue.isEmpty then
      .ok queue
    else do
      let smallest ← queue.smallest
      if smallest.atTime < atTime then
        let (next, queue) ← queue.extract
        resumeLoop atTime tests (queue.insert ⟨atTime, next.task⟩)
      else
        return queue

/-- `Resume`. -/
def resume (scheduler : Scheduler T) (atTime : ℕ) : Outcome (Scheduler T) := do
  let queue ← resumeLoop atTime (scheduler.queue.size + 1) scheduler.queue
  return { queue := queue }

/-- The tasks that wait, with their times. -/
def tasks (scheduler : Scheduler T) : List (ScheduledTask T) := scheduler.queue.held

/-! ## What the operations do to the waiting tasks -/

theorem isEmpty_iff {scheduler : Scheduler T} : scheduler.isEmpty = true ↔ scheduler.tasks = [] :=
  PriorityQueue.isEmpty_iff

/-- The next task is one that waits, and none is earlier. -/
theorem nextTaskTime_eq_ok {scheduler : Scheduler T} {t : ℕ} (h : scheduler.nextTaskTime = .ok t) :
    (∃ task ∈ scheduler.tasks, task.atTime = t) ∧ ∀ task ∈ scheduler.tasks, t ≤ task.atTime := by
  obtain ⟨next, hnext, htime⟩ := Outcome.bind_eq_ok.mp h
  obtain rfl : next.atTime = t := Outcome.pure_eq_ok.mp htime
  refine ⟨⟨next, PriorityQueue.mem_of_smallest hnext, rfl⟩, fun task htask => ?_⟩
  exact Nat.not_lt.mp (PriorityQueue.not_lt_smallest hnext task htask)

/-- A scheduler that is not empty has a next task. -/
theorem exists_nextTaskTime {scheduler : Scheduler T} (h : scheduler.isEmpty = false) :
    ∃ t, scheduler.nextTaskTime = .ok t := by
  rw [← Bool.not_eq_true, isEmpty_iff] at h
  obtain ⟨next, hnext⟩ := PriorityQueue.exists_smallest h
  exact ⟨next.atTime, Outcome.bind_eq_ok.mpr ⟨next, hnext, rfl⟩⟩

/-- Taking the next task removes one task, and that one is due at the next time. -/
theorem takeNext_eq_ok {scheduler scheduler' : Scheduler T} {task : T}
    (h : scheduler.takeNext = .ok (task, scheduler')) :
    ∃ t, scheduler.nextTaskTime = .ok t ∧
      (⟨t, task⟩ :: scheduler'.tasks).Perm scheduler.tasks := by
  obtain ⟨⟨next, queue⟩, hextract, h⟩ := Outcome.bind_eq_ok.mp h
  obtain ⟨rfl, rfl⟩ := Prod.mk.inj (Outcome.pure_eq_ok.mp h)
  have hnext : scheduler.queue.smallest = .ok next := PriorityQueue.smallest_eq_ok.mpr ⟨_, hextract⟩
  exact ⟨next.atTime, Outcome.bind_eq_ok.mpr ⟨next, hnext, rfl⟩, PriorityQueue.extract_perm hextract⟩

theorem mem_of_takeNext {scheduler scheduler' : Scheduler T} {task : T} {t : ScheduledTask T}
    (h : scheduler.takeNext = .ok (task, scheduler')) (ht : t ∈ scheduler'.tasks) :
    t ∈ scheduler.tasks := by
  obtain ⟨_, -, hperm⟩ := takeNext_eq_ok h
  exact hperm.mem_iff.mp (List.mem_cons_of_mem _ ht)

/-- A task that `Resume` has lifted to the time of the resume. -/
def lift (atTime : ℕ) (task : ScheduledTask T) : ScheduledTask T :=
  { task with atTime := max task.atTime atTime }

theorem lift_of_le {atTime : ℕ} {task : ScheduledTask T} (h : atTime ≤ task.atTime) :
    lift atTime task = task := by
  rw [lift, max_eq_left h]

/-- The loop of `Resume` ends when there are more tests than overdue tasks, and then it
has lifted each task.  Induction on the tests: each turn lifts one overdue task. -/
theorem resumeLoop_eq_ok {atTime tests : ℕ} {queue : PriorityQueue (ScheduledTask T)}
    (h : queue.held.countP (fun task => decide (task.atTime < atTime)) < tests) :
    ∃ queue', resumeLoop atTime tests queue = .ok queue' ∧
      queue'.held.Perm (queue.held.map (lift atTime)) := by
  induction tests generalizing queue with
  | zero => exact absurd h (Nat.not_lt_zero _)
  | succ tests ih =>
    have hstop : (∀ task ∈ queue.held, atTime ≤ task.atTime) →
        queue.held.Perm (queue.held.map (lift atTime)) := by
      intro hall
      rw [List.map_congr_left fun task htask => lift_of_le (hall task htask), List.map_id']
    rw [resumeLoop]
    split
    · rename_i hempty
      refine ⟨queue, rfl, hstop fun task htask => ?_⟩
      rw [PriorityQueue.isEmpty_iff.mp hempty] at htask
      exact absurd htask (List.not_mem_nil)
    · rename_i hempty
      rw [PriorityQueue.isEmpty_iff] at hempty
      obtain ⟨next, queue', hextract⟩ := PriorityQueue.exists_extract hempty
      have hnext : queue.smallest = .ok next := PriorityQueue.smallest_eq_ok.mpr ⟨_, hextract⟩
      have hperm := PriorityQueue.extract_perm hextract
      rw [hnext, hextract]
      show ∃ queue'', (if next.atTime < atTime then _ else _) = _ ∧ _
      split
      · rename_i hover
        -- one overdue task less
        have hcount : (queue'.insert ⟨atTime, next.task⟩).held.countP
            (fun task => decide (task.atTime < atTime)) < tests := by
          rw [← hperm.countP_eq, List.countP_cons] at h
          rw [PriorityQueue.held_insert, List.countP_cons]
          simp only [hover, decide_true, if_true, Nat.lt_irrefl, decide_false, Bool.false_eq_true,
            if_false] at h ⊢
          omega
        obtain ⟨queue'', hloop, hlifted⟩ := ih hcount
        refine ⟨queue'', hloop, hlifted.trans ?_⟩
        have hlift : lift atTime (⟨atTime, next.task⟩ : ScheduledTask T) = lift atTime next := by
          simp only [lift, max_self, max_eq_right hover.le]
        rw [PriorityQueue.held_insert, List.map_cons, hlift, ← List.map_cons]
        exact hperm.map _
      · rename_i hover
        refine ⟨queue, rfl, hstop fun task htask => ?_⟩
        have hmin : ¬ task.atTime < next.atTime := PriorityQueue.not_lt_extract hextract task htask
        omega

/-- `Resume` always returns, and lifts every overdue task to the present. -/
theorem exists_resume (scheduler : Scheduler T) (atTime : ℕ) :
    ∃ scheduler', scheduler.resume atTime = .ok scheduler' ∧
      scheduler'.tasks.Perm (scheduler.tasks.map (lift atTime)) := by
  have hcount : scheduler.queue.held.countP (fun task => decide (task.atTime < atTime))
      < scheduler.queue.size + 1 := by
    have hle := List.countP_le_length (p := fun task => decide (task.atTime < atTime))
      (l := scheduler.queue.held)
    have hsize : scheduler.queue.held.length = scheduler.queue.size := List.length_map _
    omega
  obtain ⟨queue', hloop, hperm⟩ := resumeLoop_eq_ok hcount
  exact ⟨{ queue := queue' }, Outcome.bind_eq_ok.mpr ⟨queue', hloop, rfl⟩, hperm⟩

theorem tasks_of_resume {scheduler scheduler' : Scheduler T} {atTime : ℕ}
    (h : scheduler.resume atTime = .ok scheduler') :
    scheduler'.tasks.Perm (scheduler.tasks.map (lift atTime)) := by
  obtain ⟨scheduler'', h'', hperm⟩ := exists_resume scheduler atTime
  obtain rfl := Except.ok.inj (h''.symm.trans h)
  exact hperm

end Scheduler

end Whirl.Process
