/-
# Schedulers do not look into tasks

`Scheduler` orders tasks by their times and by the insertion counter only.  So when
every task is renamed, each operation gives the renamed result.
-/
import WhirlMatrix.Process.Scheduler

namespace Whirl

variable {T T' : Type}

/-! ## Queues -/

/-- The item gets a new value and keeps its tie-breaker. -/
def UniqueT.map (f : T → T') (u : UniqueT T) : UniqueT T' := ⟨f u.item, u.tieBraker⟩

namespace PriorityQueue

/-- Every item gets a new value. -/
def map (f : T → T') (q : PriorityQueue T) : PriorityQueue T' where
  items := q.items.map (UniqueT.map f)
  inserts := q.inserts

variable [LT T] [DecidableLT T] [LT T'] [DecidableLT T'] {f : T → T'}

/-- A renaming that keeps the order keeps the comparison of items. -/
theorem priorityLess_map (hf : ∀ a b, f a < f b ↔ a < b) (u v : UniqueT T) :
    priorityLess (u.map f) (v.map f) = priorityLess u v := by
  have hless : ∀ a b, decide (f a < f b) = decide (a < b) := fun a b => decide_eq_decide.mpr (hf a b)
  show (decide (f v.item < f u.item) || (!decide (f v.item < f u.item) &&
    !decide (f u.item < f v.item) && decide (v.tieBraker < u.tieBraker))) = _
  rw [hless, hless]
  rfl

/-- It keeps the top. -/
theorem popTop_map (hf : ∀ a b, f a < f b ↔ a < b) (l : List (UniqueT T)) :
    popTop (l.map (UniqueT.map f))
      = (popTop l).map fun p => (p.1.map f, p.2.map (UniqueT.map f)) := by
  induction l with
  | nil => rfl
  | cons u l ih =>
    rw [List.map_cons, popTop, popTop, ih]
    cases popTop l with
    | none => rfl
    | some p =>
      obtain ⟨top, rest⟩ := p
      simp only [Option.map_some, priorityLess_map hf]
      split <;> rfl

/-- `Extract` of the renamed queue. -/
theorem extract_map (hf : ∀ a b, f a < f b ↔ a < b) (q : PriorityQueue T) :
    (q.map f).extract = q.extract.map fun p => (f p.1, p.2.map f) := by
  unfold extract
  rw [map, popTop_map hf]
  cases popTop q.items with
  | none => rfl
  | some p => rfl

/-- `Smallest` of the renamed queue. -/
theorem smallest_map (hf : ∀ a b, f a < f b ↔ a < b) (q : PriorityQueue T) :
    (q.map f).smallest = q.smallest.map f := by
  unfold smallest
  rw [map, popTop_map hf]
  cases popTop q.items with
  | none => rfl
  | some p => rfl

omit [LT T] [DecidableLT T] [LT T'] [DecidableLT T'] in
theorem isEmpty_map (f : T → T') (q : PriorityQueue T) : (q.map f).isEmpty = q.isEmpty := by
  unfold isEmpty
  rw [map, List.isEmpty_map]

omit [LT T] [DecidableLT T] [LT T'] [DecidableLT T'] in
/-- Only the values of the items that are held matter. -/
theorem map_congr {f g : T → T'} {q : PriorityQueue T} (h : ∀ x ∈ q.held, f x = g x) :
    q.map f = q.map g := by
  have hitems : q.items.map (UniqueT.map f) = q.items.map (UniqueT.map g) := by
    apply List.map_congr_left
    intro u hu
    rw [UniqueT.map, UniqueT.map, h u.item (List.mem_map_of_mem hu)]
  rw [map, map, hitems]

end PriorityQueue

/-! ## Schedulers -/

namespace Process

/-- The task gets a new name and keeps its time. -/
def ScheduledTask.map (f : T → T') (task : ScheduledTask T) : ScheduledTask T' :=
  ⟨task.atTime, f task.task⟩

namespace Scheduler

/-- Every task gets a new name. -/
def map (f : T → T') (scheduler : Scheduler T) : Scheduler T' where
  queue := scheduler.queue.map (ScheduledTask.map f)

variable (f : T → T') (scheduler : Scheduler T)

theorem map_schedule (t : ℕ) (task : T) :
    (scheduler.schedule t task).map f = (scheduler.map f).schedule t (f task) := rfl

theorem map_reset : scheduler.reset.map f = (scheduler.map f).reset := rfl

theorem tasks_map : (scheduler.map f).tasks = scheduler.tasks.map (ScheduledTask.map f) := by
  simp only [tasks, map, PriorityQueue.held, PriorityQueue.map, List.map_map]
  rfl

/-- Only the names of the tasks that wait matter. -/
theorem map_congr {f g : T → T'} {scheduler : Scheduler T}
    (h : ∀ task ∈ scheduler.tasks, f task.task = g task.task) :
    scheduler.map f = scheduler.map g := by
  have hqueue : scheduler.queue.map (ScheduledTask.map f)
      = scheduler.queue.map (ScheduledTask.map g) := by
    apply PriorityQueue.map_congr
    intro task htask
    rw [ScheduledTask.map, ScheduledTask.map, h task htask]
  rw [map, map, hqueue]

/-- Renaming keeps the order of times. -/
theorem map_lt_map (a b : ScheduledTask T) : a.map f < b.map f ↔ a < b := Iff.rfl

theorem nextTaskTime_map : (scheduler.map f).nextTaskTime = scheduler.nextTaskTime := by
  unfold nextTaskTime
  rw [map, PriorityQueue.smallest_map (map_lt_map f)]
  cases scheduler.queue.smallest with
  | error e => rfl
  | ok smallest => rfl

theorem takeNext_map :
    (scheduler.map f).takeNext = scheduler.takeNext.map fun p => (f p.1, p.2.map f) := by
  unfold takeNext
  rw [map, PriorityQueue.extract_map (map_lt_map f)]
  cases scheduler.queue.extract with
  | error e => rfl
  | ok p => rfl

/-- The loop of `Resume` on the renamed queue. -/
theorem resumeLoop_map (t tests : ℕ) (queue : PriorityQueue (ScheduledTask T)) :
    resumeLoop t tests (queue.map (ScheduledTask.map f))
      = (resumeLoop t tests queue).map fun queue => queue.map (ScheduledTask.map f) := by
  induction tests generalizing queue with
  | zero => rfl
  | succ tests ih =>
    rw [resumeLoop, resumeLoop, PriorityQueue.isEmpty_map,
      PriorityQueue.smallest_map (map_lt_map f), PriorityQueue.extract_map (map_lt_map f)]
    split
    · rfl
    · cases queue.smallest with
      | error e => rfl
      | ok smallest =>
        show (if smallest.atTime < t then _ else _) = Except.map _ (if smallest.atTime < t then _ else _)
        split
        · cases queue.extract with
          | error e => rfl
          | ok p =>
            obtain ⟨next, queue'⟩ := p
            exact ih (queue'.insert ⟨t, next.task⟩)
        · rfl

theorem resume_map (t : ℕ) :
    (scheduler.map f).resume t = (scheduler.resume t).map fun scheduler => scheduler.map f := by
  unfold resume
  have hsize : (scheduler.map f).queue.size = scheduler.queue.size := List.length_map _
  rw [hsize, map, resumeLoop_map]
  cases resumeLoop t (scheduler.queue.size + 1) scheduler.queue with
  | error e => rfl
  | ok queue => rfl

end Scheduler

end Process

end Whirl
