/-
# The order of tasks after a resume

A paused scheduler keeps its tasks while their times pass.  `Scheduler::Resume`
moves the overdue tasks, one by one, to the present time, where each gets a new
tie-breaker: they keep their order among each other and stay before all later tasks,
but a task that is due at the very time of the resume has an older tie-breaker and
now comes before all of them.  Without such a mixture any number of pauses leaves the
order in which the tasks were scheduled.
-/
import WhirlMatrix.Library.Runs
import WhirlMatrix.Helpers.SortedQueue
import WhirlMatrix.Process.Scheduler

namespace Whirl.Process

variable {T : Type}

namespace Scheduler

/-! ## The order in which tasks are taken -/

/-- The tasks that `TakeNext` yields, one after another, until the scheduler is empty.  The
first argument bounds their number. -/
def takeAll : ℕ → Scheduler T → Outcome (List T)
  | 0, _ => .ok []
  | n + 1, scheduler =>
    if scheduler.isEmpty then
      .ok []
    else do
      let (task, scheduler) ← scheduler.takeNext
      let rest ← takeAll n scheduler
      return task :: rest

/-- The order in which the waiting tasks are taken. -/
def order (scheduler : Scheduler T) : Outcome (List T) := takeAll scheduler.queue.size scheduler

/-- The tasks of a list of queue items. -/
def tasksOf (o : List (UniqueT (ScheduledTask T))) : List T := o.map (·.item.task)

variable {scheduler scheduler' : Scheduler T} {o : List (UniqueT (ScheduledTask T))}
  {queue : PriorityQueue (ScheduledTask T)} {atTime : ℕ}

theorem takeAll_eq {n : ℕ} (h : scheduler.queue.Lists o) (hn : o.length ≤ n) :
    takeAll n scheduler = .ok (tasksOf o) := by
  induction n generalizing scheduler o with
  | zero =>
    obtain rfl : o = [] := List.eq_nil_of_length_eq_zero (Nat.le_zero.mp hn)
    rfl
  | succ n ih =>
    have hempty : scheduler.isEmpty = o.isEmpty := h.isEmpty
    unfold takeAll
    rw [hempty]
    cases o with
    | nil => rfl
    | cons u o =>
      obtain ⟨queue, hextract, hrest⟩ := h.extract
      have htake : scheduler.takeNext = .ok (u.item.task, { queue := queue }) := by
        unfold takeNext
        rw [hextract]
        rfl
      have hall : takeAll n { queue := queue } = .ok (tasksOf o) :=
        ih hrest (Nat.le_of_succ_le_succ (by simpa using hn))
      rw [htake]
      show (do
        let rest ← takeAll n { queue := queue }
        return u.item.task :: rest) = _
      rw [hall]
      rfl

/-- Tasks are taken in the order of their times, and of their scheduling when these are
equal. -/
theorem order_eq (h : scheduler.queue.Lists o) : scheduler.order = .ok (tasksOf o) :=
  takeAll_eq h h.size.ge

/-! ## What a resume does to the order -/

/-- A queue before the loop of `Resume`: overdue tasks, tasks of the present, later tasks. -/
structure Parts (atTime : ℕ) (overdue due later : List (UniqueT (ScheduledTask T))) : Prop where
  overdue : ∀ u ∈ overdue, u.item.atTime < atTime
  due : ∀ u ∈ due, u.item.atTime = atTime
  later : ∀ u ∈ later, atTime < u.item.atTime

variable {overdue due later : List (UniqueT (ScheduledTask T))}

/-- A task that is inserted at the present time comes after the overdue tasks and those of
the present. -/
theorem lists_insert_parts (h : queue.Lists (overdue ++ due ++ later))
    (hparts : Parts atTime overdue due later) (task : T) :
    (queue.insert ⟨atTime, task⟩).Lists
      (overdue ++ (due ++ [⟨⟨atTime, task⟩, queue.inserts + 1⟩]) ++ later) := by
  have hlists := h.insert ⟨atTime, task⟩
  have hbefore : ∀ u ∈ overdue ++ due, ¬ (⟨atTime, task⟩ : ScheduledTask T) < u.item := by
    intro u hu
    show ¬ atTime < u.item.atTime
    rcases List.mem_append.mp hu with hu | hu
    · have := hparts.overdue u hu
      omega
    · have := hparts.due u hu
      omega
  have hafter : ∀ u ∈ later, (⟨atTime, task⟩ : ScheduledTask T) < u.item := hparts.later
  have hleft : (overdue ++ due ++ later).filter
      (fun u => !decide ((⟨atTime, task⟩ : ScheduledTask T) < u.item)) = overdue ++ due := by
    rw [List.filter_append, List.filter_eq_self.mpr fun u hu => by simpa using hbefore u hu,
      List.filter_eq_nil_iff.mpr fun u hu => by simpa using hafter u hu, List.append_nil]
  have hright : (overdue ++ due ++ later).filter
      (fun u => decide ((⟨atTime, task⟩ : ScheduledTask T) < u.item)) = later := by
    rw [List.filter_append, List.filter_eq_nil_iff.mpr fun u hu => by simpa using hbefore u hu,
      List.filter_eq_self.mpr fun u hu => by simpa using hafter u hu, List.nil_append]
  rw [hleft, hright] at hlists
  simpa using hlists

/-- The loop of `Resume` moves the overdue tasks behind those of the present.  Induction on
the overdue tasks: each turn moves the first one. -/
theorem resumeLoop_lists {tests : ℕ} (h : queue.Lists (overdue ++ due ++ later))
    (hparts : Parts atTime overdue due later) (htests : overdue.length < tests) :
    ∃ queue' moved, resumeLoop atTime tests queue = .ok queue' ∧
      queue'.Lists (due ++ moved ++ later) ∧ tasksOf moved = tasksOf overdue := by
  induction overdue generalizing queue due tests with
  | nil =>
    obtain ⟨tests, rfl⟩ : ∃ n, tests = n + 1 := ⟨tests - 1, by omega⟩
    refine ⟨queue, [], ?_, by simpa using h, rfl⟩
    rw [List.nil_append] at h
    unfold resumeLoop
    rw [h.isEmpty]
    cases hfirst : due ++ later with
    | nil => rfl
    | cons u o =>
      -- Nothing is overdue: the first task, if there is one, is due now or later.
      have hge : ¬ u.item.atTime < atTime := by
        have hmem : u ∈ due ++ later := by
          rw [hfirst]
          exact List.mem_cons_self ..
        rcases List.mem_append.mp hmem with hu | hu
        · have := hparts.due u hu
          omega
        · have := hparts.later u hu
          omega
      rw [hfirst] at h
      rw [h.smallest]
      show (if u.item.atTime < atTime then _ else _) = _
      rw [if_neg hge]
      rfl
  | cons u overdue ih =>
    obtain ⟨tests, rfl⟩ : ∃ n, tests = n + 1 := ⟨tests - 1, by omega⟩
    have hlt : u.item.atTime < atTime := hparts.overdue u (List.mem_cons_self ..)
    have hparts' : Parts atTime overdue due later :=
      ⟨fun v hv => hparts.overdue v (List.mem_cons_of_mem _ hv), hparts.due, hparts.later⟩
    have hcons : queue.Lists (u :: (overdue ++ due ++ later)) := h
    obtain ⟨queue₁, hextract, hrest⟩ := hcons.extract
    -- The task moves behind those that are due now, which keeps the three parts.
    have hinsert := lists_insert_parts hrest hparts' u.item.task
    have hdue : ∀ v ∈ due ++ [⟨⟨atTime, u.item.task⟩, queue₁.inserts + 1⟩],
        v.item.atTime = atTime := by
      intro v hv
      rcases List.mem_append.mp hv with hv | hv
      · exact hparts.due v hv
      · rw [List.mem_singleton.mp hv]
    obtain ⟨queue', moved, hloop, hlists, hmoved⟩ := ih hinsert ⟨hparts'.overdue, hdue, hparts.later⟩
      (Nat.lt_of_succ_lt_succ htests)
    refine ⟨queue', ⟨⟨atTime, u.item.task⟩, queue₁.inserts + 1⟩ :: moved, ?_, ?_, ?_⟩
    · unfold resumeLoop
      rw [hcons.isEmpty, hcons.smallest, hextract]
      show (if u.item.atTime < atTime then _ else _) = _
      rw [if_pos hlt]
      exact hloop
    · simpa using hlists
    · unfold tasksOf at hmoved ⊢
      rw [List.map_cons, List.map_cons, hmoved]

/-- The three parts of a queue. -/
theorem exists_parts (atTime : ℕ) (h : queue.Lists o) :
    ∃ overdue due later, o = overdue ++ due ++ later ∧ Parts atTime overdue due later := by
  have htimes : ∀ {a b : UniqueT (ScheduledTask T)}, a.less b = true →
      a.item.atTime ≤ b.item.atTime := by
    intro a b hless
    have hless' := UniqueT.less_asymm hless
    unfold UniqueT.less at hless'
    simp only [Bool.or_eq_true, decide_eq_true_eq, not_or] at hless'
    exact Nat.not_lt.mp hless'.1
  have hover := PriorityQueue.filter_append_filter_of_pairwise (l := o)
    (p := fun u => decide (u.item.atTime < atTime)) (h.sorted.imp fun {a b} hless hb => by
      have := htimes hless
      simp only [decide_eq_true_eq] at hb ⊢
      omega)
  have hdue := PriorityQueue.filter_append_filter_of_pairwise
    (l := o.filter fun u => !decide (u.item.atTime < atTime))
    (p := fun u => decide (u.item.atTime ≤ atTime))
    ((h.sorted.sublist List.filter_sublist).imp fun {a b} hless hb => by
      have := htimes hless
      simp only [decide_eq_true_eq] at hb ⊢
      omega)
  refine ⟨o.filter fun u => decide (u.item.atTime < atTime),
    (o.filter fun u => !decide (u.item.atTime < atTime)).filter fun u =>
      decide (u.item.atTime ≤ atTime),
    (o.filter fun u => !decide (u.item.atTime < atTime)).filter fun u =>
      !decide (u.item.atTime ≤ atTime), ?_, fun u hu => ?_, fun u hu => ?_, fun u hu => ?_⟩
  · rw [List.append_assoc, hdue, hover]
  · simpa using (List.mem_filter.mp hu).2
  · obtain ⟨hmem, hle⟩ := List.mem_filter.mp hu
    have hge := (List.mem_filter.mp hmem).2
    simp only [Bool.not_eq_true', decide_eq_false_iff_not, decide_eq_true_eq] at hge hle
    omega
  · have hgt := (List.mem_filter.mp hu).2
    simp only [Bool.not_eq_true', decide_eq_false_iff_not] at hgt
    omega

/-- The order of tasks before and after a resume. -/
theorem order_resume (h : scheduler.queue.Lists o) (atTime : ℕ) :
    ∃ overdue due later scheduler', o = overdue ++ due ++ later ∧ Parts atTime overdue due later ∧
      scheduler.resume atTime = .ok scheduler' ∧
      scheduler.order = .ok (tasksOf overdue ++ tasksOf due ++ tasksOf later) ∧
      scheduler'.order = .ok (tasksOf due ++ tasksOf overdue ++ tasksOf later) := by
  obtain ⟨overdue, due, later, rfl, hparts⟩ := exists_parts atTime h
  have htests : overdue.length < scheduler.queue.size + 1 := by
    rw [h.size, List.length_append, List.length_append]
    omega
  obtain ⟨queue', moved, hloop, hlists, hmoved⟩ := resumeLoop_lists h hparts htests
  refine ⟨overdue, due, later, { queue := queue' }, rfl, hparts, ?_, ?_, ?_⟩
  · unfold resume
    rw [hloop]
    rfl
  · rw [order_eq h]
    simp [tasksOf]
  · have horder : order { queue := queue' } = .ok (tasksOf (due ++ moved ++ later)) :=
      order_eq hlists
    rw [horder, ← hmoved]
    simp [tasksOf]

/-! ## Runs of a scheduler -/

/-- What a server does with its scheduler. -/
inductive Op (T : Type) where
  | schedule (atTime : ℕ) (task : T)
  | scheduleAsap (task : T) (now : ℕ)
  | takeNext
  | resume (atTime : ℕ)
  | reset
  deriving DecidableEq, Repr

/-- One operation. -/
def execute (scheduler : Scheduler T) : Op T → Outcome (Scheduler T)
  | .schedule atTime task => .ok (scheduler.schedule atTime task)
  | .scheduleAsap task now => .ok (scheduler.scheduleAsap task now)
  | .takeNext => do
    let (_, scheduler) ← scheduler.takeNext
    return scheduler
  | .resume atTime => scheduler.resume atTime
  | .reset => .ok scheduler.reset

/-- `TakeNext` takes the head of the list. -/
theorem lists_takeNext {task : T} (h : scheduler.queue.Lists o)
    (htake : scheduler.takeNext = .ok (task, scheduler')) :
    ∃ u o', o = u :: o' ∧ scheduler'.queue.Lists o' := by
  obtain ⟨⟨next, queue⟩, hextract, htake⟩ := Outcome.bind_eq_ok.mp htake
  obtain ⟨-, rfl⟩ := Prod.mk.inj (Outcome.pure_eq_ok.mp htake)
  cases o with
  | nil =>
    have hperm := PriorityQueue.extract_perm hextract
    have hlen := (hperm.trans h.held).length_eq
    exact absurd hlen (by simp)
  | cons u o =>
    obtain ⟨queue', hextract', hrest⟩ := h.extract
    obtain ⟨-, rfl⟩ := Prod.mk.inj (Except.ok.inj (hextract.symm.trans hextract'))
    exact ⟨u, o, rfl, hrest⟩

/-- Every operation leaves a queue that is a sorted list. -/
theorem exists_lists_execute {op : Op T} (h : ∃ o, scheduler.queue.Lists o)
    (hop : scheduler.execute op = .ok scheduler') : ∃ o, scheduler'.queue.Lists o := by
  obtain ⟨o, ho⟩ := h
  cases op with
  | schedule atTime task =>
    obtain rfl := Except.ok.inj hop
    exact ⟨_, ho.insert ⟨atTime, task⟩⟩
  | scheduleAsap task now =>
    obtain rfl := Except.ok.inj hop
    exact ⟨_, ho.insert ⟨now, task⟩⟩
  | takeNext =>
    obtain ⟨⟨task, scheduler₁⟩, htake, hop⟩ := Outcome.bind_eq_ok.mp hop
    obtain rfl := Outcome.pure_eq_ok.mp hop
    obtain ⟨u, o, -, hrest⟩ := lists_takeNext ho htake
    exact ⟨o, hrest⟩
  | resume atTime =>
    obtain ⟨overdue, due, later, rfl, hparts⟩ := exists_parts atTime ho
    have htests : overdue.length < scheduler.queue.size + 1 := by
      rw [ho.size, List.length_append, List.length_append]
      omega
    obtain ⟨queue', moved, hloop, hlists, -⟩ := resumeLoop_lists ho hparts htests
    obtain ⟨queue, hqueue, hop⟩ := Outcome.bind_eq_ok.mp hop
    obtain rfl := Outcome.pure_eq_ok.mp hop
    obtain rfl := Except.ok.inj (hloop.symm.trans hqueue)
    exact ⟨_, hlists⟩
  | reset =>
    obtain rfl := Except.ok.inj hop
    exact ⟨[], PriorityQueue.lists_clear _⟩

theorem exists_lists_of_reaches
    (h : Runs.Reaches execute (fun _ _ => True) ({} : Scheduler T) scheduler) :
    ∃ o, scheduler.queue.Lists o :=
  h.invariant (I := fun scheduler => ∃ o, scheduler.queue.Lists o)
    ⟨[], PriorityQueue.lists_empty⟩ fun _ _ _ hI _ hop => exists_lists_execute hI hop

/-- The waiting tasks by the times that the queue holds for them, those with equal times in
the order of insertion.  An earlier resume has already lifted the times and the tie-breakers of
the tasks that were overdue then, so this is the order in which the tasks are taken when
the pause that is looked at does not take place. -/
def InOrder (scheduler : Scheduler T) (l : List T) : Prop :=
  ∃ o : List (UniqueT (ScheduledTask T)), scheduler.queue.items.Perm o ∧
    o.Pairwise (fun a b => a.item.atTime < b.item.atTime ∨
      (a.item.atTime = b.item.atTime ∧ a.tieBraker < b.tieBraker)) ∧ l = tasksOf o

/-- Not both an overdue task and a task that is due at the very time of the resume wait. -/
def Unmixed (scheduler : Scheduler T) (atTime : ℕ) : Prop :=
  ¬ ((∃ task ∈ scheduler.tasks, task.atTime < atTime) ∧
    ∃ task ∈ scheduler.tasks, task.atTime = atTime)

theorem inOrder_of_lists (h : scheduler.queue.Lists o) : InOrder scheduler (tasksOf o) := by
  refine ⟨o, h.perm, h.sorted.imp fun {a b} hless => ?_, rfl⟩
  simp only [UniqueT.less, equal, Bool.or_eq_true, Bool.and_eq_true, Bool.not_eq_true',
    decide_eq_true_eq, decide_eq_false_iff_not] at hless
  rcases hless with hlt | ⟨⟨hge, hle⟩, htie⟩
  · exact Or.inl hlt
  · exact Or.inr ⟨Nat.le_antisymm (Nat.not_lt.mp hle) (Nat.not_lt.mp hge), htie⟩

/-- Then one of the two parts is empty. -/
theorem overdue_eq_nil_or_due_eq_nil (h : scheduler.queue.Lists (overdue ++ due ++ later))
    (hparts : Parts atTime overdue due later) (hunmixed : Unmixed scheduler atTime) :
    overdue = [] ∨ due = [] := by
  have hmem : ∀ u ∈ overdue ++ due ++ later, u.item ∈ scheduler.tasks := fun u hu =>
    h.held.mem_iff.mpr (List.mem_map_of_mem hu)
  cases overdue with
  | nil => exact Or.inl rfl
  | cons u overdue =>
    cases due with
    | nil => exact Or.inr rfl
    | cons v due =>
      refine absurd ⟨⟨u.item, hmem u (by simp), ?_⟩, v.item, hmem v (by simp), ?_⟩ hunmixed
      · exact hparts.overdue u (List.mem_cons_self ..)
      · exact hparts.due v (List.mem_cons_self ..)

/-- **When a resume keeps the order of tasks.**  For every queue that a scheduler can have and
every time of the resume: without this resume the tasks would be taken by the times that they
have in the queue, and by their insertion when these are equal; the resume keeps this order
unless both overdue tasks and tasks of that very time wait; and when both do, and no task
waits twice, it does not. -/
theorem order_resume_iff
    (h : Runs.Reaches execute (fun _ _ => True) ({} : Scheduler T) scheduler) (atTime : ℕ) :
    ∃ scheduler' before after, scheduler.resume atTime = .ok scheduler' ∧
      scheduler.order = .ok before ∧ scheduler'.order = .ok after ∧ InOrder scheduler before ∧
      (Unmixed scheduler atTime → after = before) ∧
      ((scheduler.tasks.map (·.task)).Nodup → after = before → Unmixed scheduler atTime) := by
  obtain ⟨o, ho⟩ := exists_lists_of_reaches h
  obtain ⟨overdue, due, later, scheduler', rfl, hparts, hresume, hbefore, hafter⟩ :=
    order_resume ho atTime
  have htasks : scheduler.tasks.Perm ((overdue ++ due ++ later).map (·.item)) := ho.held
  have hmem : ∀ u ∈ overdue ++ due ++ later, u.item ∈ scheduler.tasks := fun u hu =>
    htasks.mem_iff.mpr (List.mem_map_of_mem hu)
  refine ⟨scheduler', _, _, hresume, hbefore, hafter, ?_, fun hunmixed => ?_, ?_⟩
  · have hin := inOrder_of_lists ho
    simpa [tasksOf] using hin
  · rcases overdue_eq_nil_or_due_eq_nil ho hparts hunmixed with rfl | rfl
    · show tasksOf due ++ [] ++ _ = [] ++ tasksOf due ++ _
      rw [List.append_nil, List.nil_append]
    · show [] ++ tasksOf overdue ++ _ = tasksOf overdue ++ [] ++ _
      rw [List.nil_append, List.append_nil]
  · intro hnodup heq
    rintro ⟨⟨a, ha, hlt⟩, b, hb, hnow⟩
    obtain ⟨u, hu, rfl⟩ := List.mem_map.mp (htasks.mem_iff.mp ha)
    obtain ⟨v, hv, rfl⟩ := List.mem_map.mp (htasks.mem_iff.mp hb)
    -- the two tasks lie in the first two parts
    have hu' : u ∈ overdue := by
      rcases List.mem_append.mp hu with hu | hu
      · rcases List.mem_append.mp hu with hu | hu
        · exact hu
        · have := hparts.due u hu
          omega
      · have := hparts.later u hu
        omega
    have hv' : v ∈ due := by
      rcases List.mem_append.mp hv with hv | hv
      · rcases List.mem_append.mp hv with hv | hv
        · have := hparts.overdue v hv
          omega
        · exact hv
      · have := hparts.later v hv
        omega
    obtain ⟨x, overdue, rfl⟩ := List.exists_cons_of_ne_nil (List.ne_nil_of_mem hu')
    obtain ⟨y, due, rfl⟩ := List.exists_cons_of_ne_nil (List.ne_nil_of_mem hv')
    -- so the two orders begin with the same task
    have hhead : y.item.task = x.item.task := by
      have hheads := congrArg List.head? heq
      simpa [tasksOf] using hheads
    have hdistinct := (htasks.map (·.task)).nodup_iff.mp hnodup
    rw [List.map_map, List.map_append, List.map_append] at hdistinct
    have hcross := (List.nodup_append.mp (List.nodup_append.mp hdistinct).1).2.2
    exact hcross x.item.task (by simp) y.item.task (by simp) hhead.symm

/-- An overdue task and a later one keep their order. -/
theorem order_resume_iff_later :
    ∃ scheduler' before after,
      (((({} : Scheduler ℕ).schedule 3 1).schedule 9 2).resume 5) = .ok scheduler' ∧
      scheduler'.order = .ok after ∧ after = before ∧ before = [1, 2] := by
  have hreach : Runs.Reaches execute (fun _ _ => True) ({} : Scheduler ℕ) {} := Runs.Reaches.refl
  have hreach := hreach.tail (.schedule 3 1) trivial rfl
  have hreach := hreach.tail (.schedule 9 2) trivial rfl
  obtain ⟨scheduler', before, after, hresume, hbefore, hafter, -, hkeeps, -⟩ :=
    order_resume_iff hreach 5
  have hunmixed : Unmixed ((({} : Scheduler ℕ).schedule 3 1).schedule 9 2) 5 := by
    rintro ⟨-, task, htask, hnow⟩
    simp only [tasks, schedule, PriorityQueue.held_insert] at htask
    rcases List.mem_cons.mp htask with rfl | htask
    · exact absurd hnow (by decide)
    · rcases List.mem_cons.mp htask with rfl | htask
      · exact absurd hnow (by decide)
      · exact absurd htask (List.not_mem_nil)
  exact ⟨scheduler', before, after, hresume, hafter, hkeeps hunmixed, (Except.ok.inj hbefore).symm⟩

/-- A task for time 3 and, scheduled after it, a task for time 5: a resume at time 5 swaps
them. -/
theorem not_order_resume_of_mixed :
    ¬ ∀ (scheduler scheduler' : Scheduler ℕ) (atTime : ℕ),
      Runs.Reaches execute (fun _ _ => True) {} scheduler →
        scheduler.resume atTime = .ok scheduler' → scheduler'.order = scheduler.order := by
  intro hall
  have hreach : Runs.Reaches execute (fun _ _ => True) ({} : Scheduler ℕ) {} := Runs.Reaches.refl
  have hreach := hreach.tail (.schedule 3 1) trivial rfl
  have hreach := hreach.tail (.schedule 5 2) trivial rfl
  have hsame := hall _ _ 5 hreach rfl
  exact absurd hsame (by decide)

/-! ## Several resumes -/

/-- A task with the time that it was scheduled for, and its number in the order of scheduling. -/
structure Numbered (T : Type) where
  scheduledFor : ℕ
  number : ℕ
  task : T
  deriving DecidableEq, Repr

/-- The first task was scheduled for an earlier time, or earlier for the same time. -/
def Numbered.Before (a b : Numbered T) : Prop :=
  a.scheduledFor < b.scheduledFor ∨ (a.scheduledFor = b.scheduledFor ∧ a.number < b.number)

/-- A scheduler with the clock of the world and the number of tasks scheduled so far. -/
structure Clocked (T : Type) where
  scheduler : Scheduler (Numbered T) := {}
  now : ℕ := 0
  scheduled : ℕ := 0

namespace Clocked

/-- What happens while the clock goes on. -/
inductive Op (T : Type) where
  | tick (delay : ℕ)
  | schedule (delay : ℕ) (task : T)
  | takeNext
  /-- The end of a pause. -/
  | resume
  | reset
  deriving DecidableEq, Repr

/-- One operation. -/
def execute (c : Clocked T) : Op T → Outcome (Clocked T)
  | .tick delay => .ok { c with now := c.now + delay }
  | .schedule delay task => .ok { c with
      scheduler := c.scheduler.schedule (c.now + delay) ⟨c.now + delay, c.scheduled, task⟩
      scheduled := c.scheduled + 1 }
  | .takeNext => do
    let (_, scheduler) ← c.scheduler.takeNext
    return { c with scheduler := scheduler }
  | .resume => do
    let scheduler ← c.scheduler.resume c.now
    return { c with scheduler := scheduler }
  | .reset => .ok { c with scheduler := c.scheduler.reset }

/-- Whether a resume finds no mixture of overdue tasks and tasks of the present. -/
def Undisturbed (c : Clocked T) : Op T → Prop
  | .resume => Unmixed c.scheduler c.now
  | _ => True

/-- The queue holds its tasks in the order of scheduling, and has lifted none beyond the
present. -/
structure InTime (c : Clocked T) (o : List (UniqueT (ScheduledTask (Numbered T)))) : Prop where
  lists : c.scheduler.queue.Lists o
  sorted : (tasksOf o).Pairwise Numbered.Before
  numbered : ∀ task ∈ tasksOf o, task.number < c.scheduled
  times : ∀ u ∈ o, u.item.task.scheduledFor = u.item.atTime ∨
    (u.item.task.scheduledFor ≤ u.item.atTime ∧ u.item.atTime ≤ c.now)

variable {c c' : Clocked T} {o : List (UniqueT (ScheduledTask (Numbered T)))}

/-- A new task comes after those that were scheduled for its time or before, and before the
others. -/
theorem InTime.schedule (h : c.InTime o) (delay : ℕ) (task : T) :
    ∃ o', InTime { c with
      scheduler := c.scheduler.schedule (c.now + delay) ⟨c.now + delay, c.scheduled, task⟩
      scheduled := c.scheduled + 1 } o' := by
  have hlists := h.lists.insert ⟨c.now + delay, ⟨c.now + delay, c.scheduled, task⟩⟩
  refine ⟨_, hlists, ?_, ?_, ?_⟩
  · rw [tasksOf, List.map_append, List.map_cons, List.pairwise_append, List.pairwise_cons]
    refine ⟨h.sorted.sublist (List.filter_sublist.map _),
      ⟨?_, h.sorted.sublist (List.filter_sublist.map _)⟩, ?_⟩
    · intro later hlater
      obtain ⟨u, hu, rfl⟩ := List.mem_map.mp hlater
      obtain ⟨hmem, hlt⟩ := List.mem_filter.mp hu
      have hlt : c.now + delay < u.item.atTime := of_decide_eq_true hlt
      have htimes := h.times u hmem
      left
      show c.now + delay < u.item.task.scheduledFor
      omega
    · intro before hbefore after hafter
      obtain ⟨u, hu, rfl⟩ := List.mem_map.mp hbefore
      obtain ⟨hmem, hge⟩ := List.mem_filter.mp hu
      have hge : ¬ c.now + delay < u.item.atTime :=
        of_decide_eq_false ((Bool.not_eq_true' _).mp hge)
      have htimes := h.times u hmem
      have hnumber := h.numbered _ (List.mem_map_of_mem hmem)
      rcases List.mem_cons.mp hafter with rfl | hafter
      · show _ < c.now + delay ∨ (_ = c.now + delay ∧ _ < c.scheduled)
        omega
      · -- the task after it was scheduled for a later time than the new one
        obtain ⟨v, hv, rfl⟩ := List.mem_map.mp hafter
        obtain ⟨hmem', hlt⟩ := List.mem_filter.mp hv
        have hlt : c.now + delay < v.item.atTime := of_decide_eq_true hlt
        have htimes' := h.times v hmem'
        left
        show u.item.task.scheduledFor < v.item.task.scheduledFor
        omega
  · intro known hknown
    obtain ⟨u, hu, rfl⟩ := List.mem_map.mp hknown
    rcases List.mem_append.mp hu with hu | hu
    · exact Nat.lt_succ_of_lt (h.numbered _ (List.mem_map_of_mem (List.mem_of_mem_filter hu)))
    · rcases List.mem_cons.mp hu with rfl | hu
      · exact Nat.lt_succ_self _
      · exact Nat.lt_succ_of_lt (h.numbered _ (List.mem_map_of_mem (List.mem_of_mem_filter hu)))
  · intro u hu
    rcases List.mem_append.mp hu with hu | hu
    · exact h.times u (List.mem_of_mem_filter hu)
    · rcases List.mem_cons.mp hu with rfl | hu
      · exact Or.inl rfl
      · exact h.times u (List.mem_of_mem_filter hu)

/-- A resume that finds no mixture leaves the order, and lifts tasks to the present. -/
theorem InTime.resume {scheduler : Scheduler (Numbered T)} (h : c.InTime o)
    (hunmixed : Unmixed c.scheduler c.now) (hresume : c.scheduler.resume c.now = .ok scheduler) :
    ∃ o', InTime { c with scheduler := scheduler } o' := by
  obtain ⟨overdue, due, later, rfl, hparts⟩ := exists_parts c.now h.lists
  have htests : overdue.length < c.scheduler.queue.size + 1 := by
    rw [h.lists.size, List.length_append, List.length_append]
    omega
  obtain ⟨queue, moved, hloop, hlists, hmoved⟩ := resumeLoop_lists h.lists hparts htests
  have hsame : scheduler = { queue := queue } := by
    rw [Scheduler.resume, hloop] at hresume
    exact (Except.ok.inj hresume).symm
  have horder : tasksOf (due ++ moved ++ later) = tasksOf (overdue ++ due ++ later) := by
    have hone := overdue_eq_nil_or_due_eq_nil h.lists hparts hunmixed
    simp only [tasksOf, List.map_append] at hmoved ⊢
    rw [hmoved]
    rcases hone with rfl | rfl
    · simp
    · simp
  subst hsame
  refine ⟨_, hlists, ?_, ?_, ?_⟩
  · rw [horder]
    exact h.sorted
  · rw [horder]
    exact h.numbered
  · intro u hu
    -- each task is one that waited before, lifted to the present
    have hmem : u.item ∈ ({ queue := queue } : Scheduler (Numbered T)).tasks :=
      hlists.held.mem_iff.mpr (List.mem_map_of_mem hu)
    obtain ⟨task, htask, hlift⟩ := List.mem_map.mp ((tasks_of_resume hresume).mem_iff.mp hmem)
    obtain ⟨v, hv, rfl⟩ := List.mem_map.mp (h.lists.held.mem_iff.mp htask)
    have htimes := h.times v hv
    rw [← hlift]
    show v.item.task.scheduledFor = max v.item.atTime c.now ∨
      (v.item.task.scheduledFor ≤ max v.item.atTime c.now ∧ max v.item.atTime c.now ≤ c.now)
    omega

/-- One operation keeps the tasks in the order of scheduling. -/
theorem InTime.execute {op : Op T} (h : c.InTime o) (hop : Undisturbed c op)
    (hexecute : c.execute op = .ok c') : ∃ o', c'.InTime o' := by
  cases op with
  | tick delay =>
    obtain rfl := Except.ok.inj hexecute
    refine ⟨o, h.lists, h.sorted, h.numbered, fun u hu => ?_⟩
    exact (h.times u hu).imp_right fun ⟨hle, hnow⟩ => ⟨hle, hnow.trans (Nat.le_add_right ..)⟩
  | schedule delay task =>
    obtain rfl := Except.ok.inj hexecute
    exact h.schedule delay task
  | takeNext =>
    obtain ⟨⟨task, scheduler⟩, htake, hexecute⟩ := Outcome.bind_eq_ok.mp hexecute
    obtain rfl := Outcome.pure_eq_ok.mp hexecute
    obtain ⟨u, o, rfl, hrest⟩ := lists_takeNext h.lists htake
    obtain ⟨-, hsorted⟩ := List.pairwise_cons.mp h.sorted
    exact ⟨o, hrest, hsorted, fun task htask => h.numbered task (List.mem_cons_of_mem _ htask),
      fun v hv => h.times v (List.mem_cons_of_mem _ hv)⟩
  | resume =>
    obtain ⟨scheduler, hresume, hexecute⟩ := Outcome.bind_eq_ok.mp hexecute
    obtain rfl := Outcome.pure_eq_ok.mp hexecute
    exact h.resume hop hresume
  | reset =>
    obtain rfl := Except.ok.inj hexecute
    exact ⟨[], PriorityQueue.lists_clear _, List.Pairwise.nil, nofun, nofun⟩

/-- **The order of scheduling survives any number of resumes.**  In every run in which each resume
finds overdue tasks or tasks of that very time, but not both, the tasks that wait are taken by
the times that they were scheduled for, and equal times in the order of scheduling. -/
theorem order_of_undisturbed (hrun : Runs.Reaches execute Undisturbed ({} : Clocked T) c) :
    ∃ l, c.scheduler.order = .ok l ∧ l.Perm (c.scheduler.tasks.map (·.task)) ∧
      l.Pairwise Numbered.Before := by
  have hordered : ∃ o, c.InTime o := by
    apply hrun.invariant (I := fun c => ∃ o, c.InTime o)
    · exact ⟨[], PriorityQueue.lists_empty, List.Pairwise.nil, nofun, nofun⟩
    · rintro c op c' ⟨o, h⟩ hop hexecute
      exact h.execute hop hexecute
  obtain ⟨o, h⟩ := hordered
  refine ⟨tasksOf o, order_eq h.lists, ?_, h.sorted⟩
  have hheld := (h.lists.held.map ScheduledTask.task).symm
  rwa [List.map_map] at hheld

end Clocked

end Scheduler

end Whirl.Process
