/-
# Link queues and the event queue of the network

Every frame waits in the queue of its link, its wake-up in the queue of the
network.  A paused link consumes wake-ups without giving up frames, and
`Link::Resume` schedules a new wake-up only for the frames that are overdue.  This
file follows the two queues through every run: they stay in step as long as no
link is resumed at the very time at which one of its wake-ups was skipped.
-/
import WhirlMatrix.Network.Network

namespace Whirl.Net

/-! ## Counting frames and wake-ups -/

namespace Network

/-- How many frames of link `l` are due at time `t`. -/
def due (net : Network) (l : LinkId) (t : ℕ) : ℕ :=
  match net.links[l]? with
  | none => 0
  | some link => link.frames.held.countP (·.time == t)

/-- How many wake-ups of link `l` are pending for time `t`. -/
def awaited (net : Network) (l : LinkId) (t : ℕ) : ℕ :=
  net.events.held.countP fun e => e.link == l && e.time == t

/-- Whether link `l` is paused. -/
def isPaused (net : Network) (l : LinkId) : Bool :=
  match net.links[l]? with
  | none => false
  | some link => link.paused

theorem due_eq {net : Network} {l : LinkId} {link : Link} (h : net.links[l]? = some link) (t : ℕ) :
    net.due l t = link.frames.held.countP (·.time == t) := by
  rw [due, h]

theorem isPaused_eq {net : Network} {l : LinkId} {link : Link} (h : net.links[l]? = some link) :
    net.isPaused l = link.paused := by
  rw [isPaused, h]

/-- A frame on a link is counted. -/
theorem due_pos {net : Network} {l : LinkId} {link : Link} {f : FrameEvent}
    (h : net.links[l]? = some link) (hf : f ∈ link.frames.held) : 0 < net.due l f.time := by
  rw [due_eq h, List.countP_pos_iff]
  exact ⟨f, hf, by simp⟩

theorem exists_frame_of_due_pos {net : Network} {l : LinkId} {link : Link} {t : ℕ}
    (h : net.links[l]? = some link) (ht : 0 < net.due l t) :
    ∃ f ∈ link.frames.held, f.time = t := by
  rw [due_eq h, List.countP_pos_iff] at ht
  simpa using ht

theorem awaited_pos {net : Network} {e : LinkEvent} (h : e ∈ net.events.held) :
    0 < net.awaited e.link e.time := by
  rw [awaited, List.countP_pos_iff]
  exact ⟨e, h, by simp⟩

theorem exists_event_of_awaited_pos {net : Network} {l : LinkId} {t : ℕ}
    (h : 0 < net.awaited l t) : ∃ e ∈ net.events.held, e.link = l ∧ e.time = t := by
  rw [awaited, List.countP_pos_iff] at h
  simpa using h

/-- One more item in a list that is counted. -/
theorem countP_of_perm_cons {α : Type} {p : α → Bool} {x : α} {l l' : List α}
    (h : (x :: l').Perm l) : l.countP p = l'.countP p + if p x then 1 else 0 := by
  rw [← h.countP_eq, List.countP_cons]

/-! ## How each operation changes the counts -/

/-- Replacing a link by one with the same frames. -/
theorem due_setLink {net : Network} {l : LinkId} {link link' : Link}
    (h : net.links[l]? = some link) (hframes : link'.frames = link.frames) (l' : LinkId) (t : ℕ) :
    (net.setLink l link').due l' t = net.due l' t := by
  rcases eq_or_ne l l' with rfl | hne
  · rw [due_eq h, due_eq (getElem?_setLink h link'), hframes]
  · rw [due, due, getElem?_setLink_ne net hne]

theorem isPaused_setLink {net : Network} {l : LinkId} {link : Link}
    (h : net.links[l]? = some link) (link' : Link) (l' : LinkId) :
    (net.setLink l link').isPaused l' = if l = l' then link'.paused else net.isPaused l' := by
  rcases eq_or_ne l l' with rfl | hne
  · rw [isPaused_eq (getElem?_setLink h link'), if_pos rfl]
  · rw [isPaused, isPaused, getElem?_setLink_ne net hne, if_neg hne]

/-- Replacing a link by one that is paused when it is. -/
theorem isPaused_setLink_of_eq {net : Network} {l : LinkId} {link link' : Link}
    (h : net.links[l]? = some link) (hpaused : link'.paused = link.paused) (l' : LinkId) :
    (net.setLink l link').isPaused l' = net.isPaused l' := by
  rw [isPaused_setLink h]
  split
  · subst l'
    rw [isPaused_eq h, hpaused]
  · rfl

theorem getElem?_addFrame (net : Network) (l l' : LinkId) (frame : Frame) (d : ℕ) :
    (net.addFrame l frame d).links[l']? = (net.links[l']?).map fun link =>
      if l = l' then { link with frames := link.frames.insert ⟨frame, d⟩ } else link := by
  rw [addFrame, List.getElem?_modify]
  split <;> simp_all

/-- Adding a frame adds its wake-up. -/
theorem due_addFrame {net : Network} {l : LinkId} {link : Link} (h : net.links[l]? = some link)
    (frame : Frame) (d : ℕ) (l' : LinkId) (t : ℕ) :
    (net.addFrame l frame d).due l' t = net.due l' t + if l = l' ∧ d = t then 1 else 0 := by
  rcases eq_or_ne l l' with rfl | hne
  · have hget : (net.addFrame l frame d).links[l]?
        = some { link with frames := link.frames.insert ⟨frame, d⟩ } := by
      rw [getElem?_addFrame, h]
      simp
    rw [due_eq hget, due_eq h, PriorityQueue.held_insert, List.countP_cons]
    simp
  · simp only [due, getElem?_addFrame, hne, if_false, false_and, Nat.add_zero]
    cases net.links[l']? <;> rfl

theorem awaited_addFrame (net : Network) (l : LinkId) (frame : Frame) (d : ℕ) (l' : LinkId)
    (t : ℕ) :
    (net.addFrame l frame d).awaited l' t = net.awaited l' t + if l = l' ∧ d = t then 1 else 0 := by
  simp only [awaited, addFrame, PriorityQueue.held_insert, List.countP_cons]
  simp

theorem isPaused_addFrame (net : Network) (l : LinkId) (frame : Frame) (d : ℕ) (l' : LinkId) :
    (net.addFrame l frame d).isPaused l' = net.isPaused l' := by
  simp only [isPaused, getElem?_addFrame]
  cases net.links[l']? with
  | none => rfl
  | some link =>
    simp only [Option.map_some]
    split <;> rfl

/-- The next step takes the earliest pending event. -/
theorem nextStepTime_eq_ok {net : Network} {t : ℕ} (h : net.nextStepTime = .ok t) :
    (∀ e ∈ net.events.held, t ≤ e.time) ∧ ∃ e ∈ net.events.held, e.time = t := by
  obtain ⟨e, hsmallest, htime⟩ := Outcome.bind_eq_ok.mp h
  obtain rfl : e.time = t := Outcome.pure_eq_ok.mp htime
  refine ⟨fun e' he' => ?_, e, PriorityQueue.mem_of_smallest hsmallest, rfl⟩
  exact Nat.not_lt.mp (PriorityQueue.not_lt_smallest hsmallest e' he')

/-- What one step does: it takes the earliest event and, unless its link is paused,
a frame that is due at that very time. -/
theorem step_spec {net net' : Network} {delivery : Option Delivery}
    (h : net.step = .ok (net', delivery)) :
    ∃ e : LinkEvent, net.nextStepTime = .ok e.time ∧
      (e :: net'.events.held).Perm net.events.held ∧
      (∀ l, net'.isPaused l = net.isPaused l) ∧
      ∀ l t, net.due l t
        = net'.due l t + if net.isPaused e.link = false ∧ e.link = l ∧ e.time = t then 1 else 0 := by
  obtain ⟨e, events, link, hextract, hlink, ⟨hpaused, rfl, -⟩ | ⟨hopen', f, frames, hf, htime, rfl,
    -⟩⟩ := step_eq_ok h
  all_goals
    have hnext : net.nextStepTime = .ok e.time :=
      Outcome.bind_eq_ok.mpr ⟨e, PriorityQueue.smallest_eq_ok.mpr ⟨_, hextract⟩, rfl⟩
    have hperm := PriorityQueue.extract_perm hextract
  · -- a paused link keeps its frames
    have hpaused' : net.isPaused e.link = true := by rw [isPaused_eq hlink, hpaused]
    exact ⟨e, hnext, hperm, fun l => rfl, fun l t => by simp [hpaused', due]⟩
  · have hopen : net.isPaused e.link = false := by rw [isPaused_eq hlink, hopen']
    have hlink' : ({ net with events := events } : Network).links[e.link]? = some link := hlink
    refine ⟨e, hnext, hperm, fun l => isPaused_setLink_of_eq hlink' (by rfl) l, fun l t => ?_⟩
    rcases eq_or_ne e.link l with rfl | hne
    · rw [due_eq hlink, due_eq (getElem?_setLink hlink' _),
        countP_of_perm_cons (PriorityQueue.extract_perm hf)]
      simp [hopen, ← htime]
    · rw [due, due, getElem?_setLink_ne _ hne]
      simp [hne]

/-! ## Resuming a link -/

/-- The link of the loop after one turn. -/
theorem getElem?_resend {net : Network} {l : LinkId} {link : Link} {f : FrameEvent}
    {q : PriorityQueue FrameEvent} {d : ℕ} (hlink : net.links[l]? = some link) :
    ((net.setLink l { link with frames := q }).addFrame l f.frame d).links[l]?
      = some { link with frames := q.insert ⟨f.frame, d⟩ } := by
  rw [getElem?_addFrame, getElem?_setLink hlink]
  simp

/-- When the clock is about to wrap around, the loop finds an overdue frame forever. -/
theorem resumeLoop_ne_ok {now : ℕ} {l : LinkId} {tests : ℕ} {net net' : Network}
    (hwrap : addTime now 1 < now) {link : Link} (hlink : net.links[l]? = some link)
    (hover : ∃ f ∈ link.frames.held, f.time < now) : resumeLoop now l tests net ≠ .ok net' := by
  induction tests generalizing net link with
  | zero => simp [resumeLoop]
  | succ tests ih =>
    intro h
    obtain ⟨link', f, hlink', hsmallest, hstop | ⟨-, q, hq, h⟩⟩ := resumeLoop_succ h
    · obtain rfl : link' = link := Option.some.inj (hlink'.symm.trans hlink)
      obtain ⟨f', hf', hlt⟩ := hover
      have hmin : ¬ f'.time < f.time := PriorityQueue.not_lt_smallest hsmallest f' hf'
      omega
    · exact ih (getElem?_resend hlink') ⟨⟨f.frame, addTime now 1⟩, by simp, hwrap⟩ h

theorem addTime_one (now : ℕ) : addTime now 1 = now + 1 ∨ addTime now 1 < now := by
  unfold addTime
  omega

/-- What the loop does: overdue frames disappear and come back one tick from now,
each with its own wake-up.  Induction on the turns of the loop. -/
theorem resumeLoop_spec {now : ℕ} {l : LinkId} {tests : ℕ} {net net' : Network}
    (h : resumeLoop now l tests net = .ok net') :
    ∃ k, (∀ l', net'.isPaused l' = net.isPaused l') ∧
      (∀ l' t, net'.awaited l' t = net.awaited l' t + if l = l' ∧ now + 1 = t then k else 0) ∧
      (∀ l' t, l ≠ l' → net'.due l' t = net.due l' t) ∧
      (∀ t, now ≤ t → net'.due l t = net.due l t + if now + 1 = t then k else 0) ∧
      ∀ t, t < now → net'.due l t = 0 := by
  induction tests generalizing net with
  | zero => exact absurd h (by simp [resumeLoop])
  | succ tests ih =>
    obtain ⟨link, f, hlink, hsmallest, ⟨hge, rfl⟩ | ⟨hlt, q, hq, h⟩⟩ := resumeLoop_succ h
    · refine ⟨0, by simp, by simp, by simp, by simp, fun t ht => ?_⟩
      -- the smallest frame is not overdue, so none is
      by_contra hne
      obtain ⟨f', hf', rfl⟩ := exists_frame_of_due_pos hlink (Nat.pos_of_ne_zero hne)
      have hmin : ¬ f'.time < f.time := PriorityQueue.not_lt_smallest hsmallest f' hf'
      omega
    · rcases addTime_one now with hadd | hwrap
      swap
      · exact absurd h (resumeLoop_ne_ok hwrap (getElem?_resend hlink)
          ⟨⟨f.frame, addTime now 1⟩, by simp, hwrap⟩)
      rw [hadd] at h
      obtain ⟨k, hpaused, hawaited, hother, hdue, hover⟩ := ih h
      refine ⟨k + 1, fun l' => ?_, fun l' t => ?_, fun l' t hne => ?_, fun t ht => ?_, hover⟩
      · rw [hpaused, isPaused_addFrame]
        exact isPaused_setLink_of_eq hlink (by rfl) l'
      · rw [hawaited, awaited_addFrame]
        show net.awaited l' t + _ + _ = _
        split <;> omega
      · rw [hother l' t hne]
        simp only [due, getElem?_addFrame, getElem?_setLink_ne net hne, hne, if_false]
        cases net.links[l']? <;> rfl
      · rw [hdue t ht, due_eq (getElem?_resend hlink), due_eq hlink, PriorityQueue.held_insert,
          List.countP_cons, countP_of_perm_cons (PriorityQueue.extract_perm hq)]
        have hf : (f.time == t) = false := by
          rw [beq_eq_false_iff_ne]
          omega
        rw [hf]
        simp only [beq_iff_eq, Bool.false_eq_true, if_false]
        split <;> omega

/-- Resuming a link that is not paused does nothing. -/
theorem resume_of_open {now : ℕ} {l : LinkId} {net net' : Network}
    (h : net.resume l now = .ok net') (hopen : net.isPaused l = false) : net' = net := by
  obtain ⟨link, hlink, ⟨-, rfl⟩ | ⟨hpaused, -⟩⟩ := resume_eq_ok h
  · rfl
  · rw [isPaused_eq hlink, hpaused] at hopen
    exact absurd hopen (by decide)

/-- What resuming a paused link does to the counts. -/
theorem resume_spec {now : ℕ} {l : LinkId} {net net' : Network}
    (h : net.resume l now = .ok net') (hp : net.isPaused l = true) :
    ∃ k, (∀ l', net'.isPaused l' = if l = l' then false else net.isPaused l') ∧
      (∀ l' t, net'.awaited l' t = net.awaited l' t + if l = l' ∧ now + 1 = t then k else 0) ∧
      (∀ l' t, l ≠ l' → net'.due l' t = net.due l' t) ∧
      (∀ t, now ≤ t → net'.due l t = net.due l t + if now + 1 = t then k else 0) ∧
      ∀ t, t < now → net'.due l t = 0 := by
  obtain ⟨link, hlink, ⟨hopen, -⟩ | ⟨-, hrest⟩⟩ := resume_eq_ok h
  · rw [isPaused_eq hlink, hopen] at hp
    exact absurd hp (by decide)
  have hdue : ∀ l' t, (net.setLink l { link with paused := false }).due l' t = net.due l' t :=
    fun l' t => due_setLink hlink (by rfl) l' t
  have hpaused := isPaused_setLink hlink { link with paused := false }
  rcases hrest with ⟨hempty, rfl⟩ | hloop
  · -- nothing waits on the link
    refine ⟨0, hpaused, fun l' t => by simp [awaited, setLink], fun l' t _ => hdue l' t,
      fun t _ => by rw [hdue]; simp, fun t _ => ?_⟩
    rw [hdue, due_eq hlink, hempty]
    rfl
  · obtain ⟨k, hk⟩ := resumeLoop_spec hloop
    simp only [hdue, hpaused] at hk
    exact ⟨k, hk⟩

/-- A link that is resumed is not paused, and the others are as before. -/
theorem isPaused_resume {now : ℕ} {l : LinkId} {net net' : Network}
    (h : net.resume l now = .ok net') (l' : LinkId) :
    net'.isPaused l' = if l = l' then false else net.isPaused l' := by
  cases hpaused : net.isPaused l with
  | false =>
    rw [resume_of_open h hpaused]
    split
    · rename_i heq
      rw [← heq, hpaused]
    · rfl
  | true =>
    obtain ⟨_, hresumed, -⟩ := resume_spec h hpaused
    exact hresumed l'

end Network

end Whirl.Net
