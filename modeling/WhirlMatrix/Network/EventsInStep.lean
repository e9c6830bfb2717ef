/-
# No frame is stranded

Runs of the network under the world clock: packets are sent, links are paused and
resumed, partitions come and go, and `Network::Step` takes the earliest event.

The queues of the links and the queue of the network stay in step along every run
in which no link is resumed at the very time at which one of its wake-ups was
skipped.  Such a resume strands a frame: `Link::Resume` schedules again only the
frames with a time strictly before the present one.
-/
import WhirlMatrix.Network.LinkEvents
import Mathlib.Order.Basic
import Mathlib.Data.Nat.Basic

namespace Whirl.Net

/-! ## Runs -/

/-- The network and the world clock. -/
structure NetState where
  net : Network
  time : Time
  deriving DecidableEq, Repr

/-- What can happen to the network. -/
inductive NetOp where
  /-- Another actor makes a step at a later time. -/
  | tick (future : ℕ)
  /-- `Link::Add`, with the flight time of the time model. -/
  | send (l : LinkId) (packet : Packet) (flightTime : ℕ)
  | pauseLink (start stop : HostName)
  | resumeLink (start stop : HostName)
  | split (lhs : Partition)
  | heal
  /-- `World::Step` when it chooses the network. -/
  | step
  deriving DecidableEq, Repr

/-- One operation. -/
def NetState.execute (s : NetState) : NetOp → Outcome NetState
  | .tick future => do
    let time ← s.time.fastForwardTo future
    return { s with time := time }
  | .send l packet flightTime => do
    let net ← s.net.add l packet s.time.now flightTime
    return { s with net := net }
  | .pauseLink start stop => do
    let net ← s.net.pauseLink start stop
    return { s with net := net }
  | .resumeLink start stop => do
    let net ← s.net.resumeLink start stop s.time.now
    return { s with net := net }
  | .split lhs => do
    let net ← s.net.split lhs
    return { s with net := net }
  | .heal => do
    let net ← s.net.heal s.time.now
    return { s with net := net }
  | .step => do
    let next ← s.net.nextStepTime
    let time ← s.time.fastForwardTo next
    let (net, _) ← s.net.step
    return { net := net, time := time }

/-- What one operation leaves. -/
inductive NetState.Executed (s : NetState) : NetOp → NetState → Prop
  | tick {future : ℕ} (hle : s.time.now ≤ future) : Executed s (.tick future) ⟨s.net, ⟨future⟩⟩
  | send {l : LinkId} {packet : Packet} {flightTime : ℕ} {net : Network}
      (hnet : s.net.add l packet s.time.now flightTime = .ok net) :
      Executed s (.send l packet flightTime) ⟨net, s.time⟩
  | pauseLink {start stop : HostName} {net : Network}
      (hnet : s.net.pauseLink start stop = .ok net) :
      Executed s (.pauseLink start stop) ⟨net, s.time⟩
  | resumeLink {start stop : HostName} {net : Network}
      (hnet : s.net.resumeLink start stop s.time.now = .ok net) :
      Executed s (.resumeLink start stop) ⟨net, s.time⟩
  | split {lhs : Partition} {net : Network} (hnet : s.net.split lhs = .ok net) :
      Executed s (.split lhs) ⟨net, s.time⟩
  | heal {net : Network} (hnet : s.net.heal s.time.now = .ok net) :
      Executed s .heal ⟨net, s.time⟩
  | step {next : ℕ} {net : Network} {delivery : Option Delivery}
      (hnext : s.net.nextStepTime = .ok next) (hle : s.time.now ≤ next)
      (hnet : s.net.step = .ok (net, delivery)) : Executed s .step ⟨net, ⟨next⟩⟩

theorem NetState.executed_of_execute {s s' : NetState} {op : NetOp}
    (h : s.execute op = .ok s') : s.Executed op s' := by
  cases op with
  | tick future =>
    obtain ⟨time, htime, h⟩ := Outcome.bind_eq_ok.mp h
    obtain ⟨hle, rfl⟩ := Time.fastForwardTo_eq_ok.mp htime
    obtain rfl := Outcome.pure_eq_ok.mp h
    exact .tick hle
  | send l packet flightTime =>
    obtain ⟨net, hnet, h⟩ := Outcome.bind_eq_ok.mp h
    obtain rfl := Outcome.pure_eq_ok.mp h
    exact .send hnet
  | pauseLink start stop =>
    obtain ⟨net, hnet, h⟩ := Outcome.bind_eq_ok.mp h
    obtain rfl := Outcome.pure_eq_ok.mp h
    exact .pauseLink hnet
  | resumeLink start stop =>
    obtain ⟨net, hnet, h⟩ := Outcome.bind_eq_ok.mp h
    obtain rfl := Outcome.pure_eq_ok.mp h
    exact .resumeLink hnet
  | split lhs =>
    obtain ⟨net, hnet, h⟩ := Outcome.bind_eq_ok.mp h
    obtain rfl := Outcome.pure_eq_ok.mp h
    exact .split hnet
  | heal =>
    obtain ⟨net, hnet, h⟩ := Outcome.bind_eq_ok.mp h
    obtain rfl := Outcome.pure_eq_ok.mp h
    exact .heal hnet
  | step =>
    obtain ⟨next, hnext, h⟩ := Outcome.bind_eq_ok.mp h
    obtain ⟨time, htime, h⟩ := Outcome.bind_eq_ok.mp h
    obtain ⟨⟨net, delivery⟩, hnet, h⟩ := Outcome.bind_eq_ok.mp h
    obtain ⟨hle, rfl⟩ := Time.fastForwardTo_eq_ok.mp htime
    obtain rfl := Outcome.pure_eq_ok.mp h
    exact .step hnext hle hnet

/-- A network whose links were just built. -/
def NetState.start (servers : List IServer) (now : ℕ) : NetState :=
  ⟨({ servers := servers } : Network).buildLinks, ⟨now⟩⟩

/-- Delivery times are not before the present time. -/
def Admissible (s : NetState) : NetOp → Prop
  | .send _ _ flightTime => s.time.now ≤ addTime s.time.now flightTime
  | _ => True

/-- No wake-up of the link for the present time was skipped while it was paused. -/
def Unskipped (net : Network) (now : ℕ) (l : LinkId) : Prop :=
  net.isPaused l = true → net.due l now ≤ net.awaited l now

/-- An operation that resumes no link with a skipped wake-up. -/
def Careful (s : NetState) : NetOp → Prop
  | .resumeLink start stop =>
    ∀ l, s.net.getLink start stop = .ok l → Unskipped s.net s.time.now l
  | .heal => ∀ l, Unskipped s.net s.time.now l
  | _ => True

/-! ## What is to hold -/

/-- Each frame that waits on an unpaused link has its own pending wake-up. -/
def NoStranded (s : NetState) : Prop :=
  ∀ l, s.net.isPaused l = false → ∀ t, s.net.due l t ≤ s.net.awaited l t

/-- Both checks of `Network::Step` hold for the event that it would take. -/
def StepSound (s : NetState) : Prop :=
  ∀ e events, s.net.events.extract = .ok (e, events) → s.time.now ≤ e.time →
    ∃ link, s.net.links[e.link]? = some link ∧
      (link.paused = false → link.hasFrames = true ∧ link.nextFrameTime = .ok e.time)

/-- How the queues of the links and the queue of the network are matched at time `now`. -/
structure InStep (net : Network) (now : ℕ) : Prop where
  /-- An unpaused link has as many frames as wake-ups, from now on. -/
  opened : ∀ l, net.isPaused l = false → ∀ t, now ≤ t → net.due l t = net.awaited l t
  /-- An unpaused link has no overdue frame without a wake-up. -/
  overdue : ∀ l, net.isPaused l = false → ∀ t, t < now → net.due l t ≤ net.awaited l t
  /-- A paused link has as many frames as wake-ups in the future. -/
  paused : ∀ l, net.isPaused l = true → ∀ t, now < t → net.due l t = net.awaited l t
  /-- A paused link may have consumed wake-ups for the present time. -/
  skipped : ∀ l, net.isPaused l = true → net.awaited l now ≤ net.due l now

namespace InStep

variable {net net' : Network} {now : ℕ}

/-! ## One operation -/

/-- Time goes on. -/
theorem later {future : ℕ} (h : InStep net now) (hle : now ≤ future) : InStep net future where
  opened l hl t ht := h.opened l hl t (hle.trans ht)
  overdue l hl t _ := by
    rcases Nat.lt_or_ge t now with ht | ht
    · exact h.overdue l hl t ht
    · exact (h.opened l hl t ht).le
  paused l hl t ht := h.paused l hl t (Nat.lt_of_le_of_lt hle ht)
  skipped l hl := by
    rcases Nat.eq_or_lt_of_le hle with rfl | hlt
    · exact h.skipped l hl
    · exact (h.paused l hl future hlt).ge

/-- The same frame and wake-up are added on both sides. -/
theorem add {l : LinkId} {packet : Packet} {flightTime : ℕ} (h : InStep net now)
    (hadd : net.add l packet now flightTime = .ok net') : InStep net' now := by
  obtain ⟨link, hlink, rfl⟩ := Network.add_eq_ok hadd
  constructor
  · intro l' hl' t ht
    rw [Network.isPaused_addFrame] at hl'
    rw [Network.due_addFrame hlink, Network.awaited_addFrame, h.opened l' hl' t ht]
  · intro l' hl' t ht
    rw [Network.isPaused_addFrame] at hl'
    rw [Network.due_addFrame hlink, Network.awaited_addFrame]
    have := h.overdue l' hl' t ht
    omega
  · intro l' hl' t ht
    rw [Network.isPaused_addFrame] at hl'
    rw [Network.due_addFrame hlink, Network.awaited_addFrame, h.paused l' hl' t ht]
  · intro l' hl'
    rw [Network.isPaused_addFrame] at hl'
    rw [Network.due_addFrame hlink, Network.awaited_addFrame]
    have := h.skipped l' hl'
    omega

/-- A link is paused in step. -/
theorem pause {l : LinkId} (h : InStep net now) (hpause : net.pause l = .ok net') :
    InStep net' now := by
  obtain ⟨link, hlink, hopen, rfl⟩ := Network.pause_eq_ok hpause
  have hopen' : net.isPaused l = false := by rw [Network.isPaused_eq hlink, hopen]
  have hdue : ∀ l' t, (net.setLink l { link with paused := true }).due l' t = net.due l' t :=
    fun l' t => Network.due_setLink hlink (by rfl) l' t
  have hpaused := Network.isPaused_setLink hlink { link with paused := true }
  constructor
  · intro l' hl' t ht
    rw [hpaused] at hl'
    split at hl'
    · exact absurd hl' (by simp)
    · rw [hdue]
      exact h.opened l' hl' t ht
  · intro l' hl' t ht
    rw [hpaused] at hl'
    split at hl'
    · exact absurd hl' (by simp)
    · rw [hdue]
      exact h.overdue l' hl' t ht
  · intro l' hl' t ht
    rw [hdue]
    rw [hpaused] at hl'
    split at hl'
    · subst l'
      exact h.opened l hopen' t ht.le
    · exact h.paused l' hl' t ht
  · intro l' hl'
    rw [hdue]
    rw [hpaused] at hl'
    split at hl'
    · subst l'
      exact (h.opened l hopen' now (Nat.le_refl now)).ge
    · exact h.skipped l' hl'

/-- A link without a skipped wake-up is resumed in step. -/
theorem resume {l : LinkId} (h : InStep net now) (hl : Unskipped net now l)
    (hresume : net.resume l now = .ok net') : InStep net' now := by
  cases hp : net.isPaused l with
  | false => rwa [Network.resume_of_open hresume hp]
  | true =>
    obtain ⟨k, hpaused, hawaited, hother, hdue, hover⟩ := Network.resume_spec hresume hp
    have hnow : net.due l now = net.awaited l now := Nat.le_antisymm (hl hp) (h.skipped l hp)
    constructor
    · intro l' hl' t ht
      rw [hpaused] at hl'
      rcases eq_or_ne l l' with rfl | hne
      · rw [hdue t ht, hawaited]
        rcases Nat.eq_or_lt_of_le ht with rfl | hlt
        · rw [hnow]
          simp
        · rw [h.paused l hp t hlt]
          simp
      · rw [if_neg hne] at hl'
        rw [hother l' t hne, hawaited, h.opened l' hl' t ht]
        simp [hne]
    · intro l' hl' t ht
      rw [hpaused] at hl'
      rcases eq_or_ne l l' with rfl | hne
      · rw [hover t ht]
        exact Nat.zero_le _
      · rw [if_neg hne] at hl'
        rw [hother l' t hne, hawaited]
        exact (h.overdue l' hl' t ht).trans (Nat.le_add_right _ _)
    · intro l' hl' t ht
      rw [hpaused] at hl'
      split at hl'
      · exact absurd hl' (by simp)
      · rename_i hne
        rw [hother l' t hne, hawaited, h.paused l' hl' t ht]
        simp [hne]
    · intro l' hl'
      rw [hpaused] at hl'
      split at hl'
      · exact absurd hl' (by simp)
      · rename_i hne
        rw [hother l' now hne, hawaited]
        simpa [hne] using h.skipped l' hl'

/-- The earliest event is taken at its time, in step. -/
theorem step {delivery : Option Delivery} {next : ℕ} (h : InStep net now)
    (hnext : net.nextStepTime = .ok next) (hle : now ≤ next)
    (hstep : net.step = .ok (net', delivery)) : InStep net' next := by
  obtain ⟨e, he, hperm, hpaused, hdue⟩ := Network.step_spec hstep
  obtain rfl : e.time = next := Except.ok.inj (he.symm.trans hnext)
  have hawaited : ∀ l t,
      net.awaited l t = net'.awaited l t + if e.link = l ∧ e.time = t then 1 else 0 := by
    intro l t
    rw [Network.awaited, Network.awaited, Network.countP_of_perm_cons hperm]
    simp
  have h := h.later hle
  constructor
  · intro l hl t ht
    rw [hpaused] at hl
    have := h.opened l hl t ht
    rw [hdue, hawaited] at this
    rcases eq_or_ne e.link l with rfl | hne
    · simpa [hl] using this
    · simpa [hne] using this
  · intro l hl t ht
    rw [hpaused] at hl
    have := h.overdue l hl t ht
    rw [hdue, hawaited] at this
    have hne : e.time ≠ t := by omega
    simpa [hne] using this
  · intro l hl t ht
    rw [hpaused] at hl
    have := h.paused l hl t ht
    rw [hdue, hawaited] at this
    have hne : e.time ≠ t := by omega
    simpa [hne] using this
  · intro l hl
    rw [hpaused] at hl
    have := h.skipped l hl
    rw [hdue, hawaited] at this
    rcases eq_or_ne e.link l with rfl | hne
    · -- a wake-up of a paused link is skipped, its frame stays
      simp only [hl, Bool.true_eq_false, false_and, if_false] at this
      omega
    · simpa [hne] using this

/-- A partition pauses links in step. -/
theorem split {lhs : Partition} (h : InStep net now) (hsplit : net.split lhs = .ok net') :
    InStep net' now := by
  exact Network.split_induction (I := fun net => InStep net now) hsplit h
    fun _ _ _ h hpause => h.pause hpause

/-- Healing resumes the links one after another; a resume skips no wake-up of another link. -/
theorem heal (h : InStep net now) (hall : ∀ l, Unskipped net now l)
    (hheal : net.heal now = .ok net') : InStep net' now := by
  have hinv := Network.heal_induction (I := fun net => InStep net now ∧ ∀ l, Unskipped net now l)
    hheal ⟨h, hall⟩ fun net l net' ⟨h, hall⟩ hresume => ⟨h.resume (hall l) hresume, fun l' => ?_⟩
  · exact hinv.1
  cases hp : net.isPaused l with
  | false =>
    rw [Network.resume_of_open hresume hp]
    exact hall l'
  | true =>
    obtain ⟨k, hpaused, hawaited, hother, -, -⟩ := Network.resume_spec hresume hp
    intro hl'
    rw [hpaused] at hl'
    split at hl'
    · exact absurd hl' (by simp)
    · rename_i hne
      rw [hother l' now hne, hawaited]
      simpa [hne] using hall l' hl'

/-! ## Every run -/

/-- Careful operations keep the queues in step. -/
theorem execute {s s' : NetState} {op : NetOp} (h : InStep s.net s.time.now) (hop : Careful s op)
    (hs : s.execute op = .ok s') : InStep s'.net s'.time.now := by
  cases NetState.executed_of_execute hs with
  | tick hle => exact h.later hle
  | send hnet => exact h.add hnet
  | pauseLink hnet =>
    obtain ⟨l, -, hnet⟩ := Outcome.bind_eq_ok.mp hnet
    exact h.pause hnet
  | resumeLink hnet =>
    obtain ⟨l, hl, hnet⟩ := Outcome.bind_eq_ok.mp hnet
    exact h.resume (hop l hl) hnet
  | split hnet => exact h.split hnet
  | heal hnet => exact h.heal hop hnet
  | step hnext hle hnet => exact h.step hnext hle hnet

/-- In step, no frame is stranded. -/
theorem noStranded {s : NetState} (h : InStep s.net s.time.now) : NoStranded s := by
  intro l hl t
  rcases Nat.lt_or_ge t s.time.now with ht | ht
  · exact h.overdue l hl t ht
  · exact (h.opened l hl t ht).le

/-- In step, the checks of `Network::Step` hold. -/
theorem stepSound {s : NetState} (h : InStep s.net s.time.now) : StepSound s := by
  intro e events hextract hle
  have hmem : e ∈ s.net.events.held :=
    (PriorityQueue.extract_perm hextract).mem_iff.mp (List.mem_cons_self ..)
  have hawaited : 0 < s.net.awaited e.link e.time := Network.awaited_pos hmem
  cases hlink : s.net.links[e.link]? with
  | none =>
    -- a wake-up without a link has no frame either
    have hopen : s.net.isPaused e.link = false := by rw [Network.isPaused, hlink]
    have heq := h.opened e.link hopen e.time hle
    have hzero : s.net.due e.link e.time = 0 := by rw [Network.due, hlink]
    omega
  | some link =>
    refine ⟨link, rfl, fun hopen => ?_⟩
    rw [← Network.isPaused_eq hlink] at hopen
    have hdue : 0 < s.net.due e.link e.time := by rwa [h.opened e.link hopen e.time hle]
    obtain ⟨f, hf, htime⟩ := Network.exists_frame_of_due_pos hlink hdue
    have hheld : link.frames.held ≠ [] := List.ne_nil_of_mem hf
    refine ⟨?_, ?_⟩
    · rw [Link.hasFrames, Bool.not_eq_true', ← Bool.not_eq_true, PriorityQueue.isEmpty_iff]
      exact hheld
    · obtain ⟨f', hf'⟩ := PriorityQueue.exists_smallest hheld
      refine Link.nextFrameTime_eq_ok.mpr ⟨f', hf', ?_⟩
      -- the earliest frame is not later than this one, nor earlier than the earliest event
      have hmem' := PriorityQueue.mem_of_smallest hf'
      have hmin : ¬ f.time < f'.time := PriorityQueue.not_lt_smallest hf' f hf
      have hpos : 0 < s.net.awaited e.link f'.time :=
        Nat.lt_of_lt_of_le (Network.due_pos hlink hmem') (h.noStranded e.link hopen f'.time)
      obtain ⟨e', he', -, htime'⟩ := Network.exists_event_of_awaited_pos hpos
      have hmin' : ¬ e'.time < e.time := PriorityQueue.not_lt_extract hextract e' he'
      omega

/-- At the start nothing waits and no wake-up is pending. -/
theorem start (servers : List IServer) (now : ℕ) :
    InStep (NetState.start servers now).net (NetState.start servers now).time.now := by
  have hdue : ∀ l t, (NetState.start servers now).net.due l t = 0 := by
    intro l t
    rw [Network.due]
    split
    · rfl
    · rename_i link hlink
      rw [Network.held_buildLinks servers link (List.mem_of_getElem? hlink)]
      rfl
  have hawaited : ∀ l t, (NetState.start servers now).net.awaited l t = 0 := by
    intro l t
    rw [Network.awaited, NetState.start, Network.events_buildLinks]
    rfl
  constructor
  · intro l _ t _
    rw [hdue, hawaited]
  · intro l _ t _
    rw [hdue, hawaited]
  · intro l _ t _
    rw [hdue, hawaited]
  · intro l _
    rw [hdue, hawaited]

end InStep

/-- **The queues stay in step.**  In every run in which no link is resumed while one of
its wake-ups for the present time is skipped, no frame on an unpaused link is stranded
and no check of `Network::Step` fails. -/
theorem noStranded_and_stepSound_of_careful {servers : List IServer} {now : ℕ} {s : NetState}
    (h : Runs.Reaches NetState.execute Careful (NetState.start servers now) s) :
    NoStranded s ∧ StepSound s := by
  have hinv : InStep s.net s.time.now :=
    h.invariant (I := fun s => InStep s.net s.time.now) (InStep.start servers now)
      fun _ _ _ hI hop hs => hI.execute hop hs
  exact ⟨hinv.noStranded, hinv.stepSound⟩

/-- The condition cannot be relaxed: resuming a link with a skipped wake-up strands a
frame at once. -/
theorem not_noStranded_of_resume {s : NetState} {net : Network} {l : LinkId}
    (hskipped : ¬ Unskipped s.net s.time.now l)
    (h : s.net.resume l s.time.now = .ok net) : ¬ NoStranded ⟨net, s.time⟩ := by
  rw [Unskipped, Classical.not_imp] at hskipped
  obtain ⟨hp, hlt⟩ := hskipped
  obtain ⟨k, hpaused, hawaited, -, hdue, -⟩ := Network.resume_spec h hp
  intro hall
  have hopen : net.isPaused l = false := by
    rw [hpaused]
    simp
  have hle := hall l hopen s.time.now
  simp only [hdue s.time.now (Nat.le_refl _), hawaited, and_false, Nat.succ_ne_self,
    if_false, Nat.add_zero] at hle
  exact hlt hle

/-! ## Two short runs -/

/-- Two server hosts. -/
def twoHosts : List IServer := [⟨0, "Server-1"⟩, ⟨1, "Server-2"⟩]

/-- A packet of some client. -/
def somePacket : Packet := ⟨⟨.data, 1, 42, 0⟩, [7], .client ⟨0, 1, 1, 42, 0⟩⟩

/-- A frame that waits on a paused link is delivered after the link is resumed. -/
theorem noStranded_and_stepSound_of_careful_pausedLink :
    ∃ s, Runs.Reaches NetState.execute Careful (NetState.start twoHosts 0) s ∧
      s.time.now = 5 ∧ NoStranded s ∧ StepSound s := by
  have hreach : Runs.Reaches NetState.execute Careful (NetState.start twoHosts 0)
      (NetState.start twoHosts 0) := Runs.Reaches.refl
  have hreach := hreach.tail (.send 1 somePacket 5) trivial rfl
  have hreach := hreach.tail (.pauseLink "Server-1" "Server-2") trivial rfl
  have hreach := hreach.tail (.resumeLink "Server-1" "Server-2")
    (fun l hl => by
      obtain rfl := Except.ok.inj hl
      intro _
      decide) rfl
  have hreach := hreach.tail .step trivial rfl
  exact ⟨_, hreach, rfl, noStranded_and_stepSound_of_careful hreach⟩

/-- A link is paused, skips the wake-up of its frame, and is resumed at the same virtual
time: the frame is stranded. -/
theorem not_noStranded_of_skipped :
    ¬ ∀ servers now s, Runs.Reaches NetState.execute Admissible (NetState.start servers now) s →
      NoStranded s ∧ StepSound s := by
  intro hall
  have hreach : Runs.Reaches NetState.execute Admissible (NetState.start twoHosts 0)
      (NetState.start twoHosts 0) := Runs.Reaches.refl
  have hreach := hreach.tail (.send 1 somePacket 5) (Nat.zero_le _) rfl
  have hreach := hreach.tail (.pauseLink "Server-1" "Server-2") trivial rfl
  have hreach := hreach.tail .step trivial rfl
  have hreach := hreach.tail (.resumeLink "Server-1" "Server-2") trivial rfl
  obtain ⟨hframes, -⟩ := hall twoHosts 0 _ hreach
  have hstranded := hframes 1 (by decide) 5
  revert hstranded
  decide

end Whirl.Net
