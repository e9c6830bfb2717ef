/-
# Every packet arrives once

What happens to a frame that was handed to a link: it waits in the queue of the link until
`Network::Step` takes it out and hands its packet to a server, and `Link::Resume` puts it off if
it is overdue.  So in every run, whatever is paused, split and healed meanwhile, each sending has
one arrival or one frame that still waits, not before the time that was chosen for it.

`Traffic` records what was sent, what arrived, and when each link was resumed; the network does
not read it.
-/
import WhirlMatrix.Network.LinkEvents
import WhirlMatrix.Network.EventsInStep
import WhirlMatrix.Network.Routing
import Mathlib.Algebra.Order.Group.Multiset
import Mathlib.Data.Multiset.MapFold

namespace Whirl.Net

/-! ## Frames that are put off -/

/-- The same frame at the same time; or it was overdue at one of the times, and comes in the
jiffy after. -/
def PutsOff (times : List ℕ) (f f' : FrameEvent) : Prop :=
  f.frame = f'.frame ∧ (f.time = f'.time ∨ ∃ t ∈ times, f.time < t ∧ f'.time = t + 1)

variable {times times' : List ℕ}

/-- A frame is put off, never brought forward. -/
theorem PutsOff.time_le {f f' : FrameEvent} (h : PutsOff times f f') : f.time ≤ f'.time := by
  obtain ⟨-, heq | ⟨t, -, hover, htime⟩⟩ := h <;> omega

instance : IsTrans FrameEvent (PutsOff times) where
  trans f f' f'' h h' := by
    obtain ⟨hframe', heq | ⟨t, ht, hover, htime⟩⟩ := h'
    · exact ⟨h.1.trans hframe', by rw [← heq]; exact h.2⟩
    · exact ⟨h.1.trans hframe', Or.inr ⟨t, ht, h.time_le.trans_lt hover, htime⟩⟩

/-- The frames of `fs` are those of `fs'`, of which some were put off. -/
def PutOff (times : List ℕ) (fs fs' : Multiset FrameEvent) : Prop :=
  Multiset.Rel (PutsOff times) fs fs'

theorem PutOff.refl (fs : Multiset FrameEvent) : PutOff times fs fs :=
  Multiset.rel_refl_of_refl_on fun _ _ => ⟨rfl, Or.inl rfl⟩

theorem PutOff.trans {fs fs' fs'' : Multiset FrameEvent} (h : PutOff times fs fs')
    (h' : PutOff times fs' fs'') : PutOff times fs fs'' :=
  Multiset.Rel.trans (PutsOff times) h h'

theorem PutOff.mono {fs fs' : Multiset FrameEvent} (h : PutOff times fs fs')
    (hsub : ∀ t ∈ times, t ∈ times') : PutOff times' fs fs' :=
  Multiset.Rel.mono h fun _ _ _ _ hf =>
    ⟨hf.1, hf.2.imp_right fun ⟨t, ht, hover⟩ => ⟨t, hsub t ht, hover⟩⟩

/-- No frame is lost, and none comes twice. -/
theorem PutOff.map_frame {fs fs' : Multiset FrameEvent} (h : PutOff times fs fs') :
    Multiset.map FrameEvent.frame fs = Multiset.map FrameEvent.frame fs' := by
  rw [← Multiset.rel_eq, Multiset.rel_map]
  exact Multiset.Rel.mono h fun _ _ _ _ hf => hf.1

namespace Network

variable {net net' : Network} {now : ℕ} {l l' : LinkId} {link : Link}

/-! ## What each operation does to the queues -/

/-- What waits on link `l`. -/
def queued (net : Network) (l : LinkId) : Multiset FrameEvent :=
  match net.links[l]? with
  | none => 0
  | some link => link.frames.held

theorem queued_eq (h : net.links[l]? = some link) : net.queued l = link.frames.held := by
  rw [queued, h]

/-- Nothing waits on links that were just built. -/
theorem queued_buildLinks (servers : List IServer) (l : LinkId) :
    ({ servers := servers } : Network).buildLinks.queued l = 0 := by
  rw [queued]
  split
  · rfl
  · rename_i link hlink
    rw [held_buildLinks servers link (List.mem_of_getElem? hlink)]
    rfl

theorem queued_setLink_ne (net : Network) (hne : l ≠ l') (link' : Link) :
    (net.setLink l link').queued l' = net.queued l' := by
  rw [queued, getElem?_setLink_ne net hne, queued]

/-- A link is replaced by one with the same queue. -/
theorem queued_setLink (h : net.links[l]? = some link) {link' : Link}
    (hframes : link'.frames = link.frames) (l' : LinkId) :
    (net.setLink l link').queued l' = net.queued l' := by
  rcases eq_or_ne l l' with rfl | hne
  · rw [queued_eq (getElem?_setLink h link'), queued_eq h, hframes]
  · exact queued_setLink_ne net hne link'

theorem queued_addFrame (h : net.links[l]? = some link) (frame : Frame) (d : ℕ) (l' : LinkId) :
    (net.addFrame l frame d).queued l'
      = net.queued l' + if l = l' then {⟨frame, d⟩} else 0 := by
  rcases eq_or_ne l l' with rfl | hne
  · have hget : (net.addFrame l frame d).links[l]?
        = some { link with frames := link.frames.insert ⟨frame, d⟩ } := by
      rw [getElem?_addFrame, h]
      simp
    rw [queued_eq hget, queued_eq h, PriorityQueue.held_insert, if_pos rfl, add_comm,
      Multiset.singleton_add]
    rfl
  · rw [if_neg hne, add_zero, queued, getElem?_addFrame, queued]
    cases net.links[l']? with
    | none => rfl
    | some link' =>
      rw [Option.map_some, if_neg hne]

theorem queued_pause (h : net.pause l = .ok net') (l' : LinkId) :
    net'.queued l' = net.queued l' := by
  obtain ⟨link, hlink, -, rfl⟩ := pause_eq_ok h
  have hframes : ({ link with paused := true } : Link).frames = link.frames := rfl
  exact queued_setLink hlink hframes l'

/-- A frame that is taken out of a queue. -/
theorem queued_extract (h : net.links[l]? = some link) {f : FrameEvent}
    {frames : PriorityQueue FrameEvent} (hextract : link.frames.extract = .ok (f, frames))
    (l' : LinkId) :
    net.queued l' = (net.setLink l { link with frames := frames }).queued l'
      + if l = l' then {f} else 0 := by
  rcases eq_or_ne l l' with rfl | hne
  · rw [queued_eq h, queued_eq (getElem?_setLink h _), if_pos rfl, add_comm,
      Multiset.singleton_add]
    exact (Multiset.coe_eq_coe.mpr (PriorityQueue.extract_perm hextract)).symm
  · rw [queued_setLink_ne net hne, if_neg hne, add_zero]

/-- The loop of `Link::Resume` puts the overdue frames off.  Induction on its turns. -/
theorem queued_resumeLoop {tests : ℕ} (h : resumeLoop now l tests net = .ok net') (l' : LinkId) :
    PutOff (if l = l' then [now] else []) (net.queued l') (net'.queued l') := by
  induction tests generalizing net with
  | zero => exact absurd h (by simp [resumeLoop])
  | succ tests ih =>
    obtain ⟨link, f, hlink, -, ⟨-, rfl⟩ | ⟨hover, frames, hextract, h⟩⟩ := resumeLoop_succ h
    · exact PutOff.refl _
    · refine PutOff.trans ?_ (ih h)
      -- the clock does not wrap around, or the loop would not end
      have hlater : addTime now 1 = now + 1 := by
        rcases addTime_one now with hadd | hwrap
        · exact hadd
        · exact absurd h (resumeLoop_ne_ok hwrap (getElem?_resend hlink)
            ⟨⟨f.frame, addTime now 1⟩, by simp, hwrap⟩)
      rw [queued_extract hlink hextract, queued_addFrame (getElem?_setLink hlink _)]
      apply Multiset.Rel.add (PutOff.refl _)
      split
      · rw [← Multiset.cons_zero, ← Multiset.cons_zero]
        exact .cons ⟨rfl, Or.inr ⟨now, List.mem_singleton_self now, hover, hlater⟩⟩ .zero
      · exact .zero

/-- When link `l` was resumed: now, if it was paused and is no longer. -/
def resumedAt (net net' : Network) (l : LinkId) (now : ℕ) : List ℕ :=
  if net.isPaused l = true ∧ net'.isPaused l = false then [now] else []

theorem mem_resumedAt {t : ℕ} : t ∈ resumedAt net net' l now ↔
    (net.isPaused l = true ∧ net'.isPaused l = false) ∧ t = now := by
  rw [resumedAt]
  split <;> simp_all

theorem queued_resume (h : net.resume l now = .ok net') (l' : LinkId) :
    PutOff (net.resumedAt net' l' now) (net.queued l') (net'.queued l') := by
  cases hpaused : net.isPaused l with
  | false =>
    rw [resume_of_open h hpaused]
    exact PutOff.refl _
  | true =>
    have hopened := isPaused_resume h l'
    obtain ⟨link, hlink, ⟨-, rfl⟩ | ⟨-, hresumed⟩⟩ := resume_eq_ok h
    · exact PutOff.refl _
    have hframes : ({ link with paused := false } : Link).frames = link.frames := rfl
    obtain ⟨-, rfl⟩ | hloop := hresumed
    · rw [queued_setLink hlink hframes]
      exact PutOff.refl _
    · rw [← queued_setLink hlink hframes]
      apply (queued_resumeLoop hloop l').mono
      intro t ht
      split at ht
      · rename_i heq
        subst heq
        rw [if_pos rfl] at hopened
        exact mem_resumedAt.mpr ⟨⟨hpaused, hopened⟩, List.mem_singleton.mp ht⟩
      · exact absurd ht List.not_mem_nil

theorem queued_split {lhs : Partition} (h : net.split lhs = .ok net') (l' : LinkId) :
    net'.queued l' = net.queued l' :=
  split_induction (I := fun net' => net'.queued l' = net.queued l') h rfl
    fun _ _ _ hI h => (queued_pause h l').trans hI

/-- `Heal` resumes each link once: what it leaves paused was paused before. -/
theorem queued_heal (h : net.heal now = .ok net') (l' : LinkId) :
    PutOff (net.resumedAt net' l' now) (net.queued l') (net'.queued l') := by
  have hhealed : (net'.isPaused l' = true → net.isPaused l' = true) ∧
      PutOff (net.resumedAt net' l' now) (net.queued l') (net'.queued l') := by
    refine heal_induction (I := fun net' => (net'.isPaused l' = true → net.isPaused l' = true) ∧
      PutOff (net.resumedAt net' l' now) (net.queued l') (net'.queued l')) h
      ⟨id, PutOff.refl _⟩ ?_
    rintro net₁ l net₂ ⟨hpaused, hput⟩ hresume
    have hkept : net₂.isPaused l' = true → net₁.isPaused l' = true := by
      rw [isPaused_resume hresume]
      split
      · exact fun h => absurd h (by decide)
      · exact id
    refine ⟨fun h => hpaused (hkept h), (hput.mono ?_).trans ((queued_resume hresume l').mono ?_)⟩
    · intro t ht
      obtain ⟨⟨hbefore, hopen⟩, rfl⟩ := mem_resumedAt.mp ht
      refine mem_resumedAt.mpr ⟨⟨hbefore, ?_⟩, rfl⟩
      rw [← Bool.not_eq_true] at hopen ⊢
      exact fun h => hopen (hkept h)
    · intro t ht
      obtain ⟨⟨hbefore, hopen⟩, rfl⟩ := mem_resumedAt.mp ht
      exact mem_resumedAt.mpr ⟨⟨hpaused hbefore, hopen⟩, rfl⟩
  exact hhealed.2

/-- What `Step` takes out of the queue of link `l`. -/
def taken (net : Network) (l : LinkId) : List FrameEvent :=
  match net.events.smallest with
  | .error _ => []
  | .ok event =>
    if event.link = l then
      match net.links[l]? with
      | none => []
      | some link =>
        if link.paused then
          []
        else
          match link.frames.smallest with
          | .error _ => []
          | .ok f => [f]
    else
      []

theorem taken_of_ne {event : LinkEvent} (hevent : net.events.smallest = .ok event)
    (hne : event.link ≠ l) : net.taken l = [] := by
  rw [taken, hevent]
  exact if_neg hne

theorem taken_of_paused {event : LinkEvent} (hevent : net.events.smallest = .ok event)
    (hlink : net.links[event.link]? = some link) (hpaused : link.paused = true) :
    net.taken event.link = [] := by
  simp [taken, hevent, hlink, hpaused]

theorem taken_of_open {event : LinkEvent} (hevent : net.events.smallest = .ok event)
    (hlink : net.links[event.link]? = some link) (hopen : link.paused = false) {f : FrameEvent}
    (hf : link.frames.smallest = .ok f) : net.taken event.link = [f] := by
  simp [taken, hevent, hlink, hopen, hf]

theorem queued_step {delivery : Option Delivery} (h : net.step = .ok (net', delivery))
    (l' : LinkId) : net.queued l' = net'.queued l' + (net.taken l' : Multiset FrameEvent) := by
  obtain ⟨e, events, link, hextract, hlink, hcase⟩ := step_eq_ok h
  have hevent := PriorityQueue.smallest_eq_ok.mpr ⟨_, hextract⟩
  obtain ⟨hpaused, rfl, -⟩ | ⟨hopen, f, frames, hf, -, rfl, -⟩ := hcase
  · have hnone : net.taken l' = [] := by
      rcases eq_or_ne e.link l' with rfl | hne
      · exact taken_of_paused hevent hlink hpaused
      · exact taken_of_ne hevent hne
    rw [hnone]
    exact (add_zero _).symm
  · have hlink' : ({ net with events := events } : Network).links[e.link]? = some link := hlink
    have htaken : (net.taken l' : Multiset FrameEvent) = if e.link = l' then {f} else 0 := by
      rcases eq_or_ne e.link l' with rfl | hne
      · rw [taken_of_open hevent hlink hopen (PriorityQueue.smallest_eq_ok.mpr ⟨_, hf⟩), if_pos rfl]
        rfl
      · rw [taken_of_ne hevent hne, if_neg hne]
        rfl
    rw [htaken]
    exact queued_extract hlink' hf l'

/-- What is taken out of a queue is handed to the server at the end of its link. -/
theorem taken_of_step {delivery : Option Delivery} (h : net.step = .ok (net', delivery))
    {f : FrameEvent} (hf : f ∈ net.taken l) :
    ∃ e, net.ends l = some e ∧ net.nextStepTime = .ok f.time ∧
      delivery = some ⟨f.frame.packet, e.stop, e.opposite⟩ := by
  obtain ⟨event, events, link, hextract, hlink, hcase⟩ := step_eq_ok h
  have hevent := PriorityQueue.smallest_eq_ok.mpr ⟨_, hextract⟩
  rcases eq_or_ne event.link l with rfl | hne
  · obtain ⟨hpaused, -⟩ | ⟨hopen, f', frames, hf', htime, -, rfl⟩ := hcase
    · rw [taken_of_paused hevent hlink hpaused] at hf
      exact absurd hf List.not_mem_nil
    · rw [taken_of_open hevent hlink hopen (PriorityQueue.smallest_eq_ok.mpr ⟨_, hf'⟩)] at hf
      obtain rfl := List.mem_singleton.mp hf
      refine ⟨link.ends, ends_eq hlink, ?_, rfl⟩
      exact Outcome.bind_eq_ok.mpr ⟨event, hevent, congrArg Except.ok htime.symm⟩
  · rw [taken_of_ne hevent hne] at hf
    exact absurd hf List.not_mem_nil

end Network

/-! ## Runs -/

/-- A frame that arrived: when it did so, and what the network handed over to whom. -/
structure Arrival where
  event : FrameEvent
  time : ℕ
  delivery : Delivery

/-- The network, with what was handed to each link, what arrived on it, and when it was resumed. -/
structure Traffic where
  state : NetState
  sent : LinkId → List FrameEvent := fun _ => []
  arrived : LinkId → List Arrival := fun _ => []
  resumed : LinkId → List ℕ := fun _ => []

/-- What an operation hands to link `l`. -/
def NetState.sends (s : NetState) (l : LinkId) : NetOp → List FrameEvent
  | .send l' packet flightTime =>
    match s.net.links[l]? with
    | some link =>
      if l' = l then [⟨link.makeFrame packet s.time.now, addTime s.time.now flightTime⟩] else []
    | none => []
  | _ => []

/-- What arrives on link `l` in an operation that leads to `s'`. -/
def NetState.receives (s s' : NetState) (l : LinkId) : NetOp → List Arrival
  | .step =>
    match s.net.step with
    | .ok (_, some delivery) => (s.net.taken l).map fun f => ⟨f, s'.time.now, delivery⟩
    | _ => []
  | _ => []

/-- When link `l` is resumed in an operation that leads to `s'`. -/
def NetState.resumes (s s' : NetState) (l : LinkId) : List ℕ :=
  s.net.resumedAt s'.net l s.time.now

/-- What `Step` takes out of the queues arrives, and nothing else. -/
theorem NetState.map_event_receives {s s' : NetState} {net : Network} {delivery : Option Delivery}
    (hnet : s.net.step = .ok (net, delivery)) (l : LinkId) :
    (s.receives s' l .step).map Arrival.event = s.net.taken l := by
  cases delivery with
  | some delivery =>
    rw [receives, hnet]
    exact List.map_map.trans (List.map_id _)
  | none =>
    rw [receives, hnet]
    symm
    rw [List.map_nil, List.eq_nil_iff_forall_not_mem]
    intro f hf
    obtain ⟨_, -, -, hdelivery⟩ := Network.taken_of_step hnet hf
    cases hdelivery

/-- Whatever `Step` hands over arrives on some link. -/
theorem NetState.exists_arrival {s s' : NetState} {net : Network} {delivery : Delivery}
    (hnet : s.net.step = .ok (net, some delivery)) :
    ∃ l, ∃ a ∈ s.receives s' l .step, a.delivery = delivery := by
  obtain ⟨e, events, link, hextract, hlink, ⟨-, -, hnone⟩ | ⟨hopen, f, frames, hf, -, -, -⟩⟩ :=
    Network.step_eq_ok hnet
  · cases hnone
  · have hevent := PriorityQueue.smallest_eq_ok.mpr ⟨_, hextract⟩
    have htaken := Network.taken_of_open hevent hlink hopen
      (PriorityQueue.smallest_eq_ok.mpr ⟨_, hf⟩)
    refine ⟨e.link, ⟨f, s'.time.now, delivery⟩, ?_, rfl⟩
    rw [receives, hnet]
    exact List.mem_map.mpr ⟨f, htaken ▸ List.mem_singleton_self f, rfl⟩

/-- **One operation loses nothing and doubles nothing.**  What waited on a link and what is
handed to it arrives or waits. -/
theorem NetState.putOff_execute {s s' : NetState} {op : NetOp} (h : s.execute op = .ok s')
    (l : LinkId) :
    PutOff (s.resumes s' l) (s.net.queued l + (s.sends l op : Multiset FrameEvent))
      (((s.receives s' l op).map Arrival.event : Multiset FrameEvent) + s'.net.queued l) := by
  have hkept : PutOff (s.resumes s' l) (s.net.queued l) (s'.net.queued l) → s.sends l op = [] →
      s.receives s' l op = [] →
      PutOff (s.resumes s' l) (s.net.queued l + (s.sends l op : Multiset FrameEvent))
        (((s.receives s' l op).map Arrival.event : Multiset FrameEvent) + s'.net.queued l) := by
    intro hqueued hsends hreceives
    rw [hsends, hreceives]
    simpa using hqueued
  cases NetState.executed_of_execute h with
  | tick _ => exact hkept (PutOff.refl _) rfl rfl
  | @send l' packet flightTime net hnet =>
    obtain ⟨link, hlink, rfl⟩ := Network.add_eq_ok hnet
    simp only [receives, List.map_nil, Multiset.coe_nil, zero_add]
    rw [Network.queued_addFrame hlink]
    rcases eq_or_ne l' l with rfl | hne
    · simp only [NetState.sends, hlink, if_true]
      exact PutOff.refl _
    · have hnone : s.sends l (.send l' packet flightTime) = [] := by
        rw [NetState.sends]
        split
        · rw [if_neg hne]
        · rfl
      rw [hnone, if_neg hne]
      exact PutOff.refl _
  | pauseLink hnet =>
    obtain ⟨l', -, hnet⟩ := Outcome.bind_eq_ok.mp hnet
    refine hkept ?_ rfl rfl
    rw [Network.queued_pause hnet]
    exact PutOff.refl _
  | resumeLink hnet =>
    obtain ⟨l', -, hnet⟩ := Outcome.bind_eq_ok.mp hnet
    exact hkept (Network.queued_resume hnet l) rfl rfl
  | split hnet =>
    refine hkept ?_ rfl rfl
    rw [Network.queued_split hnet]
    exact PutOff.refl _
  | heal hnet => exact hkept (Network.queued_heal hnet l) rfl rfl
  | step _ _ hnet =>
    have hnothing : s.sends l .step = [] := rfl
    rw [Network.queued_step hnet l, map_event_receives hnet, hnothing, Multiset.coe_nil, add_zero,
      add_comm]
    exact PutOff.refl _

/-- No operation moves a link. -/
theorem NetState.ends_execute {s s' : NetState} {op : NetOp} (h : s.execute op = .ok s')
    (l : LinkId) : s'.net.ends l = s.net.ends l := by
  cases NetState.executed_of_execute h with
  | tick _ => rfl
  | send hnet =>
    obtain ⟨-, -, -, -, hends, -, -⟩ := Network.add_spec hnet
    exact hends l
  | pauseLink hnet => exact (Network.quiet_pauseLink hnet).ends l
  | resumeLink hnet => exact (Network.quiet_resumeLink hnet).ends l
  | split hnet => exact (Network.quiet_split hnet).ends l
  | heal hnet => exact (Network.quiet_heal hnet).ends l
  | step _ _ hnet => exact (Network.quiet_step hnet).1.ends l

/-- What arrives does so now, at the time of its frame, and is handed to the server at the end of
the link. -/
theorem NetState.arrival_of_receives {s s' : NetState} {op : NetOp} (h : s.execute op = .ok s')
    {l : LinkId} {a : Arrival} (ha : a ∈ s.receives s' l op) :
    a.time = s'.time.now ∧ a.event.time = s'.time.now ∧ ∃ e, s.net.ends l = some e ∧
      a.delivery = ⟨a.event.frame.packet, e.stop, e.opposite⟩ := by
  cases NetState.executed_of_execute h with
  | @step next _ delivery hnext _ hnet =>
    cases delivery with
    | none =>
      rw [receives, hnet] at ha
      exact absurd ha List.not_mem_nil
    | some delivery =>
      rw [receives, hnet] at ha
      obtain ⟨f, hf, rfl⟩ := List.mem_map.mp ha
      obtain ⟨e, he, hdue, hdelivery⟩ := Network.taken_of_step hnet hf
      exact ⟨rfl, Except.ok.inj (hdue.symm.trans hnext), e, he, Option.some.inj hdelivery⟩
  | _ => exact absurd ha List.not_mem_nil

/-- What is handed to a link bears the names of its ends. -/
theorem NetState.header_of_sends {s : NetState} {op : NetOp} {l : LinkId} {f : FrameEvent}
    (hf : f ∈ s.sends l op) : ∃ e, s.net.ends l = some e ∧
      f.frame.header.sourceHost = e.start.hostName ∧ f.frame.header.destHost = e.stop.hostName := by
  cases op with
  | send l' packet flightTime =>
    rw [NetState.sends] at hf
    split at hf
    · rename_i link hlink
      split at hf
      · obtain rfl := List.mem_singleton.mp hf
        exact ⟨link.ends, Network.ends_eq hlink, rfl, rfl⟩
      · exact absurd hf List.not_mem_nil
    · exact absurd hf List.not_mem_nil
  | _ => exact absurd hf List.not_mem_nil

/-- The clock does not go back. -/
theorem NetState.now_le_execute {s s' : NetState} {op : NetOp} (h : s.execute op = .ok s') :
    s.time.now ≤ s'.time.now := by
  cases NetState.executed_of_execute h with
  | tick hle => exact hle
  | step _ hle _ => exact hle
  | _ => exact Nat.le_refl _

namespace Traffic

/-- One operation. -/
def execute (t : Traffic) (op : NetOp) : Outcome Traffic := do
  let state ← t.state.execute op
  return {
    state := state
    sent := fun l => t.sent l ++ t.state.sends l op
    arrived := fun l => t.arrived l ++ t.state.receives state l op
    resumed := fun l => t.resumed l ++ t.state.resumes state l }

/-- A network whose links were just built. -/
def start (servers : List IServer) (now : ℕ) : Traffic := { state := NetState.start servers now }

/-- The frames that arrived on link `l` or wait there. -/
def frames (t : Traffic) (l : LinkId) : Multiset FrameEvent :=
  ((t.arrived l).map Arrival.event : Multiset FrameEvent) + t.state.net.queued l

/-- Each frame that was handed to a link arrived or waits, once and not too early. -/
def Conserved (t : Traffic) : Prop := ∀ l, PutOff (t.resumed l) (t.sent l) (t.frames l)

theorem Conserved.execute {t t' : Traffic} {op : NetOp} (h : t.Conserved)
    (ht : t.execute op = .ok t') : t'.Conserved := by
  obtain ⟨state, hstate, ht⟩ := Outcome.bind_eq_ok.mp ht
  obtain rfl := Outcome.pure_eq_ok.mp ht
  intro l
  have hold := (h l).mono fun time htime =>
    List.mem_append_left (t.state.resumes state l) htime
  have hstep := (NetState.putOff_execute hstate l).mono fun time htime =>
    List.mem_append_right (t.resumed l) htime
  have hmore := Multiset.Rel.add hold (PutOff.refl (t.state.sends l op))
  have hrest := Multiset.Rel.add (PutOff.refl ((t.arrived l).map Arrival.event)) hstep
  rw [frames, add_assoc] at hmore
  rw [frames, List.map_append, ← Multiset.coe_add, ← Multiset.coe_add, add_assoc]
  exact PutOff.trans hmore hrest

theorem conserved_start (servers : List IServer) (now : ℕ) : (start servers now).Conserved := by
  intro l
  show PutOff [] 0 (0 + (NetState.start servers now).net.queued l)
  rw [NetState.start, Network.queued_buildLinks]
  exact PutOff.refl _

/-- What was sent bears the names of the ends of its link, and what arrived did so in time, at
the server at the end of the link. -/
structure Recorded (t : Traffic) : Prop where
  header : ∀ l, ∀ f ∈ t.sent l, ∃ e, t.state.net.ends l = some e ∧
    f.frame.header.sourceHost = e.start.hostName ∧ f.frame.header.destHost = e.stop.hostName
  sorted : ∀ l, ((t.arrived l).map Arrival.time).Pairwise (· ≤ ·)
  arrived : ∀ l, ∀ a ∈ t.arrived l, a.time ≤ t.state.time.now ∧ a.event.time = a.time ∧
    ∃ e, t.state.net.ends l = some e ∧ a.delivery = ⟨a.event.frame.packet, e.stop, e.opposite⟩

theorem Recorded.execute {t t' : Traffic} {op : NetOp} (h : t.Recorded)
    (ht : t.execute op = .ok t') : t'.Recorded := by
  obtain ⟨state, hstate, ht⟩ := Outcome.bind_eq_ok.mp ht
  obtain rfl := Outcome.pure_eq_ok.mp ht
  have hlater := NetState.now_le_execute hstate
  constructor
  · intro l f hf
    dsimp only
    rw [NetState.ends_execute hstate]
    obtain hf | hf := List.mem_append.mp hf
    · exact h.header l f hf
    · exact NetState.header_of_sends hf
  · intro l
    have hnew : ∀ a ∈ t.state.receives state l op, a.time = state.time.now := fun a ha =>
      (NetState.arrival_of_receives hstate ha).1
    dsimp only
    rw [List.map_append, List.pairwise_append]
    refine ⟨h.sorted l, ?_, ?_⟩
    · rw [List.pairwise_map, List.pairwise_iff_forall_sublist]
      intro a a' hsub
      rw [hnew a (hsub.subset (by simp)), hnew a' (hsub.subset (by simp))]
    · intro x hx y hy
      obtain ⟨a, ha, rfl⟩ := List.mem_map.mp hx
      obtain ⟨a', ha', rfl⟩ := List.mem_map.mp hy
      rw [hnew a' ha']
      exact Nat.le_trans (h.arrived l a ha).1 hlater
  · intro l a ha
    dsimp only
    rw [NetState.ends_execute hstate]
    obtain ha | ha := List.mem_append.mp ha
    · obtain ⟨hold, hrest⟩ := h.arrived l a ha
      exact ⟨Nat.le_trans hold hlater, hrest⟩
    · obtain ⟨htime, hevent, hends⟩ := NetState.arrival_of_receives hstate ha
      exact ⟨htime.le, hevent.trans htime.symm, hends⟩

/-- **Packets are conserved.**  In every run, on every link: what was sent is what arrived and
what still waits, each once; the time of a frame changes only when it is overdue while its link
is resumed, to the jiffy after; and what arrives does so at its time, not before what arrived
earlier, and the network hands its packet to the server at the end of the link.  Nothing else
is handed over: what the next step of the network hands over arrives on a link. -/
theorem conserved_of_reaches {servers : List IServer} {now : ℕ} {t : Traffic}
    (hrun : Runs.Reaches execute (fun _ _ => True) (start servers now) t) (l : LinkId) :
    Multiset.map FrameEvent.frame (t.sent l) = Multiset.map FrameEvent.frame (t.frames l) ∧
      PutOff (t.resumed l) (t.sent l) (t.frames l) ∧
      ((t.arrived l).map Arrival.time).Pairwise (· ≤ ·) ∧
      (∀ a ∈ t.arrived l, a.time ≤ t.state.time.now ∧ a.event.time = a.time ∧
        ∃ e, t.state.net.ends l = some e ∧
          a.delivery = ⟨a.event.frame.packet, e.stop, e.opposite⟩ ∧
          a.event.frame.header.sourceHost = e.start.hostName ∧
          a.event.frame.header.destHost = e.stop.hostName) ∧
      ∀ t' net delivery, t.execute .step = .ok t' → t.state.net.step = .ok (net, some delivery) →
        ∃ l', ∃ a ∈ t'.arrived l', a.delivery = delivery := by
  have hconserved : t.Conserved := hrun.invariant (conserved_start servers now)
    fun _ _ _ h _ hs => h.execute hs
  have hrecorded : t.Recorded := by
    apply hrun.invariant (I := Recorded) _ fun _ _ _ h _ hs => h.execute hs
    constructor
    · intro l f hf
      exact absurd hf List.not_mem_nil
    · exact fun l => .nil
    · intro l a ha
      exact absurd ha List.not_mem_nil
  refine ⟨(hconserved l).map_frame, hconserved l, hrecorded.sorted l, ?_, ?_⟩
  · intro a ha
    obtain ⟨htime, hevent, e, he, hdelivery⟩ := hrecorded.arrived l a ha
    -- the frame is one that was sent
    have hmem : a.event ∈ t.frames l :=
      Multiset.mem_add.mpr (Or.inl (Multiset.mem_coe.mpr (List.mem_map_of_mem ha)))
    obtain ⟨g, hg, hframe, -⟩ := Multiset.exists_mem_of_rel_of_mem
      (Multiset.rel_flip.mpr (hconserved l)) hmem
    obtain ⟨e', he', hsource, hdest⟩ := hrecorded.header l g (Multiset.mem_coe.mp hg)
    obtain rfl := Option.some.inj (he.symm.trans he')
    exact ⟨htime, hevent, e, he, hdelivery, by rw [← hframe, hsource], by rw [← hframe, hdest]⟩
  · intro t' net delivery hexecute hstep
    obtain ⟨state, -, hexecute⟩ := Outcome.bind_eq_ok.mp hexecute
    obtain rfl := Outcome.pure_eq_ok.mp hexecute
    obtain ⟨l', a, ha, hdelivery⟩ : ∃ l', ∃ a ∈ t.state.receives state l' .step,
        a.delivery = delivery := NetState.exists_arrival hstep
    exact ⟨l', a, List.mem_append_right _ ha, hdelivery⟩

/-- A frame that is overdue when its link is resumed arrives once, in the jiffy after. -/
theorem conserved_of_reaches_overdue :
    ∃ t, Runs.Reaches execute (fun _ _ => True) (start twoHosts 0) t ∧ (t.sent 1).map FrameEvent.time = [5] ∧ (t.arrived 1).map Arrival.time = [7] ∧
      t.resumed 1 = [6] ∧ PutOff (t.resumed 1) (t.sent 1) (t.frames 1) := by
  have hreach : Runs.Reaches execute (fun _ _ => True) (start twoHosts 0) (start twoHosts 0) :=
    Runs.Reaches.refl
  have hreach := hreach.tail (.send 1 somePacket 5) trivial rfl
  have hreach := hreach.tail (.pauseLink "Server-1" "Server-2") trivial rfl
  have hreach := hreach.tail .step trivial rfl
  have hreach := hreach.tail (.tick 6) trivial rfl
  have hreach := hreach.tail .heal trivial rfl
  have hreach := hreach.tail .step trivial rfl
  exact ⟨_, hreach, rfl, rfl, rfl, (conserved_of_reaches hreach 1).2.1⟩

end Traffic

end Whirl.Net
