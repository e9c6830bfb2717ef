/-
# How late a packet can be

The simulated network is partially synchronous.  In every run with the flight times of the crazy
time model, a packet on a link that is not paused any more arrives within the longest flight of
its type, or in the first jiffy after the link was resumed, whatever happened before.

The bounds are proved for the operations of the network alone; a world uses its network only
through these operations, at the times of its own clock.
-/
import WhirlMatrix.Network.Conservation
import WhirlMatrix.Network.EventsInStep
import WhirlMatrix.TimeModel.Crazy
import WhirlMatrix.World.VirtualTime

namespace Whirl

open Net

/-! ## The network -/

namespace Net

/-- When a frame arrives at the latest, on a link that is not paused after time `t`. -/
def Frame.latest (frame : Frame) (t : ℕ) : ℕ :=
  max (frame.header.sendTime + CrazyTimeModel.longest frame.packet.header.type) (t + 1)

theorem Frame.latest_mono (frame : Frame) {t t' : ℕ} (hle : t ≤ t') :
    frame.latest t ≤ frame.latest t' :=
  max_le_max_left _ (Nat.succ_le_succ hle)

namespace Network

variable {net net' : Network} {l l' : LinkId} {now t : ℕ} {f : FrameEvent}

/-- No frame that waits on link `l` comes too late. -/
def Prompt (net : Network) (l : LinkId) (t : ℕ) : Prop :=
  ∀ f ∈ net.queued l, f.time ≤ f.frame.latest t

theorem Prompt.mono {t' : ℕ} (h : net.Prompt l t) (hle : t ≤ t') : net.Prompt l t' :=
  fun f hf => (h f hf).trans (f.frame.latest_mono hle)

theorem Prompt.add {packet : Packet} {flightTime : ℕ} (h : net.Prompt l t)
    (hflies : CrazyTimeModel.Flies packet.header.type flightTime)
    (hno : now + flightTime < 2 ^ 64) (hadd : net.add l' packet now flightTime = .ok net') :
    net'.Prompt l t := by
  obtain ⟨link, hlink, rfl⟩ := add_eq_ok hadd
  intro f hf
  rw [queued_addFrame hlink] at hf
  rcases Multiset.mem_add.mp hf with hf | hf
  · exact h f hf
  · split at hf
    · obtain rfl := Multiset.mem_singleton.mp hf
      apply le_max_of_le_left
      rw [addTime_of_lt hno]
      exact Nat.add_le_add_left (CrazyTimeModel.le_longest hflies) now
    · exact absurd hf (Multiset.notMem_zero f)

/-- What waits on a link that is resumed waited before, or is put off by one jiffy.  Induction on
the turns of the loop. -/
theorem mem_queued_of_resumeLoop {tests : ℕ} (h : resumeLoop now l tests net = .ok net')
    (hf : f ∈ net'.queued l') : f ∈ net.queued l' ∨ (l = l' ∧ f.time ≤ now + 1) := by
  induction tests generalizing net with
  | zero => exact absurd h (by simp [resumeLoop])
  | succ tests ih =>
    obtain ⟨link, e, hlink, -, ⟨-, rfl⟩ | ⟨-, frames, hextract, h⟩⟩ := resumeLoop_succ h
    · exact Or.inl hf
    · rcases ih h with hold | hlate
      · rw [queued_addFrame (getElem?_setLink hlink _)] at hold
        rcases Multiset.mem_add.mp hold with hold | hnew
        · left
          rw [queued_extract hlink hextract]
          exact Multiset.mem_add.mpr (Or.inl hold)
        · split at hnew
          · rename_i heq
            obtain rfl := Multiset.mem_singleton.mp hnew
            exact Or.inr ⟨heq, Nat.mod_le _ _⟩
          · exact absurd hnew (Multiset.notMem_zero f)
      · exact Or.inr hlate

theorem mem_queued_of_resume (h : net.resume l now = .ok net') (hf : f ∈ net'.queued l') :
    f ∈ net.queued l' ∨ (l = l' ∧ f.time ≤ now + 1) := by
  obtain ⟨link, hlink, ⟨-, rfl⟩ | ⟨-, hresumed⟩⟩ := resume_eq_ok h
  · exact Or.inl hf
  have hframes : ({ link with paused := false } : Link).frames = link.frames := rfl
  rw [← queued_setLink hlink hframes]
  obtain ⟨-, rfl⟩ | hloop := hresumed
  · exact Or.inl hf
  · exact mem_queued_of_resumeLoop hloop hf

/-- Link `l` is not paused, or it may be resumed until time `t`. -/
def Resumable (net : Network) (l : LinkId) (now t : ℕ) : Prop := now ≤ t ∨ net.isPaused l = false

theorem Prompt.resume (h : net.Prompt l t ∧ net.Resumable l now t)
    (hresume : net.resume l' now = .ok net') : net'.Prompt l t ∧ net'.Resumable l now t := by
  obtain ⟨hprompt, hresumable⟩ := h
  cases hpaused : net.isPaused l' with
  | false =>
    rw [resume_of_open hresume hpaused]
    exact ⟨hprompt, hresumable⟩
  | true =>
    constructor
    · intro f hf
      rcases mem_queued_of_resume hresume hf with hold | ⟨rfl, htime⟩
      · exact hprompt f hold
      · have hle : now ≤ t := hresumable.resolve_right (by rw [hpaused]; decide)
        exact le_max_of_le_right (htime.trans (Nat.succ_le_succ hle))
    · obtain ⟨-, hopened, -⟩ := resume_spec hresume hpaused
      apply hresumable.imp_right
      intro hopen
      rw [hopened]
      split
      · rfl
      · exact hopen

/-- **A frame does not arrive before it is due**: whoever is next is not later than a frame that
waits on a link that is not paused. -/
theorem le_time_of_mem_queued (hinStep : InStep net now) (honTime : net.OnTime t)
    (hopen : net.isPaused l = false) (hf : f ∈ net.queued l) : t ≤ f.time := by
  rw [queued] at hf
  split at hf
  · exact absurd hf (Multiset.notMem_zero f)
  · rename_i link hlink
    have hdue := due_pos hlink (Multiset.mem_coe.mp hf)
    have hawaited : net.due l f.time ≤ net.awaited l f.time :=
      hinStep.noStranded (s := ⟨net, ⟨now⟩⟩) l hopen f.time
    obtain ⟨e, he, -, htime⟩ := exists_event_of_awaited_pos (Nat.lt_of_lt_of_le hdue hawaited)
    rw [← htime]
    exact honTime e he

end Network

/-! ## Operations of the network -/

/-- The operation resumes links. -/
def NetOp.resumes : NetOp → Bool
  | .resumeLink _ _ | .heal => true
  | _ => false

/-- What happens to the network in a simulation: other actors step in when no event is before
them, flight times come from the time model, and no link is resumed whose wake-up was skipped. -/
def Timely (s : NetState) (op : NetOp) : Prop :=
  Careful s op ∧ match op with
    | .tick future => s.net.OnTime future
    | .send _ packet flightTime =>
      CrazyTimeModel.Flies packet.header.type flightTime ∧ s.time.now + flightTime < 2 ^ 64
    | _ => True

/-- The queues are in step, and the clock is not ahead of any event. -/
structure OnSchedule (s : NetState) : Prop where
  inStep : InStep s.net s.time.now
  onTime : s.net.OnTime s.time.now

namespace NetState

variable {s s' : NetState} {op : NetOp} {l : LinkId} {t : ℕ}

theorem onTime_execute (h : s.net.OnTime s.time.now) (hop : Timely s op)
    (hs : s.execute op = .ok s') : s'.net.OnTime s'.time.now := by
  cases executed_of_execute hs with
  | tick _ => exact hop.2
  | send hnet => exact h.add hnet (World.le_addTime hop.2.2)
  | @pauseLink start stop _ hnet => exact h.fault (f := .pauseLink start stop) hnet
  | @resumeLink start stop _ hnet => exact h.fault (f := .resumeLink start stop) hnet
  | @split lhs _ hnet => exact h.fault (f := .split lhs) hnet
  | heal hnet => exact h.fault (f := .heal) hnet
  | @step next _ _ hnext _ hnet =>
    have hearliest : s.net.OnTime next := (Network.nextStepTime_eq_ok hnext).1
    exact hearliest.step hnet

/-- **One operation keeps the network on schedule.** -/
theorem onSchedule_execute (h : OnSchedule s) (hop : Timely s op) (hs : s.execute op = .ok s') :
    OnSchedule s' :=
  ⟨h.inStep.execute hop.1 hs, onTime_execute h.onTime hop hs⟩

/-- **One operation makes no frame late**, unless it resumes its link after time `t`. -/
theorem prompt_execute (h : s.net.Prompt l t) (hop : Timely s op)
    (hresumes : op.resumes = true → s.net.Resumable l s.time.now t) (hs : s.execute op = .ok s') :
    s'.net.Prompt l t := by
  cases executed_of_execute hs with
  | tick _ => exact h
  | send hnet => exact h.add hop.2.1 hop.2.2 hnet
  | pauseLink hnet =>
    obtain ⟨l', -, hnet⟩ := Outcome.bind_eq_ok.mp hnet
    intro f hf
    rw [Network.queued_pause hnet] at hf
    exact h f hf
  | resumeLink hnet =>
    obtain ⟨l', -, hnet⟩ := Outcome.bind_eq_ok.mp hnet
    exact (Network.Prompt.resume ⟨h, hresumes rfl⟩ hnet).1
  | split hnet =>
    intro f hf
    rw [Network.queued_split hnet] at hf
    exact h f hf
  | heal hnet =>
    exact (Network.heal_induction hnet ⟨h, hresumes rfl⟩ fun _ _ _ => Network.Prompt.resume).1
  | step _ _ hnet =>
    intro f hf
    apply h f
    rw [Network.queued_step hnet]
    exact Multiset.mem_add.mpr (Or.inl hf)

end NetState

end Net

/-! ## The network of a world -/

/-- A transport answers with service packets only. -/
theorem Net.Transport.service_of_replied {transport : Transport} {packet reply : Packet}
    {out : LinkId} {fromHost : HostName}
    (h : transport.handlePacket packet out fromHost = .replied reply) :
    reply.header.type ≠ .data := by
  have hreset : (Replier.reset packet).header.type ≠ .data := by simp [Replier.reset, Replier.reply]
  have hping : (Replier.ping packet).header.type ≠ .data := by simp [Replier.ping, Replier.reply]
  rw [Transport.handlePacket] at h
  split at h
  · split at h
    · rwa [← Handled.replied.inj h]
    · exact absurd h (by simp)
  · split at h
    · rwa [← Handled.replied.inj h]
    · split at h
      · rwa [← Handled.replied.inj h]
      · exact absurd h (by simp)
      · exact absurd h (by simp)

/-- The operation of the network that a fault is. -/
def World.NetworkFault.op : World.NetworkFault → NetOp
  | .pauseLink start stop => .pauseLink start stop
  | .resumeLink start stop => .resumeLink start stop
  | .split lhs => .split lhs
  | .heal => .heal

namespace World

/-- The network with the clock of the world. -/
def netState (w : World) : NetState := ⟨w.network, w.time⟩

/-- What happens in a simulation with the crazy time model, in which no link is resumed whose
wake-up was skipped.  What a transport answers in a step is a service packet. -/
def Simulated (w : World) (action : Action) : Prop :=
  NoOverflow w action ∧ match action with
    | .step flightTime => CrazyTimeModel.Flies .ping flightTime
    | .connectTo _ flightTime => CrazyTimeModel.Flies .ping flightTime
    | .send _ _ flightTime => CrazyTimeModel.Flies .data flightTime
    | .reply _ _ flightTime => CrazyTimeModel.Flies .data flightTime
    | .networkFault fault => Net.Careful w.netState fault.op
    | _ => True

instance (net : Network) (now : ℕ) (l : LinkId) : Decidable (Unskipped net now l) :=
  inferInstanceAs (Decidable (_ → _))

/-- Without a link there is no wake-up to skip. -/
theorem forall_unskipped_iff (net : Network) (now : ℕ) :
    (∀ l, Unskipped net now l) ↔ ∀ l < net.links.length, Unskipped net now l := by
  constructor
  · exact fun h l _ => h l
  · intro h l hpaused
    by_cases hlt : l < net.links.length
    · exact h l hlt hpaused
    · rw [Network.isPaused, List.getElem?_eq_none_iff.mpr (Nat.not_lt.mp hlt)] at hpaused
      exact absurd hpaused (by decide)

instance (w : World) (fault : NetworkFault) : Decidable (Net.Careful w.netState fault.op) :=
  match fault with
  | .resumeLink start stop =>
    match h : w.network.getLink start stop with
    | .ok l => decidable_of_iff (Unskipped w.network w.time.now l) <| by
      simp [NetworkFault.op, Net.Careful, netState, h]
    | .error _ => .isTrue <| by simp [NetworkFault.op, Net.Careful, netState, h]
  | .heal => decidable_of_iff _ (forall_unskipped_iff w.network w.time.now).symm
  | .pauseLink _ _ | .split _ => .isTrue trivial

instance (w : World) (action : Action) : Decidable (w.Simulated action) :=
  match action with
  | .step flightTime | .connectTo _ flightTime =>
    inferInstanceAs (Decidable (_ ∧ CrazyTimeModel.Flies .ping flightTime))
  | .send _ _ flightTime | .reply _ _ flightTime =>
    inferInstanceAs (Decidable (_ ∧ CrazyTimeModel.Flies .data flightTime))
  | .networkFault fault => inferInstanceAs (Decidable (_ ∧ Net.Careful w.netState fault.op))
  | .schedule _ _ | .serve _ | .close _ | .destroy _ | .serverFault _ _ | .restartServer _ =>
    inferInstanceAs (Decidable (_ ∧ True))

variable {w w' : World} {action : Action} {l : LinkId}

/-- A fault of the network is one operation. -/
theorem execute_op {fault : NetworkFault} {net : Network}
    (h : w.network.fault w.time.now fault = .ok net) :
    w.netState.execute fault.op = .ok ⟨net, w.time⟩ := by
  cases fault <;> exact Outcome.bind_eq_ok.mpr ⟨net, h, rfl⟩

/-- Handling a packet sends a service packet, or nothing. -/
theorem netState_of_handlePacket {delivery : Delivery} {flightTime : ℕ}
    (h : w.handlePacket delivery flightTime = .ok w') :
    w'.netState = w.netState ∨ ∃ out reply net, reply.header.type ≠ .data ∧
      w.network.add out reply w.time.now flightTime = .ok net ∧ w'.netState = ⟨net, w.time⟩ := by
  unfold handlePacket at h
  split at h
  · split at h
    · exact absurd h (by simp)
    · split at h
      · obtain rfl := Except.ok.inj h
        exact Or.inl rfl
      · rename_i reply hreply
        obtain ⟨net, hadd, h⟩ := Outcome.bind_eq_ok.mp h
        obtain rfl := Outcome.pure_eq_ok.mp h
        exact Or.inr ⟨_, reply, net, Transport.service_of_replied hreply, hadd, rfl⟩
      · obtain rfl := Except.ok.inj h
        exact Or.inl rfl
  · exact absurd h (by simp)

/-- When the network is next, it is so by its earliest event. -/
theorem nextStepTime_of_network {next : NextStep} (hnext : FirstNext w.actors next)
    (hserver : w.servers[next.actorIndex]? = none) : w.network.nextStepTime = .ok next.time := by
  obtain ⟨actor, hactor, -, htime⟩ := hnext.runnable
  have hlength : (w.servers.map Actor.server).length ≤ next.actorIndex := by
    rw [List.length_map]
    exact List.getElem?_eq_none_iff.mp hserver
  rw [actors, List.getElem?_append_right hlength] at hactor
  obtain rfl := List.mem_singleton.mp (List.mem_of_getElem? hactor)
  exact htime

/-- An operation that an action of a world consists of; links are resumed before anything else
happens. -/
def Uses (w : World) (s : NetState) (op : NetOp) : Prop :=
  Timely s op ∧ (op.resumes = true → s = w.netState)

/-- **What happens to the network of a world could happen to the network alone**: each action
consists of operations of the network, at the times of the world. -/
theorem reaches_netState (h : w.OnTime) (hsimulated : w.Simulated action)
    (hw : w.execute action = .ok w') :
    Runs.Reaches NetState.execute w.Uses w.netState w'.netState := by
  -- Whatever an action sends is one operation of the network, within the flight times assumed.
  have hsends : ∀ {s : NetState} {l : LinkId} {packet : Packet} {flightTime : ℕ} {net : Network},
      CrazyTimeModel.Flies packet.header.type flightTime → s.time.now + flightTime < 2 ^ 64 →
      s.net.add l packet s.time.now flightTime = .ok net →
      Runs.Reaches NetState.execute w.Uses s ⟨net, s.time⟩ := by
    intro s l packet flightTime net hflies hno hadd
    refine Runs.Reaches.refl.tail (.send l packet flightTime) ⟨⟨trivial, hflies, hno⟩, ?_⟩ ?_
    · intro hresumes
      exact absurd hresumes (by simp [NetOp.resumes])
    · exact Outcome.bind_eq_ok.mpr ⟨net, hadd, rfl⟩
  obtain ⟨hno, hsimulated⟩ := hsimulated
  cases action with
  | step flightTime =>
    obtain ⟨result, hresult, hbest⟩ := h.findNextStep
    rcases step_eq_ok hw with ⟨-, rfl⟩ | ⟨next, hnext, hle, hstep⟩
    · exact Runs.Reaches.refl
    · obtain rfl := Except.ok.inj (hresult.symm.trans hnext)
      have hnext' : FirstNext w.actors next := hbest
      have htime : w.time.fastForwardTo next.time = .ok ⟨next.time⟩ :=
        Time.fastForwardTo_eq_ok.mpr ⟨hle, rfl⟩
      rcases hstep with ⟨server, task, server', -, -, rfl⟩ | ⟨hserver, net, delivery, hnet, hw⟩
      -- A server steps: for the network only time passes, and no frame is overdue by then.
      · refine Runs.Reaches.refl.tail (.tick next.time) ⟨⟨trivial, (h.advance hnext').2⟩, ?_⟩ ?_
        · intro hresumes
          exact absurd hresumes (by simp [NetOp.resumes])
        · exact Outcome.bind_eq_ok.mpr ⟨_, htime, rfl⟩
      -- The network steps: a frame is delivered, and the answer to it is sent after.
      · have hdue := nextStepTime_of_network hnext' hserver
        have hreach : Runs.Reaches NetState.execute w.Uses w.netState ⟨net, ⟨next.time⟩⟩ := by
          refine Runs.Reaches.refl.tail .step ⟨⟨trivial, trivial⟩, ?_⟩ ?_
          · intro hresumes
            exact absurd hresumes (by simp [NetOp.resumes])
          · exact Outcome.bind_eq_ok.mpr ⟨_, hdue, Outcome.bind_eq_ok.mpr ⟨_, htime,
              Outcome.bind_eq_ok.mpr ⟨_, hnet, rfl⟩⟩⟩
        rcases hw _ rfl with rfl | ⟨delivery, -, hw⟩
        · exact hreach
        · rcases netState_of_handlePacket hw with hsame | ⟨out, reply, net', htype, hadd, hsame⟩
          · rw [hsame]
            exact hreach
          · rw [hsame]
            -- The answer to a service packet is a service packet, and flies as fast.
            have hflies : CrazyTimeModel.Flies reply.header.type flightTime := by
              rw [CrazyTimeModel.flies_service_iff htype]
              exact (CrazyTimeModel.flies_service_iff (by decide)).mp hsimulated
            rw [NoOverflow, hnext] at hno
            exact hreach.trans (hsends hflies hno hadd)
  | schedule delay id =>
    obtain ⟨_, _, -, -, rfl⟩ := execute_schedule hw
    exact Runs.Reaches.refl
  | connectTo address flightTime =>
    obtain ⟨_, _, socket, _, net, -, -, hconnect, rfl⟩ := execute_connectTo hw
    obtain ⟨-, -, -, -, -, -, -, -, hnet⟩ := Transport.connectTo_spec hconnect
    rcases hnet with rfl | hadd
    · exact Runs.Reaches.refl
    · exact hsends hsimulated hno hadd
  | serve port =>
    obtain ⟨_, _, _, -, -, -, rfl⟩ := execute_serve hw
    exact Runs.Reaches.refl
  | close object =>
    obtain ⟨_, _, _, -, -, -, rfl⟩ := execute_close hw
    exact Runs.Reaches.refl
  | destroy object =>
    obtain ⟨_, _, _, -, -, -, rfl⟩ := execute_destroy hw
    exact Runs.Reaches.refl
  | send object message flightTime =>
    obtain ⟨_, _, socket, net, -, -, -, hadd, rfl⟩ := execute_send hw
    exact hsends hsimulated hno hadd
  | reply index message flightTime =>
    obtain ⟨_, _, socket, net, -, -, -, hadd, rfl⟩ := execute_reply hw
    exact hsends hsimulated hno hadd
  | serverFault target fault =>
    obtain ⟨-, _, _, -, -, rfl⟩ := execute_serverFault hw
    exact Runs.Reaches.refl
  | networkFault fault =>
    obtain ⟨net, hfault, rfl⟩ := execute_networkFault hw
    refine Runs.Reaches.refl.tail fault.op ⟨⟨hsimulated, ?_⟩, fun _ => rfl⟩ (execute_op hfault)
    cases fault <;> trivial
  | restartServer target =>
    obtain ⟨_, _, -, -, rfl⟩ := execute_restartServer hw
    exact Runs.Reaches.refl

/-! ## Every run -/

/-- Everybody is in time, and no packet comes too late. -/
structure Timed (w : World) : Prop where
  onTime : w.OnTime
  inStep : InStep w.network w.time.now
  prompt : ∀ l, w.network.Prompt l w.time.now

theorem Timed.execute (h : w.Timed) (hsimulated : w.Simulated action)
    (hw : w.execute action = .ok w') : w'.Timed := by
  have hreach := reaches_netState h.onTime hsimulated hw
  have hnet : OnSchedule w'.netState ∧ ∀ l, w'.netState.net.Prompt l w'.netState.time.now := by
    apply hreach.invariant
      (I := fun s : NetState => OnSchedule s ∧ ∀ l, s.net.Prompt l s.time.now)
    · exact ⟨⟨h.inStep, h.onTime.network⟩, h.prompt⟩
    · rintro s op s' ⟨honSchedule, hprompt⟩ ⟨hop, -⟩ hs
      refine ⟨NetState.onSchedule_execute honSchedule hop hs, fun l => ?_⟩
      have hkept := NetState.prompt_execute (hprompt l) hop (fun _ => Or.inl (Nat.le_refl _)) hs
      exact hkept.mono (NetState.now_le_execute hs)
  exact ⟨h.onTime.execute hsimulated.1 hw, hnet.1.inStep, hnet.2⟩

/-- As long as a link is not paused, nothing on it is put off any more. -/
theorem Timed.prompt_execute {t : ℕ} (h : w.Timed) (hprompt : w.network.Prompt l t)
    (hopen : w.network.isPaused l = false) (hsimulated : w.Simulated action)
    (hw : w.execute action = .ok w') : w'.network.Prompt l t := by
  apply (reaches_netState h.onTime hsimulated hw).invariant
    (I := fun s : NetState => s.net.Prompt l t) hprompt
  rintro s op s' hs ⟨hop, hresumes⟩ hexecute
  refine NetState.prompt_execute hs hop (fun hop => ?_) hexecute
  rw [hresumes hop]
  exact Or.inr hopen

/-- No action leaves an event of the network behind. -/
theorem OnTime.next (h : w.OnTime) (hw : w.execute action = .ok w') :
    w.network.OnTime w'.time.now := by
  cases action with
  | step flightTime =>
    obtain ⟨result, hresult, hbest⟩ := h.findNextStep
    cases result with
    | none =>
      obtain ⟨-, rfl⟩ | ⟨next, hnext, -⟩ := step_eq_ok hw
      · exact h.network
      · cases hresult.symm.trans hnext
    | some next =>
      rw [(now_eq_of_step hw hresult).1]
      exact (h.advance hbest).2
  | restartServer target =>
    obtain ⟨_, _, -, -, rfl⟩ := execute_restartServer hw
    exact h.network
  | _ =>
    rw [(effectFrame_of_execute rfl hw).time]
    exact h.network

/-- What waits on a link that is not paused does not wait too long, nor arrive too late. -/
theorem Timed.le_latest {t : ℕ} {frame : Frame} (h : w.Timed) (hprompt : w.network.Prompt l t)
    (hopen : w.network.isPaused l = false) (hframe : w.network.InFlight l frame) :
    w.time.now ≤ frame.latest t ∧
      ∀ action w', w.execute action = .ok w' → w'.time.now ≤ frame.latest t := by
  obtain ⟨link, hlink, f, hf, rfl⟩ := hframe
  have hqueued : f ∈ w.network.queued l := by
    rw [Network.queued_eq hlink]
    exact hf
  have hlate := hprompt f hqueued
  constructor
  · exact (Network.le_time_of_mem_queued h.inStep h.onTime.network hopen hqueued).trans hlate
  · intro action w' hw
    exact (Network.le_time_of_mem_queued h.inStep (h.onTime.next hw) hopen hqueued).trans hlate

theorem Started.timed (h : Started w) : w.Timed := by
  have honTime := h.onTime
  obtain ⟨hosts, adversary, startTime, hstart⟩ := h
  obtain ⟨servers, rfl, -⟩ := start_eq_ok hstart
  refine ⟨honTime, InStep.start _ startTime, ?_⟩
  intro l f hf
  rw [Network.queued_buildLinks] at hf
  exact absurd hf (Multiset.notMem_zero f)

/-- An action of a simulation while link `l` is not paused. -/
def Undisturbed (l : LinkId) (w : World) (action : Action) : Prop :=
  w.Simulated action ∧ w.network.isPaused l = false

instance (l : LinkId) (w : World) (action : Action) : Decidable (Undisturbed l w action) :=
  inferInstanceAs (Decidable (_ ∧ _))

/-- **The network is partially synchronous.**  In every run, whatever was paused and resumed
before `w₁`: if a link is not paused from then on, a packet that is sent through it arrives within
the longest flight of its type, or in the first jiffy after `w₁`. -/
theorem latest_of_reaches {w₀ w₁ : World} (hstart : Started w₀)
    (hrun : Runs.Reaches execute Simulated w₀ w₁)
    (hundisturbed : Runs.Reaches execute (Undisturbed l) w₁ w)
    (hopen : w.network.isPaused l = false) (frame : Frame) (hframe : w.network.InFlight l frame) :
    w.time.now ≤ frame.latest w₁.time.now ∧
      ∀ action w', w.execute action = .ok w' → w'.time.now ≤ frame.latest w₁.time.now := by
  have htimed : w₁.Timed := hrun.invariant hstart.timed fun _ _ _ h hsimulated hw =>
    h.execute hsimulated hw
  have hboth : w.Timed ∧ w.network.Prompt l w₁.time.now := by
    apply hundisturbed.invariant (I := fun w => w.Timed ∧ w.network.Prompt l w₁.time.now)
    · exact ⟨htimed, htimed.prompt l⟩
    · rintro w action w' ⟨h, hprompt⟩ ⟨hsimulated, hopen⟩ hw
      exact ⟨h.execute hsimulated hw, h.prompt_execute hprompt hopen hsimulated hw⟩
  exact hboth.1.le_latest hboth.2 hopen hframe

/-- Two hosts. -/
def pair : World :=
  match (deploy ["Server-1", "Server-2"] false).start 0 with
  | .ok w => w
  | .error _ => {}

/-- A packet is held up on its link until the network heals. -/
def heldUp : List Action :=
  [.step 50, .connectTo ⟨"Server-2", 42⟩ 50, .send 0 [] 30, .schedule 2000 0,
    .networkFault (.pauseLink "Server-1" "Server-2"), .step 50, .step 50, .step 50,
    .networkFault .heal]

/-- The packet that was held up. -/
def heldUpFrame : Frame :=
  ⟨⟨"Server-1", "Server-2", 0⟩, ⟨⟨.data, 1, 42, 1⟩, [], .client ⟨0, 1, 1, 42, 1⟩⟩⟩

/-- Another packet, which is sent after the network has healed. -/
def laterFrame : Frame := { heldUpFrame with
  header := { heldUpFrame.header with sendTime := 2000 } }

/-- When the network has healed and another packet is sent, the one that was held up arrives in
the first jiffy. -/
theorem latest_of_reaches_heldUp : ∃ w : World, w.network.InFlight 1 heldUpFrame ∧
    ∀ action w', w.execute action = .ok w' → w'.time.now ≤ 2001 := by
  have hexec : ((Runs.exec execute Simulated pair heldUp).bind fun w₁ =>
      (Runs.exec execute (Undisturbed 1) w₁ [.send 0 [] 700]).map fun w =>
        (w₁.time.now, w.network.isPaused 1,
          (w.network.links[1]?).map fun link => link.frames.held.map FrameEvent.frame))
      = some (2000, false, some [laterFrame, heldUpFrame]) := by
    decide +kernel
  obtain ⟨w₁, hrun, hexec⟩ := Option.bind_eq_some_iff.mp hexec
  obtain ⟨w, hundisturbed, hexec⟩ := Option.map_eq_some_iff.mp hexec
  obtain ⟨hnow, hexec⟩ := Prod.mk.inj hexec
  obtain ⟨hopen, hlink⟩ := Prod.mk.inj hexec
  obtain ⟨link, hlink, hframes⟩ := Option.map_eq_some_iff.mp hlink
  have hframe : w.network.InFlight 1 heldUpFrame := by
    have hmem : heldUpFrame ∈ link.frames.held.map FrameEvent.frame := by
      rw [hframes]
      exact List.mem_cons_of_mem _ (List.mem_singleton.mpr rfl)
    obtain ⟨f, hf, heq⟩ := List.mem_map.mp hmem
    exact ⟨link, hlink, f, hf, heq⟩
  have hstart : Started pair := ⟨["Server-1", "Server-2"], false, 0, rfl⟩
  have hlatest := (latest_of_reaches hstart (Runs.reaches_of_exec hrun)
    (Runs.reaches_of_exec hundisturbed) hopen heldUpFrame hframe).2
  rw [hnow] at hlatest
  exact ⟨w, hframe, hlatest⟩

end World

end Whirl
