/-
# The log of frames

What `INetworkListener` shows of a run: `FrameCount` and `GetFrame` read the log
that the private `Link::Add` writes.  That function serves the first sending of a
packet and also the second sending of an overdue frame by `Link::Resume`, so the
log is a faithful record of the packets that were sent exactly as long as no
resumed link has an overdue frame.
-/
import WhirlMatrix.Network.EventsInStep

namespace Whirl.Net

namespace Network

/-- `FrameCount`. -/
def frameCount (net : Network) : ℕ := net.framesLog.length

/-- `GetFrame`. -/
def getFrame (net : Network) (index : ℕ) : Outcome Frame :=
  match net.framesLog[index]? with
  | none => .error .outOfRange
  | some frame => .ok frame

/-- Link `l` is not paused, or no frame on it is overdue. -/
def NoneOverdue (net : Network) (now : ℕ) (l : LinkId) : Prop :=
  net.isPaused l = true → ∀ t, t < now → net.due l t = 0

/-! ## What each operation adds to the log -/

variable {net net' : Network} {now : ℕ} {l : LinkId}

theorem framesLog_pause (h : net.pause l = .ok net') : net'.framesLog = net.framesLog := by
  obtain ⟨link, -, -, rfl⟩ := pause_eq_ok h
  rfl

theorem framesLog_split {lhs : Partition} (h : net.split lhs = .ok net') :
    net'.framesLog = net.framesLog :=
  split_induction (I := fun net' => net'.framesLog = net.framesLog) h rfl
    fun _ _ _ hI h => (framesLog_pause h).trans hI

theorem framesLog_step {delivery : Option Delivery} (h : net.step = .ok (net', delivery)) :
    net'.framesLog = net.framesLog := by
  obtain ⟨e, events, link, -, -, ⟨-, rfl, -⟩ | ⟨-, f, frames, -, -, rfl, -⟩⟩ := step_eq_ok h
  · rfl
  · rfl

/-- The loop of `Link::Resume` logs every overdue frame again.  Induction on its turns. -/
theorem framesLog_resumeLoop {tests : ℕ} (h : resumeLoop now l tests net = .ok net') :
    ∃ again, net'.framesLog = net.framesLog ++ again ∧
      (again = [] ↔ ∀ t, t < now → net.due l t = 0) := by
  induction tests generalizing net with
  | zero => exact absurd h (by simp [resumeLoop])
  | succ tests ih =>
    obtain ⟨link, f, hlink, hsmallest, ⟨hge, rfl⟩ | ⟨hlt, q, hq, h⟩⟩ := resumeLoop_succ h
    · refine ⟨[], (List.append_nil _).symm, iff_of_true rfl fun t ht => ?_⟩
      -- the smallest frame is not overdue, so none is
      by_contra hne
      obtain ⟨f', hf', rfl⟩ := exists_frame_of_due_pos hlink (Nat.pos_of_ne_zero hne)
      have hmin : ¬ f'.time < f.time := PriorityQueue.not_lt_smallest hsmallest f' hf'
      omega
    · obtain ⟨again, hlog, -⟩ := ih h
      refine ⟨f.frame :: again, ?_, iff_of_false (List.cons_ne_nil _ _) fun hall => ?_⟩
      · rw [hlog]
        show net.framesLog ++ [f.frame] ++ again = _
        rw [List.append_assoc, List.singleton_append]
      · have hdue : 0 < net.due l f.time := due_pos hlink (PriorityQueue.mem_of_smallest hsmallest)
        rw [hall f.time hlt] at hdue
        exact Nat.lt_irrefl 0 hdue

/-- Resuming a link logs nothing exactly when nothing is overdue on it. -/
theorem framesLog_resume (h : net.resume l now = .ok net') :
    ∃ again, net'.framesLog = net.framesLog ++ again ∧ (again = [] ↔ net.NoneOverdue now l) := by
  cases hp : net.isPaused l with
  | false =>
    obtain rfl := resume_of_open h hp
    refine ⟨[], (List.append_nil _).symm, iff_of_true rfl fun hp' => ?_⟩
    exact absurd (hp.symm.trans hp') (by decide)
  | true =>
    have hon : net.NoneOverdue now l ↔ ∀ t, t < now → net.due l t = 0 :=
      ⟨fun hall => hall hp, fun hall _ => hall⟩
    rw [hon]
    obtain ⟨link, hlink, ⟨hopen, -⟩ | ⟨-, ⟨hempty, rfl⟩ | hloop⟩⟩ := resume_eq_ok h
    · rw [isPaused_eq hlink, hopen] at hp
      exact absurd hp (by decide)
    · refine ⟨[], (List.append_nil _).symm, iff_of_true rfl fun t _ => ?_⟩
      rw [due_eq hlink, hempty]
      rfl
    · have hdue : ∀ t, (net.setLink l { link with paused := false }).due l t = net.due l t :=
        fun t => due_setLink hlink (by rfl) l t
      obtain ⟨again, hlog, hiff⟩ := framesLog_resumeLoop hloop
      simp only [hdue] at hiff
      exact ⟨again, hlog, hiff⟩

/-- Resuming a link leaves the other links as they are. -/
theorem noneOverdue_resume {l' : LinkId} (h : net.resume l now = .ok net') (hl : net.NoneOverdue now l) :
    net'.NoneOverdue now l' ↔ net.NoneOverdue now l' := by
  cases hp : net.isPaused l with
  | false => rw [resume_of_open h hp]
  | true =>
    obtain ⟨k, hpaused, -, hother, -, hover⟩ := resume_spec h hp
    rcases eq_or_ne l l' with rfl | hne
    · exact iff_of_true (fun _ => hover) hl
    · simp only [NoneOverdue, hpaused, if_neg hne, hother l' _ hne]

/-- Healing logs nothing exactly when nothing is overdue on any paused link.  Induction on
the links that are resumed one after another. -/
theorem framesLog_resumeAll {ls : List LinkId}
    (h : ls.foldlM (fun net l => net.resume l now) net = .ok net') :
    ∃ again, net'.framesLog = net.framesLog ++ again ∧
      (again = [] ↔ ∀ l ∈ ls, net.NoneOverdue now l) := by
  induction ls generalizing net with
  | nil =>
    obtain rfl : net = net' := Except.ok.inj h
    exact ⟨[], (List.append_nil _).symm, iff_of_true rfl fun l hl => absurd hl (List.not_mem_nil)⟩
  | cons l ls ih =>
    rw [List.foldlM_cons] at h
    obtain ⟨net₁, hresume, h⟩ := Outcome.bind_eq_ok.mp h
    obtain ⟨first, hlog, hfirst⟩ := framesLog_resume hresume
    obtain ⟨rest, hlog', hrest⟩ := ih h
    refine ⟨first ++ rest, by rw [hlog', hlog, List.append_assoc], ?_⟩
    rw [List.append_eq_nil_iff, hfirst, hrest, List.forall_mem_cons]
    refine and_congr_right fun hl => ?_
    exact forall₂_congr fun l' _ => noneOverdue_resume hresume hl

theorem framesLog_heal (h : net.heal now = .ok net') :
    ∃ again, net'.framesLog = net.framesLog ++ again ∧
      (again = [] ↔ ∀ l, net.NoneOverdue now l) := by
  obtain ⟨again, hlog, hiff⟩ := framesLog_resumeAll h
  refine ⟨again, hlog, hiff.trans ⟨fun hall l => ?_, fun hall l _ => hall l⟩⟩
  by_cases hl : l < net.links.length
  · exact hall l (List.mem_range.mpr hl)
  · -- there is no such link
    intro hp
    rw [isPaused, List.getElem?_eq_none (Nat.not_lt.mp hl)] at hp
    exact absurd hp (by decide)

end Network

/-! ## Runs with a record of the packets that were sent -/

/-- The frames of the packets that an operation hands to `Link::Add`. -/
def NetState.sentBy (s : NetState) : NetOp → List Frame
  | .send l packet _ =>
    match s.net.links[l]? with
    | none => []
    | some link => [link.makeFrame packet s.time.now]
  | _ => []

/-- An operation that resumes no link with an overdue frame. -/
def Punctual (s : NetState) : NetOp → Prop
  | .resumeLink start stop => ∀ l, s.net.getLink start stop = .ok l → s.net.NoneOverdue s.time.now l
  | .heal => ∀ l, s.net.NoneOverdue s.time.now l
  | _ => True

/-- Every operation appends to the log: the frame of the packet that is sent, and the frames
that are sent again. -/
theorem framesLog_execute {s s' : NetState} {op : NetOp} (h : s.execute op = .ok s') :
    ∃ again, s'.net.framesLog = s.net.framesLog ++ (s.sentBy op ++ again) ∧
      (again = [] ↔ Punctual s op) := by
  cases NetState.executed_of_execute h with
  | tick _ => exact ⟨[], (List.append_nil _).symm, iff_of_true rfl trivial⟩
  | send hnet =>
    refine ⟨[], ?_, iff_of_true rfl trivial⟩
    obtain ⟨link, hlink, rfl⟩ := Network.add_eq_ok hnet
    rw [NetState.sentBy, hlink]
    rfl
  | pauseLink hnet =>
    obtain ⟨l, -, hnet⟩ := Outcome.bind_eq_ok.mp hnet
    refine ⟨[], ?_, iff_of_true rfl trivial⟩
    exact (Network.framesLog_pause hnet).trans (List.append_nil _).symm
  | resumeLink hnet =>
    obtain ⟨l, hl, hnet⟩ := Outcome.bind_eq_ok.mp hnet
    obtain ⟨again, hlog, hiff⟩ := Network.framesLog_resume hnet
    refine ⟨again, hlog, hiff.trans ⟨fun hon l' hl' => ?_, fun hall => hall l hl⟩⟩
    obtain rfl := Except.ok.inj (hl.symm.trans hl')
    exact hon
  | split hnet =>
    refine ⟨[], ?_, iff_of_true rfl trivial⟩
    exact (Network.framesLog_split hnet).trans (List.append_nil _).symm
  | heal hnet => exact Network.framesLog_heal hnet
  | step _ _ hnet =>
    refine ⟨[], ?_, iff_of_true rfl trivial⟩
    exact (Network.framesLog_step hnet).trans (List.append_nil _).symm

/-- The network, with the frames of all packets that were sent so far. -/
structure Watched where
  state : NetState
  sent : List Frame
  deriving DecidableEq, Repr

namespace Watched

/-- One operation. -/
def execute (w : Watched) (op : NetOp) : Outcome Watched := do
  let state ← w.state.execute op
  return ⟨state, w.sent ++ w.state.sentBy op⟩

/-- A network whose links were just built. -/
def start (servers : List IServer) (now : ℕ) : Watched := ⟨NetState.start servers now, []⟩

/-- The listener sees as many frames as packets were sent, each at its place. -/
def Faithful (w : Watched) : Prop :=
  w.state.net.frameCount = w.sent.length ∧
    ∀ (i : ℕ) (frame : Frame), w.sent[i]? = some frame → w.state.net.getFrame i = .ok frame

/-- The log is faithful when it is the record of what was sent. -/
theorem faithful_iff {w : Watched} : w.Faithful ↔ w.state.net.framesLog = w.sent := by
  refine ⟨fun ⟨hcount, hframes⟩ => ?_, fun h => ⟨?_, fun i frame hi => ?_⟩⟩
  · refine List.ext_getElem hcount fun i hi hi' => ?_
    have hget := hframes i w.sent[i] (List.getElem?_eq_getElem hi')
    rw [Network.getFrame, List.getElem?_eq_getElem hi] at hget
    exact Except.ok.inj hget
  · rw [Network.frameCount, h]
  · rw [Network.getFrame, h, hi]

/-- A faithful log stays faithful exactly under the operations that resume no link with an
overdue frame. -/
theorem faithful_execute_iff {w w' : Watched} {op : NetOp} (hw : w.Faithful)
    (h : w.execute op = .ok w') : w'.Faithful ↔ Punctual w.state op := by
  obtain ⟨state, hstate, h⟩ := Outcome.bind_eq_ok.mp h
  obtain rfl := Outcome.pure_eq_ok.mp h
  obtain ⟨again, hlog, hiff⟩ := framesLog_execute hstate
  rw [faithful_iff] at hw
  rw [faithful_iff, ← hiff]
  show state.net.framesLog = w.sent ++ w.state.sentBy op ↔ _
  rw [hlog, hw, ← List.append_assoc, List.append_right_eq_self]

/-- **The log is faithful.**  In every run in which no link is resumed while a frame on it is
overdue, the listener sees exactly the packets that were sent; and the first operation
that does resume such a link ends this. -/
theorem faithful_of_punctual {servers : List IServer} {now : ℕ} {w : Watched}
    (h : Runs.Reaches execute (fun w op => Punctual w.state op) (start servers now) w) :
    w.Faithful ∧ ∀ op w', w.execute op = .ok w' → (w'.Faithful ↔ Punctual w.state op) := by
  have hstart : (start servers now).Faithful :=
    faithful_iff.mpr (Network.framesLog_buildLinks servers)
  have hfaithful : w.Faithful := h.invariant hstart fun _ _ _ hI hop hs =>
    (faithful_execute_iff hI hs).mpr hop
  exact ⟨hfaithful, fun _ _ hs => faithful_execute_iff hfaithful hs⟩

/-- A link is resumed before its frame is due, and the log shows one frame. -/
theorem faithful_of_punctual_pausedLink :
    ∃ w, Runs.Reaches execute (fun w op => Punctual w.state op) (start twoHosts 0) w ∧
      w.state.net.frameCount = 1 ∧ w.Faithful := by
  have hreach : Runs.Reaches execute (fun w op => Punctual w.state op) (start twoHosts 0)
      (start twoHosts 0) := Runs.Reaches.refl
  have hreach := hreach.tail (.send 1 somePacket 5) trivial rfl
  have hreach := hreach.tail (.pauseLink "Server-1" "Server-2") trivial rfl
  have hreach := hreach.tail (.resumeLink "Server-1" "Server-2")
    (fun l hl => by
      obtain rfl := Except.ok.inj hl
      intro _ t ht
      exact absurd ht (Nat.not_lt_zero t)) rfl
  have hreach := hreach.tail .step trivial rfl
  exact ⟨_, hreach, rfl, (faithful_of_punctual hreach).1⟩

/-- A link is paused, the network takes its wake-up at time 5 and delivers nothing, the time of
the frame passes, and the link is resumed: the frame of the only packet is logged twice. -/
theorem not_faithful_of_overdue :
    ¬ ∀ servers now w, Runs.Reaches execute (fun w op => Admissible w.state op)
      (start servers now) w → w.Faithful := by
  intro hall
  have hreach : Runs.Reaches execute (fun w op => Admissible w.state op) (start twoHosts 0)
      (start twoHosts 0) := Runs.Reaches.refl
  have hreach := hreach.tail (.send 1 somePacket 5) (Nat.zero_le _) rfl
  have hreach := hreach.tail (.pauseLink "Server-1" "Server-2") trivial rfl
  have hreach := hreach.tail .step trivial rfl
  have hreach := hreach.tail (.tick 6) trivial rfl
  have hreach := hreach.tail (.resumeLink "Server-1" "Server-2") trivial rfl
  obtain ⟨hcount, -⟩ := hall twoHosts 0 _ hreach
  revert hcount
  decide

end Watched

end Whirl.Net
