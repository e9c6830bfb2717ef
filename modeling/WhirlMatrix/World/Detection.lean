/-
# Crash detection is timely and true

When the peer of a client socket is gone, the client is told so: with the flight times of the
crazy time model, its server accepts a reset for the socket within three flights of a service
packet, as long as the two links between the servers are open.  Whatever was paused, split and
crashed before, the token of the connection takes at most one round in which it comes back as a
ping, goes to the server again and returns as a reset.

And there is no false alarm: a server answers with a reset only when it refuses the connection,
and then it refuses it for ever.
-/
import WhirlMatrix.World.Connections
import WhirlMatrix.World.KeepAlive
import WhirlMatrix.World.Latency
import WhirlMatrix.World.ReturnPaths

namespace Whirl

open Net

namespace Net

/-- A reset is the answer of a transport that refuses the connection. -/
theorem Transport.refused_of_replied {transport : Transport} {packet reply : Packet} {out : LinkId}
    {fromHost : HostName} (h : transport.handlePacket packet out fromHost = .replied reply)
    (htype : reply.header.type = .reset) :
    reply.header.sourcePort = packet.header.destPort ∧ reply.header.ts = packet.header.ts ∧
      ∀ e, transport.endpoints packet.header.destPort = some e → packet.header.ts < e.ts := by
  rw [handlePacket] at h
  split at h
  · rename_i hnone
    split at h
    · obtain rfl := Handled.replied.inj h
      refine ⟨rfl, rfl, fun e he => ?_⟩
      rw [hnone] at he
      exact absurd he (by simp)
    · exact absurd h (by simp)
  · rename_i endpoint hendpoint
    split at h
    · rename_i hts
      obtain rfl := Handled.replied.inj h
      refine ⟨rfl, rfl, fun e he => ?_⟩
      obtain rfl := Option.some.inj (hendpoint.symm.trans he)
      exact hts
    · split at h
      · -- the answer to a ping is a ping
        obtain rfl := Handled.replied.inj h
        exact absurd htype (by simp [Replier.ping, Replier.reply])
      · exact absurd h (by simp)
      · exact absurd h (by simp)

/-! ## When packets were sent -/

namespace Network

variable {net net' : Network}

/-- What is under way was sent until time `t`. -/
def SentBy (net : Network) (t : ℕ) : Prop :=
  ∀ l frame, net.InFlight l frame → frame.header.sendTime ≤ t

theorem SentBy.quiet {t : ℕ} (h : net.SentBy t) (hquiet : net.Quiet net') : net'.SentBy t :=
  fun l frame hframe => h l frame (hquiet.inFlight l frame hframe)

/-- The frame of a packet that is sent, with the time. -/
theorem exists_frame_of_add {l : LinkId} {packet : Packet} {now flightTime : ℕ}
    (h : net.add l packet now flightTime = .ok net') :
    ∃ frame, frame.packet = packet ∧ frame.header.sendTime = now ∧ net'.InFlight l frame ∧
      ∀ l' frame', net'.InFlight l' frame' → net.InFlight l' frame' ∨ frame' = frame := by
  obtain ⟨link, hlink, rfl⟩ := add_eq_ok h
  refine ⟨link.makeFrame packet now, rfl, rfl, inFlight_addFrame_self hlink, ?_⟩
  intro l' frame' hframe'
  exact (inFlight_addFrame hframe').imp_right And.right

end Network

/-- One operation sends nothing in the future. -/
theorem NetState.sentBy_execute {s s' : NetState} {op : NetOp} (h : s.net.SentBy s.time.now)
    (hs : s.execute op = .ok s') : s'.net.SentBy s'.time.now := by
  have hle := NetState.now_le_execute hs
  have hlater : s.net.SentBy s'.time.now := fun l frame hframe => (h l frame hframe).trans hle
  cases NetState.executed_of_execute hs with
  | tick _ => exact hlater
  | send hnet =>
    obtain ⟨frame, -, htime, -, hnew⟩ := Network.exists_frame_of_add hnet
    intro l' frame' hframe'
    rcases hnew l' frame' hframe' with hold | rfl
    · exact hlater l' frame' hold
    · exact Nat.le_of_eq htime
  | pauseLink hnet => exact hlater.quiet (Network.quiet_pauseLink hnet)
  | resumeLink hnet => exact hlater.quiet (Network.quiet_resumeLink hnet)
  | split hnet => exact hlater.quiet (Network.quiet_split hnet)
  | heal hnet => exact hlater.quiet (Network.quiet_heal hnet)
  | step _ _ hnet => exact hlater.quiet (Network.quiet_step hnet).1

/-! ## The last round -/

/-- The token of a socket whose peer is gone: a ping that was on its way back at time `t`, the
ping that goes there again, and the reset that this becomes. -/
inductive LastRound (socket : ClientSocket) (o : LinkId) (t : ℕ) (frame : Frame) : LinkId → Prop
  | back (header : frame.packet.header = socket.headerBack .ping)
      (sent : frame.header.sendTime ≤ t) : LastRound socket o t frame o
  | there (header : frame.packet.header = socket.headerThere .ping)
      (sent : frame.header.sendTime ≤ t + 50) : LastRound socket o t frame socket.link
  | refused (header : frame.packet.header = socket.headerBack .reset)
      (sent : frame.header.sendTime ≤ t + 100) : LastRound socket o t frame o

variable {socket : ClientSocket} {o : LinkId} {t : ℕ} {frame : Frame} {l : LinkId}

/-- A frame of the type arrives after 50 jiffies at the latest. -/
theorem Frame.latest_le {s : ℕ} (htype : frame.packet.header.type ≠ .data)
    (hsent : frame.header.sendTime ≤ s) (hle : t ≤ s) : frame.latest t ≤ s + 50 := by
  have hlongest : CrazyTimeModel.longest frame.packet.header.type = 50 := by
    cases h : frame.packet.header.type with
    | data => exact absurd h htype
    | ping => rfl
    | reset => rfl
  rw [Frame.latest, hlongest]
  omega

theorem LastRound.isService (h : LastRound socket o t frame l) :
    frame.packet.header.type ≠ .data := by
  cases h with
  | back header | refused header => simp [header, ClientSocket.headerBack]
  | there header => simp [header, ClientSocket.headerThere]

/-- The last round takes three flights. -/
theorem LastRound.latest_le (h : LastRound socket o t frame l) : frame.latest t ≤ t + 150 := by
  have hservice := h.isService
  cases h with
  | back header sent =>
    have hlate := frame.latest_le hservice sent (Nat.le_refl t)
    omega
  | there header sent =>
    have hlate := frame.latest_le hservice sent (Nat.le_add_right t 50)
    omega
  | refused header sent => exact frame.latest_le hservice sent (Nat.le_add_right t 100)

theorem LastRound.link_eq (h : LastRound socket o t frame l) : l = socket.link ∨ l = o := by
  cases h with
  | back => exact Or.inr rfl
  | there => exact Or.inl rfl
  | refused => exact Or.inr rfl

/-- A token is in its last round from now on. -/
theorem Network.HasToken.lastRound {net : Network} {a b : IServer} (h : net.HasToken socket)
    (hmated : net.Mated socket.link o a b) (hsent : net.SentBy t) :
    ∃ l frame, net.InFlight l frame ∧ LastRound socket o t frame l := by
  obtain ⟨l, frame, ends, hframe, -, ⟨rfl, hheader⟩ | ⟨rfl, type, htype, hheader⟩⟩ :=
    h.exists_frame hmated
  · exact ⟨_, frame, hframe, .there hheader ((hsent _ _ hframe).trans (Nat.le_add_right t 50))⟩
  · refine ⟨_, frame, hframe, ?_⟩
    have hlate := hsent _ _ hframe
    rcases htype with rfl | rfl
    · exact .back hheader hlate
    · exact .refused hheader (hlate.trans (Nat.le_add_right t 100))

end Net

namespace World

variable {w w' : World} {socket : ClientSocket} {o : LinkId} {a b : IServer} {t : ℕ}
  {action : Action}

/-- A connection that began in an earlier step, with number `ts`, finds no endpoint at a port of
the server with index `j`: what is registered there, if anything, is newer. -/
def Refuses (w : World) (j : ℕ) (port : Port) (ts : ℕ) : Prop :=
  ts < w.stepNumber ∧ ∀ e, w.endpointAt j port = some e → ts < e.ts

/-- The server with index `j` has no endpoint for the socket any more. -/
def GoneAt (w : World) (socket : ClientSocket) (j : ℕ) : Prop :=
  w.Refuses j socket.serverPort socket.ts

/-- The token of the socket is in its last round. -/
def InLastRound (w : World) (socket : ClientSocket) (o : LinkId) (t : ℕ) : Prop :=
  ∃ l frame, w.network.InFlight l frame ∧ LastRound socket o t frame l

/-- **The last round goes on.**  A ping that comes back is sent again, a ping that goes there
returns as a reset, and a reset is accepted for the socket. -/
theorem lastRound_of_handlePacket {frame : Frame} {l : LinkId} {ends : LinkEnds} {flightTime : ℕ}
    (hmated : w.network.Mated socket.link o a b) (hregistered : w.RegisteredAt socket a.id)
    (hgone : w.GoneAt socket b.id) (hround : LastRound socket o t frame l)
    (hnow : w.time.now ≤ frame.latest t) (hends : w.network.ends l = some ends)
    (hw : w.handlePacket ⟨frame.packet, ends.stop, ends.opposite⟩ flightTime = .ok w') :
    w'.InLastRound socket o t ∨ w'.ResetAt socket a.id := by
  have hservice := hround.isService
  obtain ⟨server, out, -, hserver, hout, -, -⟩ := handlePacket_eq_ok hw
  cases hround with
  -- The server's ping is back: the client's host answers it with one more.
  | back header sent =>
    left
    obtain rfl := Option.some.inj (hends.symm.trans hmated.back)
    obtain rfl := Option.some.inj hout
    obtain ⟨net, hadd, rfl⟩ := handlePacket_of_replied hserver rfl
      (fun host => (hregistered.handlePacket hserver header _ host).1 rfl) hw
    obtain ⟨frame', hpacket, hsent, hframe', -⟩ := Network.exists_frame_of_add hadd
    refine ⟨_, frame', hframe', .there ?_ ?_⟩
    · rw [hpacket, Replier.ping, header_reply_back header]
    · rw [hsent]
      exact hnow.trans (frame.latest_le hservice sent (Nat.le_refl t))
  -- That ping stops at a host without the endpoint, or with a newer one: it is refused.
  | there header sent =>
    left
    obtain rfl := Option.some.inj (hends.symm.trans hmated.there)
    obtain rfl := Option.some.inj hout
    have htype : frame.packet.header.type = .ping := by rw [header]; rfl
    have hrefused : ∀ e, server.transport.endpoints frame.packet.header.destPort = some e →
        frame.packet.header.ts < e.ts := by
      intro e he
      rw [header] at he ⊢
      exact hgone.2 e (endpointAt_eq_some.mpr ⟨server, hserver, he⟩)
    obtain ⟨net, hadd, rfl⟩ := handlePacket_of_replied hserver rfl
      (Transport.handlePacket_refused htype hrefused o) hw
    obtain ⟨frame', hpacket, hsent, hframe', -⟩ := Network.exists_frame_of_add hadd
    refine ⟨_, frame', hframe', .refused ?_ ?_⟩
    · rw [hpacket, Replier.reset, header_reply_there header]
    · rw [hsent]
      exact hnow.trans (frame.latest_le hservice sent (Nat.le_add_right t 50))
  -- The reset is back, and the socket's handler is told.
  | refused header sent =>
    right
    obtain rfl := Option.some.inj (hends.symm.trans hmated.back)
    obtain rfl := Option.some.inj hout
    obtain ⟨accepted, hmem, hat, hpacket, hhandler⟩ := accepted_of_scheduled hserver rfl
      (fun host => (hregistered.handlePacket hserver header _ host).2 rfl) hw
    exact ⟨accepted, hmem, hat, by rw [hpacket, header]; rfl, hhandler⟩

/-- A packet is handled at the present time. -/
theorem time_of_handlePacket {delivery : Delivery} {flightTime : ℕ}
    (h : w.handlePacket delivery flightTime = .ok w') : w'.time = w.time := by
  obtain ⟨_, _, _, -, -, -, rfl | ⟨_, _, _, -, rfl⟩ | ⟨_, -, rfl⟩⟩ := handlePacket_eq_ok h <;> rfl

/-- A step carries on with the last round. -/
theorem lastRound_of_step {flightTime : ℕ} (hmated : w.network.Mated socket.link o a b)
    (hregistered : w.RegisteredAt socket a.id) (hgone : w.GoneAt socket b.id)
    (hround : w.InLastRound socket o t)
    (hnow : ∀ l frame, w.network.InFlight l frame → LastRound socket o t frame l →
      w'.time.now ≤ frame.latest t) (hw : w.execute (.step flightTime) = .ok w') :
    w'.InLastRound socket o t ∨ w'.ResetAt socket a.id := by
  obtain ⟨l, frame, hframe, hround⟩ := hround
  rcases stepNetwork_of_execute hw with ⟨hnetwork, -⟩ | ⟨time, hstep⟩
  · left
    exact ⟨l, frame, by rwa [hnetwork], hround⟩
  obtain ⟨⟨net, delivery⟩, hnet, hstep⟩ := Outcome.bind_eq_ok.mp hstep
  have hends := (Network.quiet_step hnet).1.ends
  have hlate := hnow l frame hframe hround
  rcases Network.delivered_of_step hnet hframe with hframe' | ⟨ends, hlink, rfl⟩
  · -- another frame is delivered, or none
    left
    cases delivery with
    | none =>
      obtain rfl := Outcome.pure_eq_ok.mp hstep
      exact ⟨l, frame, hframe', hround⟩
    | some d => exact ⟨l, frame, (keeps_handlePacket hstep).inFlight l frame hframe', hround⟩
  · have hregistered' : World.RegisteredAt { w with
        stepNumber := w.stepNumber + 1, time := time, network := net, current := none }
          socket a.id := hregistered
    have hgone' : World.GoneAt { w with
        stepNumber := w.stepNumber + 1, time := time, network := net, current := none }
          socket b.id := ⟨Nat.lt_succ_of_lt hgone.1, hgone.2⟩
    rw [time_of_handlePacket hstep] at hlate
    exact lastRound_of_handlePacket (hmated.congr hends) hregistered' hgone' hround hlate
      ((hends l).trans hlink) hstep

/-! ## Every run -/

/-- The socket has lost its peer, and is told so in the last round of its token. -/
structure Losing (w : World) (socket : ClientSocket) (o : LinkId) (a b : IServer) (t : ℕ) :
    Prop where
  mated : w.network.Mated socket.link o a b
  gone : w.GoneAt socket b.id
  round : w.RegisteredAt socket a.id → w.ResetAt socket a.id ∨ w.InLastRound socket o t

/-- An action that is no step loses nothing that is under way, and sends no reset. -/
theorem network_of_execute (hstep : ∀ flightTime, action ≠ .step flightTime)
    (hw : w.execute action = .ok w') :
    w.network.Keeps w'.network ∧ ∀ l frame, w'.network.InFlight l frame →
      w.network.InFlight l frame ∨ frame.packet.header.type ≠ .reset := by
  have hsame : w.network.Keeps w.network ∧ ∀ l frame, w.network.InFlight l frame →
      w.network.InFlight l frame ∨ frame.packet.header.type ≠ .reset :=
    ⟨Network.Keeps.refl _, fun _ _ h => Or.inl h⟩
  -- Sockets and reply sockets send no resets, so a reset in flight was in flight before.
  have hsends : ∀ {l : LinkId} {packet : Packet} {now flightTime : ℕ} {net : Network},
      packet.header.type ≠ .reset → w.network.add l packet now flightTime = .ok net →
      w.network.Keeps net ∧ ∀ l frame, net.InFlight l frame →
        w.network.InFlight l frame ∨ frame.packet.header.type ≠ .reset := by
    intro l packet now flightTime net htype hadd
    refine ⟨(Network.keeps_add hadd).1, fun l' frame' hframe' => ?_⟩
    obtain ⟨frame, hpacket, -, -, hnew⟩ := Network.exists_frame_of_add hadd
    rcases hnew l' frame' hframe' with hold | rfl
    · exact Or.inl hold
    · right
      rwa [hpacket]
  cases action with
  | step flightTime => exact absurd rfl (hstep flightTime)
  | schedule delay id =>
    obtain ⟨_, _, -, -, rfl⟩ := execute_schedule hw
    exact hsame
  | connectTo address flightTime =>
    obtain ⟨_, _, socket, _, net, -, -, hconnect, rfl⟩ := execute_connectTo hw
    obtain ⟨-, -, -, -, -, -, -, -, rfl | hadd⟩ := Transport.connectTo_spec hconnect
    · exact hsame
    · exact hsends (ofSocket_connectPing socket).type hadd
  | serve port =>
    obtain ⟨_, _, _, -, -, -, rfl⟩ := execute_serve hw
    exact hsame
  | close object =>
    obtain ⟨_, _, _, -, -, -, rfl⟩ := execute_close hw
    exact hsame
  | destroy object =>
    obtain ⟨_, _, _, -, -, -, rfl⟩ := execute_destroy hw
    exact hsame
  | send object message flightTime =>
    obtain ⟨_, _, socket, _, -, -, -, hadd, rfl⟩ := execute_send hw
    exact hsends (ofSocket_makePacket socket message).type hadd
  | reply index message flightTime =>
    obtain ⟨_, _, socket, _, -, -, -, hadd, rfl⟩ := execute_reply hw
    exact hsends (by simp [ReplySocket.makePacket]) hadd
  | serverFault target fault =>
    obtain ⟨-, _, _, -, -, rfl⟩ := execute_serverFault hw
    exact hsame
  | networkFault fault =>
    obtain ⟨net, hfault, rfl⟩ := execute_networkFault hw
    exact ⟨keeps_fault hfault, fun l frame h => Or.inl ((quiet_fault hfault).inFlight l frame h)⟩
  | restartServer target =>
    obtain ⟨_, _, -, -, rfl⟩ := execute_restartServer hw
    exact hsame

/-- **A refused connection is refused for ever.** -/
theorem Refuses.execute {j : ℕ} {port : Port} {ts : ℕ} (h : w.Refuses j port ts)
    (hw : w.execute action = .ok w') : w'.Refuses j port ts := by
  obtain ⟨hts, hnewer⟩ := h
  cases heffect : action.isEffect with
  | true =>
    have hframe := effectFrame_of_execute heffect hw
    refine ⟨by rwa [hframe.stepNumber], fun e he => ?_⟩
    rcases hframe.endpoints j port e he with hold | ⟨-, hnew⟩
    · exact hnewer e hold
    · rwa [hnew]
  | false =>
    have hturn := (turnFrame_of_execute heffect hw).1
    exact ⟨Nat.lt_of_lt_of_le hts hturn.stepNumber,
      fun e he => hnewer e (hturn.endpoints j port e he)⟩

/-- A socket that was made in an earlier step is not registered again. -/
theorem registeredAt_of_execute {i : ℕ} (hts : socket.ts < w.stepNumber)
    (hw : w.execute action = .ok w') (h : w'.RegisteredAt socket i) : w.RegisteredAt socket i := by
  cases heffect : action.isEffect with
  | true =>
    -- a new endpoint would have the number of this step
    refine ((effectFrame_of_execute heffect hw).endpoints i _ _ h).resolve_right ?_
    rintro ⟨-, hnew⟩
    exact absurd hnew (Nat.ne_of_lt hts)
  | false => exact (turnFrame_of_execute heffect hw).1.endpoints i _ _ h

theorem ResetAt.execute {i : ℕ} (h : w.ResetAt socket i) (hw : w.execute action = .ok w') :
    w'.ResetAt socket i := by
  obtain ⟨a, ha, hrest⟩ := h
  refine ⟨a, ?_, hrest⟩
  cases heffect : action.isEffect with
  | true => rwa [(effectFrame_of_execute heffect hw).accepted]
  | false =>
    rcases (turnFrame_of_execute heffect hw).2 with heq | ⟨_, heq, -⟩
    · rwa [heq]
    · rw [heq]
      exact List.mem_append_left _ ha

/-- **One action carries on with the last round.** -/
theorem Losing.execute (h : w.Losing socket o a b t)
    (hnow : ∀ l frame, w.network.InFlight l frame → LastRound socket o t frame l →
      w'.time.now ≤ frame.latest t) (hw : w.execute action = .ok w') :
    w'.Losing socket o a b t := by
  refine ⟨h.mated.congr (ends_execute hw), h.gone.execute hw, fun hreg => ?_⟩
  have hreg := registeredAt_of_execute h.gone.1 hw hreg
  rcases h.round hreg with hold | hround
  · exact Or.inl (hold.execute hw)
  by_cases hstep : ∃ flightTime, action = .step flightTime
  · obtain ⟨flightTime, rfl⟩ := hstep
    exact (lastRound_of_step h.mated hreg h.gone hround hnow hw).symm
  · obtain ⟨l, frame, hframe, hround⟩ := hround
    have hkeeps := (network_of_execute (fun flightTime heq => hstep ⟨flightTime, heq⟩) hw).1
    exact Or.inr ⟨l, frame, hkeeps.inFlight l frame hframe, hround⟩

/-- The links of the socket there and back are not paused. -/
def LinksOpen (w : World) (socket : ClientSocket) : Prop :=
  w.network.isPaused socket.link = false ∧
    ∀ o ∈ (w.network.ends socket.link).bind LinkEnds.opposite, w.network.isPaused o = false

/-- An action of a simulation while the links of the socket are open. -/
def Unimpeded (socket : ClientSocket) (w : World) (action : Action) : Prop :=
  w.Simulated action ∧ w.LinksOpen socket

instance (socket : ClientSocket) (w : World) : Decidable (w.LinksOpen socket) :=
  inferInstanceAs (Decidable (_ ∧ _))

instance (socket : ClientSocket) (w : World) (action : Action) :
    Decidable (Unimpeded socket w action) :=
  inferInstanceAs (Decidable (_ ∧ _))

theorem LinksOpen.back (h : w.LinksOpen socket) (hmated : w.network.Mated socket.link o a b) :
    w.network.isPaused o = false := by
  apply h.2
  rw [hmated.there]
  rfl

/-- On open links, the last round is over in time. -/
theorem le_of_lastRound (htimed : w.Timed) (hthere : w.network.Prompt socket.link t)
    (hback : w.network.Prompt o t) (hopen : w.LinksOpen socket)
    (hmated : w.network.Mated socket.link o a b) {l : LinkId} {frame : Frame}
    (hframe : w.network.InFlight l frame) (hround : LastRound socket o t frame l) :
    w.time.now ≤ frame.latest t ∧
      ∀ action w', w.execute action = .ok w' → w'.time.now ≤ frame.latest t := by
  rcases hround.link_eq with rfl | rfl
  · exact htimed.le_latest hthere hopen.1 hframe
  · exact htimed.le_latest hback (hopen.back hmated) hframe

/-- What is under way was sent by now, in every run of a simulation. -/
theorem sentBy_of_reaches {w₀ : World} (hstart : Started w₀)
    (hrun : Runs.Reaches execute Simulated w₀ w) :
    w.Timed ∧ w.network.SentBy w.time.now := by
  apply hrun.invariant (I := fun w => w.Timed ∧ w.network.SentBy w.time.now)
  · refine ⟨hstart.timed, ?_⟩
    obtain ⟨hosts, adversary, startTime, hstart⟩ := hstart
    obtain ⟨servers, rfl, -⟩ := start_eq_ok hstart
    intro l frame hframe
    exact absurd hframe (Network.not_inFlight_buildLinks _ l frame)
  · rintro w action w' ⟨htimed, hsent⟩ hsimulated hw
    refine ⟨htimed.execute hsimulated hw, ?_⟩
    exact (reaches_netState htimed.onTime hsimulated hw).invariant
      (I := fun s : NetState => s.net.SentBy s.time.now) hsent
      fun _ _ _ hs _ hexecute => NetState.sentBy_execute hs hexecute

/-- **Crash detection is timely.**  In every run of a simulation with an adversary, in which no
link is resumed at a wake-up that it skipped, whatever else happened before `w₁`: when the peer
of a client socket is gone at `w₁` and the links between the two servers are open from then on,
the server of the client accepts a reset for the socket within 150 jiffies, unless the endpoint
of the socket was removed. -/
theorem detected_of_reaches {hosts : List HostName} {startTime : ℕ} {w₀ w₁ : World}
    (hstart : (deploy hosts true).start startTime = .ok w₀) (hdistinct : hosts.Nodup)
    (hrun : Runs.Reaches execute Simulated w₀ w₁) (hsocket : socket ∈ w₁.created)
    {ends : LinkEnds} (hends : w₁.network.ends socket.link = some ends)
    (hgone : w₁.GoneAt socket ends.stop.id)
    (hunimpeded : Runs.Reaches execute (Unimpeded socket) w₁ w) (hopen : w.LinksOpen socket)
    (hregistered : w.RegisteredAt socket ends.start.id) (hlate : w₁.time.now + 150 < w.time.now) :
    w.ResetAt socket ends.start.id := by
  obtain ⟨htimed, hsent⟩ := sentBy_of_reaches ⟨hosts, true, startTime, hstart⟩ hrun
  have hobserved : w₁.Routed ∧ w₁.Observed := by
    apply hrun.invariant (I := fun w => w.Routed ∧ w.Observed)
    · exact ⟨Started.routed ⟨hosts, true, startTime, hstart⟩, Started.observed hstart hdistinct⟩
    · exact fun v action v' hI _ hv => ⟨hI.1.execute hv, hI.2.execute hI.1 hv⟩
  obtain ⟨o, a, b, hmated⟩ := hobserved.2.mated socket hsocket
  obtain rfl := Option.some.inj (hends.symm.trans hmated.there)
  -- at `w₁` the token is under way, and was sent by then
  have hlosing : w₁.Losing socket o a b w₁.time.now := by
    refine ⟨hmated, hgone, fun hreg => ?_⟩
    by_cases hreset : w₁.ResetAt socket a.id
    · exact Or.inl hreset
    · exact Or.inr ((hobserved.2.alive a.id socket hsocket hreg hreset).lastRound hmated hsent)
  have hinv : w.Timed ∧ w.Losing socket o a b w₁.time.now ∧
      w.network.Prompt socket.link w₁.time.now ∧ w.network.Prompt o w₁.time.now := by
    apply hunimpeded.invariant (I := fun w => w.Timed ∧ w.Losing socket o a b w₁.time.now ∧
      w.network.Prompt socket.link w₁.time.now ∧ w.network.Prompt o w₁.time.now)
    · exact ⟨htimed, hlosing, htimed.prompt _, htimed.prompt _⟩
    · rintro v action v' ⟨htimed, hlosing, hthere, hback⟩ ⟨hsimulated, hopen⟩ hv
      refine ⟨htimed.execute hsimulated hv, ?_, ?_, ?_⟩
      · refine hlosing.execute (fun l frame hframe hround => ?_) hv
        exact (le_of_lastRound htimed hthere hback hopen hlosing.mated hframe hround).2 action v' hv
      · exact htimed.prompt_execute hthere hopen.1 hsimulated hv
      · exact htimed.prompt_execute hback (hopen.back hlosing.mated) hsimulated hv
  obtain ⟨htimed', hlosing', hthere, hback⟩ := hinv
  -- a token that is still under way would be late
  refine (hlosing'.round hregistered).resolve_right ?_
  rintro ⟨l, frame, hframe, hround⟩
  have hle := (le_of_lastRound htimed' hthere hback hopen hlosing'.mated hframe hround).1
  have hend := hround.latest_le
  omega

/-- The client is connected to the server and its ping is on the way back, when the adversary
crashes the server and pauses the client. -/
def crashing : List Action :=
  [.step 50, .serve 42, .step 50, .connectTo ⟨"Server-1", 42⟩ 50, .step 50, .schedule 70 0,
    .schedule 300 1, .step 50, .step 50, .serverFault 0 .crash, .serverFault 1 .pause]

/-- The socket of the client. -/
def orphan : ClientSocket := ⟨1, 3, 1, 42, 2⟩

/-- The paused client has been told when the adversary wakes up again. -/
theorem detected_of_reaches_crashing :
    ∃ w : World, w.time.now = 300 ∧ w.RegisteredAt orphan 1 ∧ w.ResetAt orphan 1 := by
  have hbefore : (Runs.exec execute Simulated observed crashing).map (fun w₁ =>
      ([w₁.time.now, w₁.stepNumber], (w₁.endpointAt 0 42).isSome, w₁.created,
        w₁.network.ends orphan.link))
      = some ([70, 5], false, [orphan], some ⟨⟨1, "Client-1"⟩, ⟨0, "Server-1"⟩, some 1⟩) := by
    decide +kernel
  have hafter : (Runs.exec execute Simulated observed crashing).bind (fun w₁ =>
      (Runs.exec execute (Unimpeded orphan) w₁ [.step 50, .step 50, .step 50, .step 50]).map fun w =>
        (w.time.now, decide (w.LinksOpen orphan), (w.endpointAt 1 1).map fun e => (e.handler, e.ts)))
      = some (300, true, some (1, 2)) := by
    decide +kernel
  obtain ⟨w₁, hrun, hbefore⟩ := Option.map_eq_some_iff.mp hbefore
  rw [hrun] at hafter
  obtain ⟨w, hunimpeded, hafter⟩ := Option.map_eq_some_iff.mp hafter
  simp only [Prod.mk.injEq, List.cons.injEq, decide_eq_true_eq, and_true] at hbefore hafter
  obtain ⟨⟨hnow₁, hstep⟩, hendpoint, hcreated, hends⟩ := hbefore
  obtain ⟨hnow, hopen, hregistered⟩ := hafter
  have hregistered : w.RegisteredAt orphan 1 := by
    obtain ⟨⟨handler, ts⟩, he, hfields⟩ := Option.map_eq_some_iff.mp hregistered
    rw [RegisteredAt, orphan, he]
    simpa using hfields
  refine ⟨w, hnow, hregistered, ?_⟩
  have hstart : (deploy ["Server-1", "Client-1", "Adversary-1"] true).start 0 = .ok observed := rfl
  have hgone : w₁.GoneAt orphan 0 := by
    refine ⟨by rw [hstep]; decide, fun e he => ?_⟩
    have he : w₁.endpointAt 0 42 = some e := he
    rw [he] at hendpoint
    exact absurd hendpoint (by simp)
  exact detected_of_reaches hstart (by decide) (Runs.reaches_of_exec hrun)
    (by rw [hcreated]; exact List.mem_singleton.mpr rfl) hends hgone
    (Runs.reaches_of_exec hunimpeded) hopen hregistered (by rw [hnow₁, hnow]; decide)

/-! ## No false alarm -/

/-- The server that a packet comes from has no endpoint for the exchange any more: the server of
the client socket when the packet goes forth, and its peer otherwise. -/
def SenderGone (w : World) (origin : Origin) (ends : LinkEnds) : Prop :=
  if origin.isForth then w.Refuses ends.start.id origin.socket.selfPort origin.socket.ts
  else w.GoneAt origin.socket ends.stop.id

theorem SenderGone.execute {origin : Origin} {ends : LinkEnds} (h : w.SenderGone origin ends)
    (hw : w.execute action = .ok w') : w'.SenderGone origin ends := by
  rw [SenderGone] at h ⊢
  split at h
  · rw [if_pos ‹_›]
    exact h.execute hw
  · rw [if_neg ‹_›]
    exact Refuses.execute h hw

/-- Every reset under way comes from a server that refuses the connection, and so does every
reset that was accepted. -/
structure Truthful (w : World) : Prop where
  inFlight : ∀ l frame ends, w.network.InFlight l frame → frame.packet.header.type = .reset →
    w.network.ends l = some ends →
    w.Refuses ends.start.id frame.packet.header.sourcePort frame.packet.header.ts
  accepted : ∀ a ∈ w.accepted, a.packet.header.type = .reset →
    ∃ ends, w.network.ends a.packet.origin.socket.link = some ends ∧
      w.SenderGone a.packet.origin ends

/-- When the receiver of a packet answers with a reset, it refuses the connection. -/
theorem refused_of_handlePacket {delivery : Delivery} {flightTime : ℕ} {l : LinkId} {frame : Frame}
    (h : w.handlePacket delivery flightTime = .ok w') (hframe : w'.network.InFlight l frame)
    (htype : frame.packet.header.type = .reset) :
    w.network.InFlight l frame ∨ (delivery.out = some l ∧ (∃ net, w' = { w with network := net }) ∧
      frame.packet.header.sourcePort = delivery.packet.header.destPort ∧
      frame.packet.header.ts = delivery.packet.header.ts ∧
      ∀ e, w.endpointAt delivery.receiver.id delivery.packet.header.destPort = some e →
        delivery.packet.header.ts < e.ts) := by
  unfold handlePacket at h
  split at h
  · rename_i server out hserver hout
    split at h
    · exact absurd h (by simp)
    · split at h
      · obtain rfl := Except.ok.inj h
        exact Or.inl hframe
      · rename_i reply hreply
        obtain ⟨net, hadd, h⟩ := Outcome.bind_eq_ok.mp h
        obtain rfl := Outcome.pure_eq_ok.mp h
        obtain ⟨frame', rfl, -, -, -, hinFlight, -⟩ := Network.add_spec hadd
        rcases hinFlight l frame hframe with hold | ⟨rfl, rfl⟩
        · exact Or.inl hold
        · obtain ⟨hsource, hts, hrefused⟩ := Transport.refused_of_replied hreply htype
          refine Or.inr ⟨hout, ⟨net, rfl⟩, hsource, hts, fun e he => ?_⟩
          obtain ⟨server', hserver', hendpoint⟩ := endpointAt_eq_some.mp he
          obtain rfl := Option.some.inj (hserver.symm.trans hserver')
          exact hrefused e hendpoint
      · obtain rfl := Except.ok.inj h
        exact Or.inl hframe
  · exact absurd h (by simp)

/-- A reset that a step sends comes from a server that refuses the connection. -/
theorem refused_of_step {hosts : List HostName} {flightTime : ℕ} {l : LinkId} {frame : Frame}
    {ends : LinkEnds} (hrouted : w.Routed) (hexchanging : w.Exchanging hosts)
    (hw : w.execute (.step flightTime) = .ok w') (hframe : w'.network.InFlight l frame)
    (htype : frame.packet.header.type = .reset) (hends : w.network.ends l = some ends) :
    w.network.InFlight l frame ∨
      w'.Refuses ends.start.id frame.packet.header.sourcePort frame.packet.header.ts := by
  rcases stepNetwork_of_execute hw with ⟨hnetwork, -⟩ | ⟨time, hstep⟩
  · left
    rwa [hnetwork] at hframe
  obtain ⟨⟨net, delivery⟩, hnet, hstep⟩ := Outcome.bind_eq_ok.mp hstep
  obtain ⟨hquiet, hdelivery⟩ := Network.quiet_step hnet
  cases delivery with
  | none =>
    obtain rfl := Outcome.pure_eq_ok.mp hstep
    exact Or.inl (hquiet.inFlight l frame hframe)
  | some delivery =>
    obtain ⟨l₀, frame₀, ends₀, hframe₀, hpacket, hends₀, hreceiver, hout⟩ := hdelivery _ rfl
    rcases refused_of_handlePacket hstep hframe htype with
      hold | ⟨hanswer, ⟨net', rfl⟩, hsource, hts, hrefused⟩
    · exact Or.inl (hquiet.inFlight l frame hold)
    · right
      -- the reset leaves the server that the packet came to
      obtain ⟨opposite, hback⟩ := hrouted.linked.back l₀ ends₀ l hends₀ (hout.symm.trans hanswer)
      obtain rfl := Option.some.inj (hends.symm.trans hback)
      rw [hsource, hts]
      rw [hreceiver] at hrefused
      refine ⟨?_, hrefused⟩
      have hfollows := hexchanging.inFlight l₀ frame₀ hframe₀
      rw [← hpacket, hfollows.ts]
      exact Nat.lt_succ_of_le (hrouted.numbered _ hfollows.created)

/-- A reset that is accepted was under way, on the way of its exchange. -/
theorem Truthful.senderGone {hosts : List HostName} {a : Acceptance} (h : w.Truthful)
    (hexchanging : w.Exchanging hosts) (ha : Accepts w a)
    (htype : a.packet.header.type = .reset) :
    ∃ ends, w.network.ends a.packet.origin.socket.link = some ends ∧
      w.SenderGone a.packet.origin ends := by
  obtain ⟨l, frame, ends, endpoint, hframe, hpacket, hlink, -⟩ := ha
  have hfollows := hexchanging.inFlight l frame hframe
  have hrefused := h.inFlight l frame ends hframe (by rw [hpacket, htype]) hlink
  rw [hpacket] at hfollows hrefused
  have hway := hfollows.way
  rw [hfollows.sourcePort, hfollows.ts] at hrefused
  rw [Network.Way] at hway
  cases hforth : a.packet.origin.isForth with
  | true =>
    rw [if_pos hforth] at hway hrefused
    subst hway
    refine ⟨ends, hlink, ?_⟩
    rwa [SenderGone, if_pos hforth]
  | false =>
    -- the packet comes back on the opposite link
    rw [if_neg (by simp [hforth])] at hway hrefused
    obtain ⟨o, b, c, hmated⟩ := hexchanging.mated _ hfollows.created
    obtain ⟨ends', hends', hopposite⟩ := hway
    obtain ⟨rfl, rfl⟩ := hmated.eq_of_opposite hends' hopposite
    obtain rfl := Option.some.inj (hlink.symm.trans hmated.back)
    refine ⟨_, hmated.there, ?_⟩
    rwa [SenderGone, if_neg (by simp [hforth])]

/-- **One action raises no false alarm.** -/
theorem Truthful.execute {hosts : List HostName} (h : w.Truthful) (hrouted : w.Routed)
    (hexchanging : w.Exchanging hosts) (hw : w.execute action = .ok w') : w'.Truthful := by
  have hends := ends_execute hw
  constructor
  · intro l frame ends hframe htype hlink
    rw [hends] at hlink
    have hkept : w.network.InFlight l frame ∨
        w'.Refuses ends.start.id frame.packet.header.sourcePort frame.packet.header.ts := by
      by_cases hstep : ∃ flightTime, action = .step flightTime
      · obtain ⟨flightTime, rfl⟩ := hstep
        exact refused_of_step hrouted hexchanging hw hframe htype hlink
      · have hnew := (network_of_execute (fun flightTime heq => hstep ⟨flightTime, heq⟩) hw).2
        exact Or.inl ((hnew l frame hframe).resolve_right (fun hne => hne htype))
    rcases hkept with hold | hrefused
    · exact (h.inFlight l frame ends hold htype hlink).execute hw
    · exact hrefused
  · have hold : ∀ a ∈ w.accepted, a.packet.header.type = .reset → ∃ ends,
        w'.network.ends a.packet.origin.socket.link = some ends ∧
          w'.SenderGone a.packet.origin ends := by
      intro a ha htype
      obtain ⟨ends, hlink, hgone⟩ := h.accepted a ha htype
      exact ⟨ends, (hends _).trans hlink, hgone.execute hw⟩
    cases heffect : action.isEffect with
    | true =>
      rw [(effectFrame_of_execute heffect hw).accepted]
      exact hold
    | false =>
      rcases (turnFrame_of_execute heffect hw).2 with heq | ⟨a', heq, haccepts⟩
      · rw [heq]
        exact hold
      · intro a ha htype
        rw [heq] at ha
        rcases List.mem_append.mp ha with ha | ha
        · exact hold a ha htype
        · obtain rfl := List.mem_singleton.mp ha
          obtain ⟨ends, hlink, hgone⟩ := h.senderGone hexchanging haccepts htype
          exact ⟨ends, (hends _).trans hlink, hgone.execute hw⟩

/-- **There is no false alarm.**  In every run, with whatever flight times and faults: when a
server accepts a reset, the server that it comes from has no endpoint for the exchange any more,
and will never have one again. -/
theorem gone_of_reaches {hosts : List HostName} {adversary : Bool} {startTime : ℕ} {w₀ : World}
    (hstart : (deploy hosts adversary).start startTime = .ok w₀)
    (hrun : Runs.Reaches execute anyAction w₀ w) {a : Acceptance} (ha : a ∈ w.accepted)
    (htype : a.packet.header.type = .reset) :
    ∃ ends, w.network.ends a.packet.origin.socket.link = some ends ∧
      ∀ w', Runs.Reaches execute anyAction w w' → w'.SenderGone a.packet.origin ends := by
  have hinv : (w.Routed ∧ w.Exchanging hosts) ∧ w.Truthful := by
    apply hrun.invariant (I := fun w => (w.Routed ∧ w.Exchanging hosts) ∧ w.Truthful)
    · refine ⟨⟨Started.routed ⟨hosts, adversary, startTime, hstart⟩, exchanging_of_start hstart⟩,
        ?_⟩
      obtain ⟨servers, rfl, -⟩ := start_eq_ok hstart
      constructor
      · intro l frame ends hframe
        exact absurd hframe (Network.not_inFlight_buildLinks _ l frame)
      · exact fun a ha => absurd ha List.not_mem_nil
    · rintro v action v' ⟨⟨hrouted, hexchanging⟩, htruthful⟩ - hv
      exact ⟨⟨hrouted.execute hv, hexchanging.execute hrouted hv⟩,
        htruthful.execute hrouted hexchanging hv⟩
  obtain ⟨ends, hends, hgone⟩ := hinv.2.accepted a ha htype
  refine ⟨ends, hends, fun w' hrun' => ?_⟩
  exact hrun'.invariant (I := fun w => w.SenderGone a.packet.origin ends) hgone
    fun _ _ _ h _ hw => h.execute hw

/-- The reset that told the client of the crash. -/
theorem gone_of_reaches_crashing : ∃ w : World, ∃ a ∈ w.accepted,
    a.packet.header.type = .reset ∧ a.packet.origin.socket = orphan ∧ w.GoneAt orphan 0 := by
  have hexec : (Runs.exec execute anyAction observed
      (crashing ++ [.step 50, .step 50, .step 50])).bind (fun w => w.accepted.head?.map fun a =>
        (a.packet.header.type, a.packet.origin, w.network.ends orphan.link))
      = some (.reset, .answer (.answer (.answer (.client orphan))),
        some ⟨⟨1, "Client-1"⟩, ⟨0, "Server-1"⟩, some 1⟩) := by
    decide +kernel
  obtain ⟨w, hrun, hexec⟩ := Option.bind_eq_some_iff.mp hexec
  obtain ⟨a, ha, hexec⟩ := Option.map_eq_some_iff.mp hexec
  simp only [Prod.mk.injEq] at hexec
  obtain ⟨htype, horigin, hends⟩ := hexec
  have hmem : a ∈ w.accepted := List.mem_of_head? ha
  have hstart : (deploy ["Server-1", "Client-1", "Adversary-1"] true).start 0 = .ok observed := rfl
  have hsocket : a.packet.origin.socket = orphan := by rw [horigin]; rfl
  obtain ⟨ends, hends', hgone⟩ := gone_of_reaches hstart (Runs.reaches_of_exec hrun) hmem htype
  have hgone := hgone w Runs.Reaches.refl
  rw [hsocket] at hends'
  obtain rfl := Option.some.inj (hends'.symm.trans hends)
  rw [horigin] at hgone
  exact ⟨w, a, hmem, htype, hsocket, hgone⟩

end World

end Whirl
