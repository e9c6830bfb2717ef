/-
# A connection never spans two incarnations of a server

Packets can stay on paused links for as long as one likes, while both ends of a
connection close, crash, reboot and serve the same port again.  Nevertheless all the
packets of one client socket that are ever accepted are accepted by one endpoint:
the one that was registered at their destination when the step ended in which the
socket was made.  An endpoint that is registered later has a greater timestamp than
these packets.
-/
import WhirlMatrix.World.Sockets

namespace Whirl

open Net

namespace World

variable {w w' : World}

/-- The first server of a link is known by its index. -/
theorem Routed.start_eq (h : w.Routed) {l : LinkId} {ends : LinkEnds}
    (hends : w.network.ends l = some ends) :
    ∃ server, w.servers[ends.start.id]? = some server ∧ ends.start.hostName = server.hostName := by
  obtain ⟨k, hk⟩ := List.mem_iff_getElem?.mp (h.linked.start l ends hends)
  rw [h.hosts, Option.map_eq_some_iff] at hk
  obtain ⟨server, hserver, hstart⟩ := hk
  rw [← hstart]
  exact ⟨server, hserver, rfl⟩

/-! ## Before the socket is made -/

/-- Packets that were accepted belong to sockets that were made. -/
def AcceptedCreated (w : World) : Prop :=
  ∀ a ∈ w.accepted, ∀ socket, a.packet.origin = .client socket → socket ∈ w.created

/-- The effects of one step only add client sockets with the number of the step. -/
theorem created_of_effects
    (h : Runs.Reaches execute (fun _ action => action.isEffect = true) w w') :
    w'.stepNumber = w.stepNumber ∧ w'.accepted = w.accepted ∧
      ∀ socket ∈ w'.created, socket ∈ w.created ∨ socket.ts = w.stepNumber := by
  refine h.invariant (I := fun v => v.stepNumber = w.stepNumber ∧ v.accepted = w.accepted ∧
    ∀ socket ∈ v.created, socket ∈ w.created ∨ socket.ts = w.stepNumber)
    ⟨rfl, rfl, fun _ hsocket => Or.inl hsocket⟩ fun v action v' hI heffect hv => ?_
  obtain ⟨hstep, haccepted, hcreated⟩ := hI
  have hframe := effectFrame_of_execute heffect hv
  refine ⟨hframe.stepNumber.trans hstep, hframe.accepted.trans haccepted, fun socket hsocket => ?_⟩
  rcases hframe.created socket hsocket with hsocket | hts
  · exact hcreated socket hsocket
  · exact Or.inr (hts.trans hstep)

theorem AcceptedCreated.execute {action : Action} (h : AcceptedCreated w) (hrouted : w.Routed)
    (hw : w.execute action = .ok w') : AcceptedCreated w' := by
  intro a ha socket horigin
  refine created_subset hw socket ?_
  cases heffect : action.isEffect with
  | true =>
    rw [(effectFrame_of_execute heffect hw).accepted] at ha
    exact h a ha socket horigin
  | false =>
    obtain ⟨-, haccepted | ⟨a', haccepted, ⟨l, frame, ends, endpoint, hframe, hpacket, -⟩⟩⟩ :=
      turnFrame_of_execute heffect hw
    · rw [haccepted] at ha
      exact h a ha socket horigin
    · rw [haccepted] at ha
      rcases List.mem_append.mp ha with ha | ha
      · exact h a ha socket horigin
      · obtain rfl := List.mem_singleton.mp ha
        rw [← hpacket] at horigin
        exact (hrouted.carrying.requests l frame socket hframe horigin).1

theorem acceptedCreated_of_reaches {w₀ : World} (hstart : Started w₀)
    (hrun : Runs.Reaches execute anyAction w₀ w) : AcceptedCreated w := by
  have hinv : w.Routed ∧ AcceptedCreated w := by
    refine hrun.invariant (I := fun w => w.Routed ∧ AcceptedCreated w)
      ⟨hstart.routed, fun a ha => ?_⟩ fun v action v' hI _ hv => ?_
    · obtain ⟨hosts, adversary, startTime, hstart⟩ := hstart
      obtain ⟨servers, rfl, -⟩ := start_eq_ok hstart
      exact absurd ha List.not_mem_nil
    · exact ⟨hI.1.execute hv, hI.2.execute hI.1 hv⟩
  exact hinv.2

/-! ## After the step in which the socket is made -/

/-- `w'` comes after the step that ends in `w`. -/
def After (w w' : World) : Prop :=
  ∃ action v, action.isEffect = false ∧ w.execute action = .ok v ∧
    Runs.Reaches execute anyAction v w'

/-- The endpoints of `w'` are those of `w`, or newer than the step that ended in `w`. -/
structure Newer (w w' : World) : Prop where
  stepNumber : w.stepNumber ≤ w'.stepNumber
  current : w'.current ≠ none → w.stepNumber < w'.stepNumber
  endpoints : ∀ i port e, w'.endpointAt i port = some e →
    w.endpointAt i port = some e ∨ w.stepNumber < e.ts

/-- The action that ends the step opens nothing. -/
theorem Newer.of_turn {action : Action} (heffect : action.isEffect = false)
    (hw : w.execute action = .ok w') : Newer w w' := by
  have hturn := (turnFrame_of_execute heffect hw).1
  exact ⟨hturn.stepNumber, hturn.current, fun i port e he => Or.inl (hturn.endpoints i port e he)⟩

/-- What is opened afterwards is opened in a later step. -/
theorem Newer.execute {v v' : World} {action : Action} (h : Newer w v)
    (hv : v.execute action = .ok v') : Newer w v' := by
  cases heffect : action.isEffect with
  | true =>
    have hframe := effectFrame_of_execute heffect hv
    refine ⟨?_, ?_, fun i port e he => ?_⟩
    · rw [hframe.stepNumber]
      exact h.stepNumber
    · rw [hframe.stepNumber, hframe.current]
      exact h.current
    · rcases hframe.endpoints i port e he with he | ⟨hcurrent, hts⟩
      · exact h.endpoints i port e he
      · rw [hts]
        exact Or.inr (h.current hcurrent)
  | false =>
    have hturn := (turnFrame_of_execute heffect hv).1
    exact ⟨h.stepNumber.trans hturn.stepNumber,
      fun hcurrent => Nat.lt_of_le_of_lt h.stepNumber (hturn.current hcurrent),
      fun i port e he => h.endpoints i port e (hturn.endpoints i port e he)⟩

/-- The packet was accepted at the end of the link of the socket, by the endpoint that
was registered in `w`. -/
def TakenAt (w : World) (socket : ClientSocket) (a : Acceptance) : Prop :=
  ∃ ends endpoint, w.network.ends socket.link = some ends ∧ a.server = ends.stop.id ∧
    a.packet.header.destPort = socket.serverPort ∧
    w.endpointAt ends.stop.id socket.serverPort = some endpoint ∧ a.task.handler = endpoint.handler

/-- A packet of the socket that is accepted in `v` finds an endpoint of `w`: any newer one
has a greater timestamp. -/
theorem takenAt_of_accepts {v : World} {socket : ClientSocket} {a : Acceptance}
    (hrouted : v.Routed) (hends : ∀ l, v.network.ends l = w.network.ends l)
    (hendpoints : ∀ i port e, v.endpointAt i port = some e →
      w.endpointAt i port = some e ∨ w.stepNumber < e.ts)
    (hts : socket.ts = w.stepNumber) (ha : Accepts v a)
    (horigin : a.packet.origin = .client socket) : TakenAt w socket a := by
  obtain ⟨l, frame, ends, endpoint, hframe, hpacket, hlink, hstop, hendpoint, hle, hhandler⟩ := ha
  rw [← hpacket] at horigin hendpoint hle
  obtain ⟨-, rfl, hof, -⟩ := hrouted.carrying.requests l frame socket hframe horigin
  rw [hof.destPort] at hendpoint
  refine ⟨ends, endpoint, (hends _).symm.trans hlink, hstop.symm, by rw [← hpacket, hof.destPort],
    ?_, hhandler⟩
  rw [hstop]
  refine (hendpoints _ _ _ hendpoint).resolve_right fun hnewer => ?_
  rw [hof.ts, hts] at hle
  exact absurd (Nat.lt_of_lt_of_le hnewer hle) (Nat.lt_irrefl _)

/-- **A connection never spans two incarnations.**  A client socket is made in the step
that begins with `w₁` and ends in `w₂`.  Whatever happens afterwards, each packet of the
socket that is accepted is accepted by the endpoint that was registered in `w₂` at the
port and at the end of the link of the socket. -/
theorem takenAt_of_made {w₀ w₁ w₁' w₂ v : World} {flightTime : ℕ} {socket : ClientSocket}
    (hstart : Started w₀) (hbefore : Runs.Reaches execute anyAction w₀ w₁)
    (hstep : w₁.execute (.step flightTime) = .ok w₁')
    (heffects : Runs.Reaches execute (fun _ action => action.isEffect = true) w₁' w₂)
    (hmade : socket ∈ w₂.created) (hnew : socket ∉ w₁.created) (hafter : After w₂ v) :
    ∀ a ∈ v.accepted, a.packet.origin = .client socket → TakenAt w₂ socket a := by
  have hturn := (turnFrame_of_execute rfl hstep).1
  have hreach₁ : Runs.Reaches execute anyAction w₀ w₁' := hbefore.tail _ trivial hstep
  have hreach₂ : Runs.Reaches execute anyAction w₀ w₂ :=
    hreach₁.trans (heffects.mono fun _ _ _ => trivial)
  obtain ⟨hnumber, haccepted, hcreated⟩ := created_of_effects heffects
  rw [hturn.created] at hcreated
  -- the timestamp of the socket is the number of its step
  have hts : socket.ts = w₂.stepNumber := by
    rw [hnumber]
    exact (hcreated socket hmade).resolve_left hnew
  -- none of its packets was accepted before
  have hnone : ∀ a ∈ w₂.accepted, a.packet.origin ≠ .client socket := by
    intro a ha horigin
    rw [haccepted] at ha
    have hold := acceptedCreated_of_reaches hstart hreach₁ a ha socket horigin
    rw [hturn.created] at hold
    exact hnew hold
  have hrouted₂ := routed_of_reaches hstart hreach₂
  obtain ⟨action, w₃, heffect, hend, hrun⟩ := hafter
  have hinit : w₃.Routed ∧ (∀ l, w₃.network.ends l = w₂.network.ends l) ∧ Newer w₂ w₃ ∧
      ∀ a ∈ w₃.accepted, a.packet.origin = .client socket → TakenAt w₂ socket a := by
    refine ⟨hrouted₂.execute hend, ends_execute hend, Newer.of_turn heffect hend,
      fun a ha horigin => ?_⟩
    obtain ⟨-, haccepted | ⟨a', haccepted, haccepts⟩⟩ := turnFrame_of_execute heffect hend
    · rw [haccepted] at ha
      exact absurd horigin (hnone a ha)
    · rw [haccepted] at ha
      rcases List.mem_append.mp ha with ha | ha
      · exact absurd horigin (hnone a ha)
      · obtain rfl := List.mem_singleton.mp ha
        exact takenAt_of_accepts hrouted₂ (fun _ => rfl) (fun _ _ _ he => Or.inl he) hts haccepts
          horigin
  have hinv := hrun.invariant (I := fun v => v.Routed ∧
    (∀ l, v.network.ends l = w₂.network.ends l) ∧ Newer w₂ v ∧
      ∀ a ∈ v.accepted, a.packet.origin = .client socket → TakenAt w₂ socket a) hinit
    fun v action v' hI _ hv => ?_
  · exact hinv.2.2.2
  obtain ⟨hrouted, hends, hnewer, htaken⟩ := hI
  refine ⟨hrouted.execute hv, fun l => (ends_execute hv l).trans (hends l), hnewer.execute hv,
    fun a ha horigin => ?_⟩
  cases heffect : action.isEffect with
  | true =>
    rw [(effectFrame_of_execute heffect hv).accepted] at ha
    exact htaken a ha horigin
  | false =>
    obtain ⟨-, haccepted | ⟨a', haccepted, haccepts⟩⟩ := turnFrame_of_execute heffect hv
    · rw [haccepted] at ha
      exact htaken a ha horigin
    · rw [haccepted] at ha
      rcases List.mem_append.mp ha with ha | ha
      · exact htaken a ha horigin
      · obtain rfl := List.mem_singleton.mp ha
        exact takenAt_of_accepts hrouted hends hnewer.endpoints hts haccepts horigin

/-! ## A short run -/

instance (w : World) (action : Action) : Decidable (anyAction w action) := .isTrue trivial

/-- A server host and a client host. -/
def started : World :=
  match (deploy ["Server-1", "Client-1"] false).start 0 with
  | .ok w => w
  | .error _ => {}

/-- The server serves port 42. -/
def serving : World := (Runs.exec execute anyAction started [.step 0, .serve 42]).getD {}

/-- The program of the client is started. -/
def connecting : World := (Runs.exec execute anyAction serving [.step 0]).getD {}

/-- The client connects and sends a message in one step. -/
def connected : World :=
  (Runs.exec execute anyAction connecting
    [.connectTo ⟨"Server-1", 42⟩ 5, .send 1 [7] 5]).getD {}

/-- The message is delivered. -/
def delivered : World := (Runs.exec execute anyAction connected [.step 0]).getD {}

/-- The message is accepted by the endpoint that was there when the client connected. -/
theorem takenAt_of_made_connected :
    delivered.accepted ≠ [] ∧ ∀ socket ∈ connected.created, ∀ a ∈ delivered.accepted,
      a.packet.origin = .client socket → TakenAt connected socket a := by
  have hstart : Started started := ⟨["Server-1", "Client-1"], false, 0, rfl⟩
  have hbefore : Runs.exec execute anyAction started [.step 0, .serve 42] = some serving := rfl
  have hstep : serving.execute (.step 0) = .ok connecting := rfl
  have heffects : Runs.exec execute (fun _ action => action.isEffect = true) connecting
      [.connectTo ⟨"Server-1", 42⟩ 5, .send 1 [7] 5] = some connected := rfl
  have hafter : After connected delivered :=
    ⟨.step 0, delivered, rfl, rfl, Runs.Reaches.refl⟩
  refine ⟨by decide, fun socket hsocket => ?_⟩
  exact takenAt_of_made hstart (Runs.reaches_of_exec hbefore) hstep
    (Runs.reaches_of_exec heffects) hsocket List.not_mem_nil hafter

end World

end Whirl
