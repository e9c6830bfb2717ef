/-
# Exchanges of resets

`HandlePacket` answers some packets, and the answer is handled at the other host.
This file counts the deliveries of such an exchange while the endpoints stay as
they are.  A packet of type `Reset` for an unknown port is dropped, but one that is
older than the endpoint at its port is answered with another `Reset`: if that one
is older than the endpoint at the other side, too, the exchange never ends.
-/
import WhirlMatrix.Network.Transport
import Mathlib.Algebra.BigOperators.Group.List.Basic
import Mathlib.Algebra.GroupWithZero.Nat

namespace Whirl.Net

/-! ## One packet -/

namespace Transport

/-- Whether a port has an endpoint. -/
def isRegistered (transport : Transport) (port : Port) : Bool := (transport.endpoints port).isSome

/-- Whether a port has an endpoint that is newer than a timestamp. -/
def isNewer (transport : Transport) (port : Port) (ts : ℕ) : Bool :=
  match transport.endpoints port with
  | none => false
  | some endpoint => ts < endpoint.ts

variable {transport : Transport} {packet : Packet} {out : LinkId} {fromHost : HostName}

/-- A `Reset` is answered exactly when the endpoint at its port is newer. -/
theorem handlePacket_reset (h : packet.header.type = .reset) (reply : Packet) :
    transport.handlePacket packet out fromHost = .replied reply ↔
      transport.isNewer packet.header.destPort packet.header.ts = true ∧
        reply = Replier.reset packet := by
  unfold handlePacket isNewer
  cases transport.endpoints packet.header.destPort with
  | none => simp [h]
  | some endpoint =>
    by_cases hts : packet.header.ts < endpoint.ts
    · simp [hts, eq_comm]
    · simp [hts, h]

/-- A `Data` packet is answered when there is no endpoint at its port, or a newer one. -/
theorem handlePacket_data (h : packet.header.type = .data) (reply : Packet) :
    transport.handlePacket packet out fromHost = .replied reply ↔
      (transport.isRegistered packet.header.destPort = false ∨
        transport.isNewer packet.header.destPort packet.header.ts = true) ∧
          reply = Replier.reset packet := by
  unfold handlePacket isNewer isRegistered
  cases transport.endpoints packet.header.destPort with
  | none =>
    simp only [h, Option.isSome_none, true_or, true_and]
    exact ⟨fun hreply => (Handled.replied.inj hreply).symm, fun hreply => by rw [hreply]; rfl⟩
  | some endpoint =>
    by_cases hts : packet.header.ts < endpoint.ts
    · simp [hts, eq_comm]
    · simp [hts, h]

/-- A `Reset` provokes no answer exactly when no newer endpoint is at its port. -/
theorem reset_unanswered_iff (h : packet.header.type = .reset) :
    (∀ reply, transport.handlePacket packet out fromHost ≠ .replied reply) ↔
      transport.isNewer packet.header.destPort packet.header.ts = false := by
  simp only [ne_eq, handlePacket_reset h, not_and]
  rw [← Bool.not_eq_true]
  constructor
  · intro hall hnewer
    exact hall _ hnewer rfl
  · intro hnewer reply hnewer'
    exact absurd hnewer' hnewer

end Transport

/-! ## Packets in flight between hosts -/

/-- A packet on its way between two hosts. -/
structure Flight (H : Type) where
  source : H
  target : H
  packet : Packet
  deriving DecidableEq, Repr

section Exchange

/- Each host has its transport; `links` are the links between the hosts. -/
variable {H : Type} (transports : H → Transport) (links : H → H → LinkId)

namespace Flight

/-- The packet that is in flight after a delivery, if there is one. -/
def answers (f : Flight H) : List (Flight H) :=
  match (transports f.target).handlePacket f.packet (links f.target f.source)
    (transports f.source).host with
  | .replied reply => [⟨f.target, f.source, reply⟩]
  | _ => []

/-- Whether the endpoint that a packet meets is newer than the packet. -/
def meetsNewer (f : Flight H) : Bool :=
  (transports f.target).isNewer f.packet.header.destPort f.packet.header.ts

/-- Whether a `Reset` in answer to a packet meets a newer endpoint. -/
def answerMeetsNewer (f : Flight H) : Bool :=
  (transports f.source).isNewer f.packet.header.sourcePort f.packet.header.ts

/-- Whether the port of a packet is unknown at its target. -/
def isStray (f : Flight H) : Bool :=
  !(transports f.target).isRegistered f.packet.header.destPort

/-- Both endpoints are newer than the packet. -/
def circulates (f : Flight H) : Bool := f.meetsNewer transports && f.answerMeetsNewer transports

/-- A packet that is accepted or dropped by its target. -/
def isFinal (f : Flight H) : Bool :=
  !f.meetsNewer transports && (f.packet.header.type == .reset || !f.isStray transports)

/-- A `Data` packet for an unknown port whose `Reset` meets a newer endpoint. -/
def isBounced (f : Flight H) : Bool :=
  f.packet.header.type == .data && f.isStray transports && f.answerMeetsNewer transports

/-- How many deliveries a packet and its answers take when it does not circulate. -/
def hops (f : Flight H) : ℕ :=
  if f.isFinal transports then 1 else if f.isBounced transports then 3 else 2

variable {transports} {f g : Flight H}

/-- Every answer is a `Reset` that leads back; there is none for a final packet only. -/
theorem mem_answers (hping : f.packet.header.type ≠ .ping) :
    g ∈ f.answers transports links ↔
      f.isFinal transports = false ∧ g = ⟨f.target, f.source, Replier.reset f.packet⟩ := by
  have hanswers : g ∈ f.answers transports links ↔ ∃ reply,
      (transports f.target).handlePacket f.packet (links f.target f.source)
        (transports f.source).host = .replied reply ∧ g = ⟨f.target, f.source, reply⟩ := by
    unfold answers
    split
    · rename_i reply hreply
      simp [hreply]
    · rename_i hnone
      simp only [List.not_mem_nil, false_iff, not_exists, not_and]
      intro reply hreply
      exact absurd hreply (hnone reply)
  rw [hanswers]
  cases htype : f.packet.header.type with
  | ping => exact absurd htype hping
  | reset =>
    simp only [Transport.handlePacket_reset htype, isFinal, meetsNewer, htype]
    simp
  | data =>
    simp only [Transport.handlePacket_data htype, isFinal, meetsNewer, isStray, htype]
    cases (transports f.target).isNewer f.packet.header.destPort f.packet.header.ts <;> simp

/-- What is delivered next after a packet that is not final. -/
theorem answers_eq (hping : f.packet.header.type ≠ .ping) :
    f.answers transports links
      = if f.isFinal transports then [] else [⟨f.target, f.source, Replier.reset f.packet⟩] := by
  have hshort : f.answers transports links = [] ∨ ∃ g, f.answers transports links = [g] := by
    unfold answers
    split
    · exact Or.inr ⟨_, rfl⟩
    · exact Or.inl rfl
  split
  · rename_i hfinal
    rw [List.eq_nil_iff_forall_not_mem]
    intro g hg
    obtain ⟨hnot, -⟩ := (mem_answers links hping).mp hg
    exact absurd (hnot.symm.trans hfinal) (by decide)
  · rename_i hfinal
    rw [Bool.not_eq_true] at hfinal
    have hmem := (mem_answers links hping).mpr ⟨hfinal, rfl⟩
    rcases hshort with hnil | ⟨g, hg⟩
    · rw [hnil] at hmem
      exact absurd hmem (List.not_mem_nil)
    · rw [hg] at hmem
      rw [hg, List.mem_singleton.mp hmem]

/-- A packet that circulates is answered by one that circulates. -/
theorem circulates_answer (f : Flight H) :
    (⟨f.target, f.source, Replier.reset f.packet⟩ : Flight H).circulates transports
      = f.circulates transports :=
  Bool.and_comm _ _

theorem isFinal_of_circulates (h : f.circulates transports = true) :
    f.isFinal transports = false := by
  rw [circulates, Bool.and_eq_true] at h
  rw [isFinal, h.1]
  rfl

theorem hops_pos (f : Flight H) : 0 < f.hops transports := by
  unfold hops
  split
  · decide
  · split <;> decide

/-- A delivery takes one hop off. -/
theorem hops_answers (hping : f.packet.header.type ≠ .ping)
    (hcirculates : f.circulates transports = false) :
    f.hops transports = ((f.answers transports links).map (hops transports)).sum + 1 := by
  rw [answers_eq links hping]
  by_cases hfinal : f.isFinal transports = true
  · rw [hops, if_pos hfinal, if_pos hfinal]
    rfl
  · rw [if_neg hfinal, List.map_singleton, List.sum_singleton]
    -- the answer is a reset: final unless it meets a newer endpoint
    have hanswer : (⟨f.target, f.source, Replier.reset f.packet⟩ : Flight H).hops transports
        = if f.answerMeetsNewer transports then 2 else 1 := by
      show (if (!f.answerMeetsNewer transports && _) = true then 1 else
        if (_ && _ && _) = true then 3 else 2) = _
      cases f.answerMeetsNewer transports <;> rfl
    rw [hanswer, hops, if_neg hfinal, isBounced]
    rw [circulates, Bool.and_eq_false_iff] at hcirculates
    rcases hcirculates with hmeets | hback
    · -- not answered by a newer endpoint, so it is data for an unknown port
      rw [isFinal, hmeets] at hfinal
      cases htype : f.packet.header.type with
      | ping => exact absurd htype hping
      | reset =>
        rw [htype] at hfinal
        exact absurd rfl hfinal
      | data =>
        rw [htype] at hfinal
        have hstray : f.isStray transports = true := by simpa using hfinal
        rw [hstray]
        cases f.answerMeetsNewer transports <;> rfl
    · rw [hback, Bool.and_false]
      rfl

end Flight

/-! ## Deliveries in any order -/

/-- One delivery, of the packet at a place of the list of those in flight. -/
def deliver (flying : List (Flight H)) (i : ℕ) : Outcome (List (Flight H)) :=
  match flying[i]? with
  | none => .error .undefined
  | some f => .ok (f.answers transports links ++ flying.eraseIdx i)

/-- The network is empty after at most `n` deliveries, whatever their order: as long as there
are packets in flight, fewer than `n` deliveries were made. -/
def EmptiesWithin (n : ℕ) (flying : List (Flight H)) : Prop :=
  ∀ (order : List ℕ) (flying' : List (Flight H)),
    order.foldlM (deliver transports links) flying = .ok flying' → flying' ≠ [] → order.length < n

/-- No packet circulates, and the packets that take three deliveries are not more than those
that take one. -/
def Settles (flying : List (Flight H)) : Prop :=
  (∀ f ∈ flying, f.circulates transports = false) ∧
    flying.countP (Flight.isBounced transports) ≤ flying.countP (Flight.isFinal transports)

variable {transports} {flying flying' : List (Flight H)}

/-- A delivery takes one packet out and puts its answers in. -/
theorem deliver_eq_ok {i : ℕ} (h : deliver transports links flying i = .ok flying') :
    ∃ f rest, (f :: rest).Perm flying ∧ flying' = f.answers transports links ++ rest := by
  unfold deliver at h
  split at h
  · exact absurd h (by simp)
  · rename_i f hf
    obtain rfl := Except.ok.inj h
    obtain ⟨hlt, rfl⟩ := List.getElem?_eq_some_iff.mp hf
    exact ⟨flying[i], flying.eraseIdx i, List.getElem_cons_eraseIdx_perm hlt, rfl⟩

/-- Packets that are neither pings nor circulate. -/
def Ending (transports : H → Transport) (flying : List (Flight H)) : Prop :=
  ∀ f ∈ flying, f.packet.header.type ≠ .ping ∧ f.circulates transports = false

/-- One delivery keeps the packets from circulating and takes one hop off. -/
theorem hops_deliver {i : ℕ} (hend : Ending transports flying)
    (h : deliver transports links flying i = .ok flying') :
    Ending transports flying' ∧
      (flying.map (Flight.hops transports)).sum
        = (flying'.map (Flight.hops transports)).sum + 1 := by
  obtain ⟨f, rest, hperm, rfl⟩ := deliver_eq_ok links h
  obtain ⟨hping, hcirculates⟩ := hend f (hperm.mem_iff.mp (List.mem_cons_self ..))
  constructor
  · intro g hg
    rcases List.mem_append.mp hg with hg | hg
    · obtain ⟨-, rfl⟩ := (Flight.mem_answers links hping).mp hg
      exact ⟨by simp [Replier.reset, Replier.reply], by rwa [Flight.circulates_answer]⟩
    · exact hend g (hperm.mem_iff.mp (List.mem_cons_of_mem _ hg))
  · rw [← (hperm.map _).sum_eq, List.map_cons, List.sum_cons, List.map_append, List.sum_append,
      Flight.hops_answers links hping hcirculates]
    omega

/-- Many deliveries take as many hops off. -/
theorem hops_run {order : List ℕ} (hend : Ending transports flying)
    (h : order.foldlM (deliver transports links) flying = .ok flying') :
    (flying.map (Flight.hops transports)).sum
      = (flying'.map (Flight.hops transports)).sum + order.length := by
  induction order generalizing flying with
  | nil =>
    obtain rfl : flying = flying' := Except.ok.inj h
    rfl
  | cons i order ih =>
    rw [List.foldlM_cons] at h
    obtain ⟨flying₁, hi, h⟩ := Outcome.bind_eq_ok.mp h
    obtain ⟨hend₁, hsum⟩ := hops_deliver links hend hi
    rw [hsum, ih hend₁ h, List.length_cons]
    omega

/-- As long as hops are left, deliveries can be made. -/
theorem exists_run {n : ℕ} (hend : Ending transports flying)
    (hn : n ≤ (flying.map (Flight.hops transports)).sum) :
    ∃ (order : List ℕ) (flying' : List (Flight H)),
      order.foldlM (deliver transports links) flying = .ok flying' ∧ order.length = n := by
  induction n generalizing flying with
  | zero => exact ⟨[], flying, rfl, rfl⟩
  | succ n ih =>
    cases flying with
    | nil => exact absurd hn (Nat.not_succ_le_zero n)
    | cons f rest =>
      have hfirst : deliver transports links (f :: rest) 0
          = .ok (f.answers transports links ++ rest) := rfl
      obtain ⟨hend₁, hsum⟩ := hops_deliver links hend hfirst
      obtain ⟨order, flying', hrun, hlen⟩ := ih hend₁ (by omega)
      refine ⟨0 :: order, flying', ?_, by rw [List.length_cons, hlen]⟩
      rw [List.foldlM_cons, hfirst]
      exact hrun

/-- A packet that circulates is delivered forever. -/
theorem exists_run_of_circulates (hping : ∀ f ∈ flying, f.packet.header.type ≠ .ping)
    (h : ∃ f ∈ flying, f.circulates transports = true) (n : ℕ) :
    ∃ (order : List ℕ) (flying' : List (Flight H)),
      order.foldlM (deliver transports links) flying = .ok flying' ∧ order.length = n ∧
        flying' ≠ [] := by
  induction n generalizing flying with
  | zero =>
    obtain ⟨f, hf, -⟩ := h
    exact ⟨[], flying, rfl, rfl, List.ne_nil_of_mem hf⟩
  | succ n ih =>
    obtain ⟨f, hf, hcirculates⟩ := h
    obtain ⟨i, hi⟩ := List.mem_iff_getElem?.mp hf
    have hfirst : deliver transports links flying i
        = .ok (f.answers transports links ++ flying.eraseIdx i) := by
      rw [deliver, hi]
    have hmem := (Flight.mem_answers links (hping f hf)).mpr
      ⟨Flight.isFinal_of_circulates hcirculates, rfl⟩
    obtain ⟨order, flying', hrun, hlen, hne⟩ := ih
      (show ∀ g ∈ f.answers transports links ++ flying.eraseIdx i, _ from fun g hg => by
        rcases List.mem_append.mp hg with hg | hg
        · obtain ⟨-, rfl⟩ := (Flight.mem_answers links (hping f hf)).mp hg
          simp [Replier.reset, Replier.reply]
        · exact hping g (List.mem_of_mem_eraseIdx hg))
      ⟨_, List.mem_append_left _ hmem, by rwa [Flight.circulates_answer]⟩
    refine ⟨i :: order, flying', ?_, by rw [List.length_cons, hlen], hne⟩
    rw [List.foldlM_cons, hfirst]
    exact hrun

variable (transports) in
/-- Twice the packets in flight, corrected by those that take one or three deliveries. -/
theorem sum_hops (flying : List (Flight H)) :
    (flying.map (Flight.hops transports)).sum + flying.countP (Flight.isFinal transports)
      = 2 * flying.length + flying.countP (Flight.isBounced transports) := by
  induction flying with
  | nil => rfl
  | cons f rest ih =>
    have hboth : f.isFinal transports = true → f.isBounced transports = false := by
      intro hfinal
      rw [Flight.isFinal] at hfinal
      rw [Flight.isBounced]
      cases htype : f.packet.header.type with
      | data =>
        rw [htype] at hfinal
        have hstray : f.isStray transports = false := by
          simp only [Bool.and_eq_true, Bool.or_eq_true, Bool.not_eq_true'] at hfinal
          exact hfinal.2.resolve_left (by decide)
        rw [hstray]
        simp
      | reset => rfl
      | ping => rfl
    rw [List.map_cons, List.sum_cons, List.countP_cons, List.countP_cons, List.length_cons,
      Flight.hops]
    by_cases hfinal : f.isFinal transports = true
    · rw [if_pos hfinal, if_pos hfinal, hboth hfinal]
      simp only [Bool.false_eq_true, if_false]
      omega
    · rw [if_neg hfinal, if_neg hfinal]
      by_cases hbounced : f.isBounced transports = true
      · rw [if_pos hbounced, if_pos hbounced]
        omega
      · rw [if_neg hbounced, if_neg hbounced]
        omega

/-- The packets in flight are gone after twice as many deliveries exactly when they settle. -/
theorem emptiesWithin_iff (hping : ∀ f ∈ flying, f.packet.header.type ≠ .ping) :
    EmptiesWithin transports links (2 * flying.length) flying ↔ Settles transports flying := by
  have hsum := sum_hops transports flying
  constructor
  · intro hempties
    have hcirculates : ∀ f ∈ flying, f.circulates transports = false := by
      by_contra hsome
      simp only [not_forall, Bool.not_eq_false] at hsome
      obtain ⟨f, hf, hcirculates⟩ := hsome
      obtain ⟨order, flying', hrun, hlen, hne⟩ := exists_run_of_circulates links hping
        ⟨f, hf, hcirculates⟩ (2 * flying.length)
      exact absurd (hempties order flying' hrun hne) (by omega)
    refine ⟨hcirculates, ?_⟩
    by_contra hmore
    -- otherwise hops are left after that many deliveries
    have hend : Ending transports flying := fun f hf => ⟨hping f hf, hcirculates f hf⟩
    obtain ⟨order, flying', hrun, hlen⟩ := exists_run links hend
      (show 2 * flying.length ≤ _ by omega)
    have hleft := hops_run links hend hrun
    have hne : flying' ≠ [] := by
      rintro rfl
      simp only [List.map_nil, List.sum_nil] at hleft
      omega
    exact absurd (hempties order flying' hrun hne) (by omega)
  · rintro ⟨hcirculates, hcount⟩ order flying' hrun hne
    have hend : Ending transports flying := fun f hf => ⟨hping f hf, hcirculates f hf⟩
    have hleft := hops_run links hend hrun
    cases flying' with
    | nil => exact absurd rfl hne
    | cons g rest =>
      have hpos : 0 < g.hops transports := Flight.hops_pos g
      rw [List.map_cons, List.sum_cons] at hleft
      omega

end Exchange

/-- **When resets end an exchange.**  A `Reset` provokes no answer exactly when the endpoint at
its port is not newer; and packets other than pings are gone after twice as many
deliveries exactly when none of them circulates between two newer endpoints and those
that are bounced are not more than those that are final. -/
theorem reset_unanswered_and_emptiesWithin_iff {H : Type} (transports : H → Transport)
    (links : H → H → LinkId) :
    (∀ (host : H) (packet : Packet) (out : LinkId) (fromHost : HostName),
      packet.header.type = .reset →
        ((∀ reply, (transports host).handlePacket packet out fromHost ≠ .replied reply) ↔
          (transports host).isNewer packet.header.destPort packet.header.ts = false)) ∧
    ∀ flying : List (Flight H), (∀ f ∈ flying, f.packet.header.type ≠ .ping) →
      (EmptiesWithin transports links (2 * flying.length) flying ↔ Settles transports flying) := by
  constructor
  · intro host packet out fromHost hreset
    exact Transport.reset_unanswered_iff hreset
  · intro flying hping
    exact emptiesWithin_iff links hping

/-! ## Two hosts after a reboot -/

/-- Two hosts whose port 1 was registered at step 5. -/
def rebooted (host : Bool) : Transport where
  host := if host then "Server-1" else "Server-2"
  endpoints := fun port => if port = 1 then some ⟨0, 5⟩ else none

/-- A reset of a connection between the two ports that began at step `ts`. -/
def resetOf (ts : ℕ) : Packet := ⟨⟨.reset, 1, 1, ts⟩, resetMessage, .client ⟨0, 0, 1, 1, ts⟩⟩

/-- A packet of such a connection with data for port 2, which nobody serves. -/
def strayData : Packet := ⟨⟨.data, 1, 2, 0⟩, [], .client ⟨0, 0, 1, 2, 0⟩⟩

/-- A reset that is as old as the endpoints is not answered, and takes one delivery; the stray
packet is answered with a reset, which is answered in its turn, and takes three.  Together
these are twice the packets in flight, and with a second stray packet they would not be. -/
theorem reset_unanswered_and_emptiesWithin_iff_fresh :
    (∀ reply, (rebooted true).handlePacket (resetOf 5) 0 "Server-2" ≠ .replied reply) ∧
      EmptiesWithin rebooted (fun _ _ => 0) 4
        [⟨true, false, resetOf 5⟩, ⟨true, false, strayData⟩] ∧
      ¬ EmptiesWithin rebooted (fun _ _ => 0) 6
        [⟨true, false, resetOf 5⟩, ⟨true, false, strayData⟩, ⟨false, true, strayData⟩] := by
  obtain ⟨hone, hall⟩ := reset_unanswered_and_emptiesWithin_iff rebooted fun _ _ => 0
  refine ⟨(hone true (resetOf 5) 0 "Server-2" rfl).mpr (by decide), ?_, ?_⟩
  · refine (hall [⟨true, false, resetOf 5⟩, ⟨true, false, strayData⟩] ?_).mpr ⟨?_, ?_⟩
    all_goals decide
  · intro hempties
    have hsettles := (hall [⟨true, false, resetOf 5⟩, ⟨true, false, strayData⟩,
      ⟨false, true, strayData⟩] (by decide)).mp hempties
    exact absurd hsettles.2 (by decide)

/-- A reset that is older than the endpoints is answered with a reset, and so is the answer. -/
theorem not_reset_unanswered_of_rebooted :
    (¬ ∀ (transport : Transport) (packet : Packet) (out : LinkId) (fromHost : HostName),
      packet.header.type = .reset →
        ∀ reply, transport.handlePacket packet out fromHost ≠ .replied reply) ∧
    ¬ ∀ (H : Type) (transports : H → Transport) (links : H → H → LinkId) (flying : List (Flight H)),
      (∀ f ∈ flying, f.packet.header.type ≠ .ping) →
        EmptiesWithin transports links (2 * flying.length) flying := by
  constructor
  · intro hall
    exact hall (rebooted true) (resetOf 0) 0 "Server-2" rfl (Replier.reset (resetOf 0)) rfl
  · intro hall
    have hempties := hall Bool rebooted (fun _ _ => 0) [⟨true, false, resetOf 0⟩] fun f hf => by
      rw [List.mem_singleton.mp hf]
      decide
    exact absurd (hempties [0, 0] _ rfl (List.cons_ne_nil _ _)) (by decide)

end Whirl.Net
