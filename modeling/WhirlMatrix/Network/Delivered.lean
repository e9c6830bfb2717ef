/-
# Nothing is lost on the way

A frame leaves a link only when `Network::Step` delivers it: sending, pausing,
resuming, splitting and healing keep every frame that is under way.  And the two
one-way links between a pair of servers are each other's opposites, so that an answer
comes back on the link on which the next answer will leave.
-/
import WhirlMatrix.Network.Transport

namespace Whirl.Net

namespace Network

variable {net net' net'' : Network} {l : LinkId} {link : Link}

/-! ## Operations that lose nothing -/

/-- Everything that is on the way in `net` is on the way in `net'`, between the same servers. -/
structure Keeps (net net' : Network) : Prop where
  servers : net'.servers = net.servers
  ends : ∀ l, net'.ends l = net.ends l
  inFlight : ∀ l frame, net.InFlight l frame → net'.InFlight l frame

theorem Keeps.refl (net : Network) : Keeps net net := ⟨rfl, fun _ => rfl, fun _ _ h => h⟩

theorem Keeps.trans (h : Keeps net net') (h' : Keeps net' net'') : Keeps net net'' where
  servers := h'.servers.trans h.servers
  ends l := (h'.ends l).trans (h.ends l)
  inFlight l frame hframe := h'.inFlight l frame (h.inFlight l frame hframe)

theorem inFlight_setLink_of_ne {link' : Link} {l' : LinkId} {frame : Frame} (hne : l ≠ l')
    (h : net.InFlight l' frame) : (net.setLink l link').InFlight l' frame := by
  obtain ⟨link'', hlink'', hf⟩ := h
  exact ⟨link'', by rw [getElem?_setLink_ne net hne, hlink''], hf⟩

/-- A link is replaced by one with the same ends and the same frames. -/
theorem Keeps.setLink (hlink : net.links[l]? = some link) {link' : Link}
    (hends : link'.ends = link.ends) (hframes : link'.frames = link.frames) :
    Keeps net (net.setLink l link') := by
  have hquiet : Quiet net (net.setLink l link') :=
    Quiet.setLink hlink hends fun f hf => by rwa [hframes] at hf
  refine ⟨hquiet.servers, hquiet.ends, fun l' frame h => ?_⟩
  by_cases hne : l = l'
  · subst hne
    obtain ⟨link'', hlink'', f, hf, hframe⟩ := h
    obtain rfl := Option.some.inj (hlink.symm.trans hlink'')
    refine ⟨link', getElem?_setLink hlink link', f, ?_, hframe⟩
    rwa [hframes]
  · exact inFlight_setLink_of_ne hne h

/-- A frame that is sent joins those that are on the way. -/
theorem keeps_addFrame (net : Network) (l : LinkId) (frame : Frame) (d : ℕ) :
    Keeps net (net.addFrame l frame d) where
  servers := rfl
  ends := ends_addFrame net l frame d
  inFlight l' frame' h := by
    obtain ⟨link', hlink', f, hf, hframe'⟩ := h
    refine ⟨_, by rw [addFrame, List.getElem?_modify, hlink']; rfl, f, ?_, hframe'⟩
    split
    · exact List.mem_cons_of_mem _ hf
    · exact hf

theorem inFlight_addFrame_self {frame : Frame} {d : ℕ} (hlink : net.links[l]? = some link) :
    (net.addFrame l frame d).InFlight l frame := by
  refine ⟨_, by rw [addFrame, List.getElem?_modify, hlink]; rfl, ⟨frame, d⟩, ?_, rfl⟩
  dsimp only
  rw [if_pos rfl]
  exact List.mem_cons_self ..

/-- `Link::Add` loses nothing, and puts its packet on the link. -/
theorem keeps_add {packet : Packet} {now flightTime : ℕ}
    (h : net.add l packet now flightTime = .ok net') :
    Keeps net net' ∧ ∃ frame, frame.packet = packet ∧ net'.InFlight l frame := by
  obtain ⟨link, hlink, rfl⟩ := add_eq_ok h
  exact ⟨keeps_addFrame net l _ _, link.makeFrame packet now, rfl, inFlight_addFrame_self hlink⟩

/-! ## Faults -/

theorem keeps_pause (h : net.pause l = .ok net') : Keeps net net' := by
  obtain ⟨link, hlink, -, rfl⟩ := pause_eq_ok h
  exact Keeps.setLink hlink (by rfl) rfl

/-- Induction on the turns of the loop: the frame that a turn takes off the link is sent
again on it. -/
theorem keeps_resumeLoop {now tests : ℕ} (h : resumeLoop now l tests net = .ok net') :
    Keeps net net' := by
  induction tests generalizing net with
  | zero => exact absurd h (by simp [resumeLoop])
  | succ tests ih =>
    obtain ⟨link, f, hlink, -, ⟨-, rfl⟩ | ⟨-, q, hextract, h⟩⟩ := resumeLoop_succ h
    · exact Keeps.refl _
    · have hperm := PriorityQueue.extract_perm hextract
      have hset := getElem?_setLink hlink { link with frames := q }
      have hends : ∀ l', (net.setLink l { link with frames := q }).ends l' = net.ends l' :=
        (Quiet.setLink hlink (by rfl) fun f' hf' =>
          hperm.mem_iff.mp (List.mem_cons_of_mem _ hf')).ends
      have hturn : Keeps net
          ((net.setLink l { link with frames := q }).addFrame l f.frame (addTime now 1)) := by
        refine ⟨rfl, fun l' => (ends_addFrame _ l _ _ l').trans (hends l'), fun l' frame hf => ?_⟩
        by_cases hne : l = l'
        · subst hne
          obtain ⟨link', hlink', f', hf', rfl⟩ := hf
          obtain rfl := Option.some.inj (hlink.symm.trans hlink')
          rcases List.mem_cons.mp (hperm.mem_iff.mpr hf') with rfl | hf'
          · exact inFlight_addFrame_self hset
          · exact (keeps_addFrame _ l _ _).inFlight l _ ⟨_, hset, f', hf', rfl⟩
        · exact (keeps_addFrame _ l _ _).inFlight l' frame (inFlight_setLink_of_ne hne hf)
      exact hturn.trans (ih h)

theorem keeps_resume {now : ℕ} (h : net.resume l now = .ok net') : Keeps net net' := by
  obtain ⟨link, hlink, ⟨-, rfl⟩ | ⟨-, hrest⟩⟩ := resume_eq_ok h
  · exact Keeps.refl _
  · have hset : Keeps net (net.setLink l { link with paused := false }) :=
      Keeps.setLink hlink (by rfl) rfl
    rcases hrest with ⟨-, rfl⟩ | hloop
    · exact hset
    · exact hset.trans (keeps_resumeLoop hloop)

theorem keeps_pauseLink {start stop : HostName} (h : net.pauseLink start stop = .ok net') :
    Keeps net net' := by
  obtain ⟨l, -, h⟩ := Outcome.bind_eq_ok.mp h
  exact keeps_pause h

theorem keeps_resumeLink {start stop : HostName} {now : ℕ}
    (h : net.resumeLink start stop now = .ok net') : Keeps net net' := by
  obtain ⟨l, -, h⟩ := Outcome.bind_eq_ok.mp h
  exact keeps_resume h

theorem keeps_split {lhs : Partition} (h : net.split lhs = .ok net') : Keeps net net' :=
  split_induction (I := Keeps net) h (Keeps.refl net)
    fun _ _ _ hI h => hI.trans (keeps_pause h)

theorem keeps_heal {now : ℕ} (h : net.heal now = .ok net') : Keeps net net' :=
  heal_induction (I := Keeps net) h (Keeps.refl net)
    fun _ _ _ hI h => hI.trans (keeps_resume h)

/-! ## Steps -/

/-- A step loses only the frame that it delivers, to the end of its link. -/
theorem delivered_of_step {delivery : Option Delivery} (h : net.step = .ok (net', delivery))
    {l : LinkId} {frame : Frame} (hframe : net.InFlight l frame) :
    net'.InFlight l frame ∨ ∃ ends, net.ends l = some ends ∧
      delivery = some ⟨frame.packet, ends.stop, ends.opposite⟩ := by
  obtain ⟨e, events, link, -, hlink, ⟨-, rfl, -⟩ | ⟨-, f, frames, hextract, -, rfl, rfl⟩⟩ :=
    step_eq_ok h
  · exact Or.inl hframe
  · have hperm := PriorityQueue.extract_perm hextract
    have hlink' : ({ net with events := events } : Network).links[e.link]? = some link := hlink
    by_cases hne : e.link = l
    · subst hne
      obtain ⟨link', hlink'', f', hf', rfl⟩ := hframe
      obtain rfl := Option.some.inj (hlink.symm.trans hlink'')
      rcases List.mem_cons.mp (hperm.mem_iff.mpr hf') with rfl | hf'
      · exact Or.inr ⟨_, ends_eq hlink, rfl⟩
      · exact Or.inl ⟨_, getElem?_setLink hlink' _, f', hf', rfl⟩
    · have hframe : ({ net with events := events } : Network).InFlight l frame := hframe
      exact Or.inl (inFlight_setLink_of_ne hne hframe)

/-! ## Opposite links -/

/-- Two links between two servers that are each other's opposites. -/
structure Mated (net : Network) (l o : LinkId) (a b : IServer) : Prop where
  there : net.ends l = some ⟨a, b, some o⟩
  back : net.ends o = some ⟨b, a, some l⟩

theorem Mated.congr {o : LinkId} {a b : IServer} (h : net.Mated l o a b)
    (hends : ∀ l, net'.ends l = net.ends l) : net'.Mated l o a b where
  there := by rw [hends, h.there]
  back := by rw [hends, h.back]

/-- What the link is told as its opposite is the other one of the two. -/
theorem Mated.eq_of_opposite {l o out : LinkId} {a b : IServer} (h : net.Mated l o a b)
    {ends : LinkEnds} (hends : net.ends l = some ends) (hout : ends.opposite = some out) :
    ends = ⟨a, b, some o⟩ ∧ out = o := by
  obtain rfl := Option.some.inj (h.there.symm.trans hends)
  exact ⟨rfl, (Option.some.inj hout).symm⟩

theorem Mated.symm {l o : LinkId} {a b : IServer} (h : net.Mated l o a b) : net.Mated o l b a :=
  ⟨h.back, h.there⟩

/-- All pairs of servers have such links. -/
def Paired (net : Network) : Prop :=
  ∀ i j a b, net.servers[i]? = some a → net.servers[j]? = some b →
    net.Mated (net.getLinkIndex i j) (net.getLinkIndex j i) a b

theorem Keeps.paired (h : Keeps net net') (hpaired : net.Paired) : net'.Paired := by
  intro i j a b ha hb
  rw [h.servers] at ha hb
  have hmated := (hpaired i j a b ha hb).congr h.ends
  rwa [getLinkIndex, getLinkIndex, h.servers]

/-- Pairs of servers have different indices. -/
theorem getLinkIndex_inj {i j i' j' : ℕ} (hj : j < net.servers.length)
    (hj' : j' < net.servers.length) (h : net.getLinkIndex i j = net.getLinkIndex i' j') :
    i = i' ∧ j = j' := by
  rw [getLinkIndex, getLinkIndex] at h
  have hpos : 0 < net.servers.length := Nat.lt_of_le_of_lt (Nat.zero_le j) hj
  have hrow := congrArg (· / net.servers.length) h
  have hcolumn := congrArg (· % net.servers.length) h
  simp only [Nat.mul_comm _ net.servers.length, Nat.mul_add_div hpos, Nat.mul_add_mod,
    Nat.div_eq_of_lt hj, Nat.div_eq_of_lt hj', Nat.mod_eq_of_lt hj, Nat.mod_eq_of_lt hj',
    Nat.add_zero] at hrow hcolumn
  exact ⟨hrow, hcolumn⟩

/-- The opposite that a link has is the right one. -/
theorem opposite_buildLinks (servers : List IServer) :
    (({ servers := servers } : Network).buildLinks).servers = servers ∧
      ∀ i j a b, servers[i]? = some a → servers[j]? = some b →
        ∃ o, (({ servers := servers } : Network).buildLinks).ends (i * servers.length + j)
            = some ⟨a, b, o⟩ ∧ (o = none ∨ o = some (j * servers.length + i)) := by
  refine buildLinks_induction (P := fun net => net.servers = servers ∧
    ∀ i j a b, servers[i]? = some a → servers[j]? = some b →
      ∃ o, net.ends (i * servers.length + j) = some ⟨a, b, o⟩ ∧
        (o = none ∨ o = some (j * servers.length + i))) ⟨rfl, ?_⟩ ?_
  · intro i j a b hi hj
    exact ⟨none, ends_of_allPairs (List.nil_append _) hi hj, Or.inl rfl⟩
  · rintro net i j - hi hj ⟨hservers, hends⟩
    refine ⟨hservers, fun i' j' a b ha hb => ?_⟩
    have hj' : j' < servers.length := (List.getElem?_eq_some_iff.mp hb).1
    obtain ⟨o, ho, hopposite⟩ := hends i' j' a b ha hb
    rw [ends_setOpposite, ho, Option.map_some]
    split
    · rename_i hsame
      have hsame : net.getLinkIndex i j = net.getLinkIndex i' j' := by
        rw [hsame, getLinkIndex, hservers]
      obtain ⟨rfl, rfl⟩ := getLinkIndex_inj (by rwa [hservers]) (by rwa [hservers]) hsame
      exact ⟨_, rfl, Or.inr (by rw [getLinkIndex, hservers])⟩
    · exact ⟨o, rfl, hopposite⟩

/-- Link `l` has an opposite. -/
def HasOpposite (net : Network) (l : LinkId) : Prop :=
  ∀ e, net.ends l = some e → e.opposite ≠ none

theorem hasOpposite_setOpposite_self (net : Network) (l opposite : LinkId) :
    (net.setOpposite l opposite).HasOpposite l := by
  intro e he
  rw [ends_setOpposite, Option.map_eq_some_iff] at he
  obtain ⟨e', -, rfl⟩ := he
  simp

theorem HasOpposite.setOpposite (h : net.HasOpposite l) (l' opposite : LinkId) :
    (net.setOpposite l' opposite).HasOpposite l := by
  intro e he
  rw [ends_setOpposite, Option.map_eq_some_iff] at he
  obtain ⟨e', he', rfl⟩ := he
  split
  · simp
  · exact h e' he'

/-- The links between the servers `i` and `j`. -/
def IsBetween (net : Network) (i j : ℕ) (l : LinkId) : Prop :=
  l = net.getLinkIndex i j ∨ l = net.getLinkIndex j i

/-- The body of the loop of `BuildLinks` over `j`. -/
theorem hasOpposite_of_isBetween {i j : ℕ} (h : net.IsBetween i j l) :
    ((net.setOpposite (net.getLinkIndex i j) (net.getLinkIndex j i)).setOpposite
      (net.getLinkIndex j i) (net.getLinkIndex i j)).HasOpposite l := by
  rcases h with rfl | rfl
  · exact (hasOpposite_setOpposite_self net _ _).setOpposite _ _
  · exact hasOpposite_setOpposite_self _ _ _

/-- The loop over `j ≥ i` comes to each such `j`. -/
theorem hasOpposite_row {i j : ℕ} (hle : i ≤ j) (hj : j < net.servers.length)
    (h : net.IsBetween i j l) :
    ((List.range' i (net.servers.length - i)).foldl (fun net j =>
      (net.setOpposite (net.getLinkIndex i j) (net.getLinkIndex j i)).setOpposite
        (net.getLinkIndex j i) (net.getLinkIndex i j)) net).HasOpposite l := by
  have hmem : j ∈ List.range' i (net.servers.length - i) := by
    rw [List.mem_range'_1]
    omega
  refine Runs.foldl_establishes (I := fun net' : Network => net'.servers = net.servers)
    (P := fun net' : Network => net'.HasOpposite l) hmem rfl (fun _ _ h => h) ?_ ?_
  · intro net' hservers
    apply hasOpposite_of_isBetween
    rwa [IsBetween, getLinkIndex, getLinkIndex, hservers]
  · intro net' j' _ hnet'
    exact (hnet'.setOpposite _ _).setOpposite _ _

/-- Every link gets an opposite. -/
theorem hasOpposite_buildLinks {i j : ℕ} (hle : i ≤ j) (hj : j < net.servers.length)
    (h : net.IsBetween i j l) : net.buildLinks.HasOpposite l := by
  have hmem : i ∈ List.range net.servers.length := by
    rw [List.mem_range]
    omega
  have hrow : ∀ (net' : Network) (i' : ℕ), ((List.range' i' (net'.servers.length - i')).foldl
      (fun net j => (net.setOpposite (net.getLinkIndex i' j) (net.getLinkIndex j i')).setOpposite
        (net.getLinkIndex j i') (net.getLinkIndex i' j)) net').servers = net'.servers := by
    intro net' i'
    exact List.foldlRecOn (motive := fun net'' : Network => net''.servers = net'.servers) _ _ rfl
      fun _ h _ _ => h
  refine Runs.foldl_establishes (I := fun net' : Network => net'.servers = net.servers)
    (P := fun net' : Network => net'.HasOpposite l) hmem rfl ?_ ?_ ?_
  · intro net' i' hservers
    exact (hrow net' i').trans hservers
  · intro net' hservers
    refine hasOpposite_row hle (by rwa [hservers]) ?_
    rwa [IsBetween, getLinkIndex, getLinkIndex, hservers]
  · intro net' i' _ hnet'
    exact List.foldlRecOn (motive := fun net'' : Network => net''.HasOpposite l) _ _ hnet'
      fun _ h _ _ => (h.setOpposite _ _).setOpposite _ _

/-- **`BuildLinks` pairs the links**: there and back between any two servers. -/
theorem paired_buildLinks (servers : List IServer) :
    (({ servers := servers } : Network).buildLinks).Paired := by
  obtain ⟨hservers, hopposite⟩ := opposite_buildLinks servers
  have hexists : ∀ i j a b, servers[i]? = some a → servers[j]? = some b →
      (({ servers := servers } : Network).buildLinks).ends (i * servers.length + j)
        = some ⟨a, b, some (j * servers.length + i)⟩ := by
    intro i j a b ha hb
    obtain ⟨o, hends, hcases⟩ := hopposite i j a b ha hb
    have hi : i < servers.length := (List.getElem?_eq_some_iff.mp ha).1
    have hj : j < servers.length := (List.getElem?_eq_some_iff.mp hb).1
    have hhas : (({ servers := servers } : Network).buildLinks).HasOpposite
        (i * servers.length + j) := by
      rcases Nat.le_total i j with hle | hle
      · exact hasOpposite_buildLinks hle hj (Or.inl rfl)
      · exact hasOpposite_buildLinks hle hi (Or.inr rfl)
    rcases hcases with rfl | rfl
    · exact absurd rfl (hhas _ hends)
    · exact hends
  intro i j a b ha hb
  rw [hservers] at ha hb
  rw [getLinkIndex, getLinkIndex, hservers]
  exact ⟨hexists i j a b ha hb, hexists j i b a hb ha⟩

end Network

end Whirl.Net
