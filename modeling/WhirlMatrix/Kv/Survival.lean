/-
# What the adversaries leave alive

Whatever the nodes, the clients and the three adversaries do in whatever order, a majority of
the replicas is alive, at most one server is frozen, the links are open unless a star is being
made of the pool, and no fault that an adversary injects fails.
-/
import WhirlMatrix.Kv.Adversaries

namespace Whirl

open Net Fault

/-! ## Pools -/

namespace WorldSetup

variable {w : WorldSetup} {place : Place}

/-- `FindServer` finds the servers of a pool. -/
theorem Numbered.findServer (h : w.Numbered) {name : String} {server : IServer}
    (hserver : server ∈ w.serversAt (.pool name)) : w.findServer server.hostName = some server := by
  obtain ⟨found, hfound⟩ := exists_findServer hserver
  obtain ⟨hname, name', hpool⟩ := findServer_eq_some hfound
  obtain ⟨heq, rfl⟩ := h.eq_of_hostName_eq hpool hserver hname
  exact hfound

/-- The number of a server tells its place. -/
theorem Numbered.eq_of_id_eq (h : w.Numbered) {place' : Place} {server server' : IServer}
    (hserver : server ∈ w.serversAt place) (hserver' : server' ∈ w.serversAt place')
    (heq : server.id = server'.id) : place = place' ∧ server = server' := by
  have hsame := h.registered place server hserver
  rw [heq, h.registered place' server' hserver'] at hsame
  obtain rfl := Option.some.inj hsame
  exact h.eq_of_hostName_eq hserver hserver' rfl

theorem Numbered.nodup_hostNames (h : w.Numbered) (place : Place) :
    ((w.serversAt place).map IServer.hostName).Nodup := by
  rw [List.nodup_iff_getElem?_ne_getElem?]
  intro i j hij hj heq
  rw [List.length_map] at hj
  rw [List.getElem?_map, List.getElem?_map, List.getElem?_eq_getElem (by omega),
    List.getElem?_eq_getElem hj, Option.map_some, Option.map_some] at heq
  have hname := Option.some.inj heq
  rw [h.hostName place i _ (List.getElem?_eq_getElem (by omega)),
    h.hostName place j _ (List.getElem?_eq_getElem hj)] at hname
  have hindex := (makeServerName_inj hname).2
  omega

/-- The servers at a place after some more were added to a place. -/
theorem length_serversAt_addToPool (w : WorldSetup) (place place' : Place) (template : String)
    (count : ℕ) :
    (((List.range count).foldl (fun w _ => w.addToPool place template) w).serversAt place').length
      = (w.serversAt place').length + if place' = place then count else 0 := by
  induction count with
  | zero => simp
  | succ count ih =>
    rw [List.range_succ, List.foldl_append, List.foldl_cons, List.foldl_nil, serversAt_addToPool]
    split
    · rename_i heq
      subst heq
      rw [List.length_append, ih, if_pos rfl]
      rfl
    · rename_i hne
      rw [ih, if_neg hne]

end WorldSetup

namespace Kv

namespace Parameters

variable {p : Parameters}

theorem numbered_setup (p : Parameters) : p.setup.Numbered := WorldSetup.numbered_setup _

/-- Adversaries do not join the pool. -/
theorem serversAt_addAdversaries (w : WorldSetup) (programs : List Adversary) (name : String) :
    ((programs.map fun _ => WorldSetup.Call.addAdversary).foldl WorldSetup.execute w).serversAt
      (.pool name) = w.serversAt (.pool name) := by
  induction programs generalizing w with
  | nil => rfl
  | cons program programs ih =>
    rw [List.map_cons, List.foldl_cons, ih]
    exact (WorldSetup.serversAt_addToPool w .adversaries "Adversary" _).trans (if_neg (by simp))

theorem length_pool (p : Parameters) : p.pool.length = p.replicas := by
  rw [pool, setup, WorldSetup.setup, List.foldl_append, serversAt_addAdversaries]
  have hclients := WorldSetup.length_serversAt_addToPool
    (WorldSetup.execute {} (.makePool "kv" p.replicas)) .clients (.pool "kv") "Client" p.clients
  have hreplicas := WorldSetup.length_serversAt_addToPool
    { pools := Std.ExtTreeMap.insertIfNew ∅ "kv" [] } (.pool "kv") (.pool "kv")
    (makeNameTemplate "kv") p.replicas
  rw [if_neg (by simp)] at hclients
  rw [if_pos rfl] at hreplicas
  exact (hclients.trans hreplicas).trans (Nat.zero_add _)

theorem getPool_eq (p : Parameters) : p.setup.getPool "kv" = p.pool.map IServer.hostName := rfl

/-- The pool does not have a server twice. -/
theorem nodup_pool (p : Parameters) : p.pool.Nodup :=
  List.Nodup.of_map _ (p.numbered_setup.nodup_hostNames (.pool "kv"))

end Parameters

namespace Simulation

variable {p : Parameters} {randomNumber : ℕ → ℕ → RandomSource → ℕ × RandomSource}
  {s s' : Simulation} {w w' : World}

/-! ## The invariant -/

/-- The links between hosts of a pool other than the center of a star. -/
def IsRay (net : Network) (hosts : List HostName) (center : HostName) (l : LinkId) : Prop :=
  ∃ a ∈ hosts, ∃ b ∈ hosts, a ≠ center ∧ b ≠ center ∧ net.getLink a b = .ok l

/-- The number of replicas that have crashed. -/
def crashed (p : Parameters) (w : World) : ℕ :=
  p.pool.countP fun server => w.stateAt server.id == some .crashed

/-- All servers were launched, and those out of the pool run. -/
structure Intact (p : Parameters) (w : World) : Prop where
  linked : w.network.Linked
  servers : w.network.servers = p.setup.world.network.servers
  launched : ∀ place, ∀ server ∈ p.setup.serversAt place,
    ∃ state, w.stateAt server.id = some state ∧ state ≠ .initial
  others : ∀ place, place ≠ .pool "kv" → ∀ server ∈ p.setup.serversAt place,
    w.stateAt server.id = some .running

end Simulation

/-- The host in the center of the star. -/
def NetAdversary.center (hosts : List HostName) : NetAdversary → Option HostName
  | star center => hosts[center]?
  | _ => none

/-- The server that is frozen. -/
def NodeAdversary.victim : NodeAdversary → Option IServer
  | freeze victim => some victim
  | _ => none

/-- The number of crashes that may still come. -/
def NodeReaper.left (bound : ℕ) : NodeReaper → ℕ
  | start => bound
  | pause crashes i => crashes - i
  | done => 0

namespace Simulation

variable {p : Parameters} {randomNumber : ℕ → ℕ → RandomSource → ℕ × RandomSource}
  {s s' : Simulation} {w w' : World}

/-- What holds whenever no adversary makes a step. -/
structure Holds (p : Parameters) (s : Simulation) : Prop where
  intact : Intact p s.world
  victim : ∀ victim ∈ s.node.victim, victim ∈ p.pool
  paused : ∀ i, s.world.stateAt i = some .paused → ∃ victim ∈ s.node.victim, victim.id = i
  crashes : crashed p s.world + s.reaper.left (crashBound p.replicas) ≤ crashBound p.replicas
  turns : ∀ crashes i, s.reaper = .pause crashes i → i < crashes
  links : ∀ l, s.world.network.isPaused l = true ↔
    ∃ c ∈ s.net.center (p.setup.getPool "kv"),
      IsRay s.world.network (p.setup.getPool "kv") c l

/-! ## Worlds in the same condition -/

/-- `GetLink` reads the fixed part of a network. -/
theorem getLink_eq {net net' : Network} (hservers : net'.servers = net.servers)
    (hends : ∀ l, net'.ends l = net.ends l) (a b : HostName) :
    net'.getLink a b = net.getLink a b := by
  apply Network.getLink_congr hservers
  have hmap : net'.links.map Link.ends = net.links.map Link.ends := by
    apply List.ext_getElem?
    intro l
    rw [List.getElem?_map, List.getElem?_map]
    exact hends l
  rw [← List.length_map Link.ends, hmap, List.length_map]

theorem isRay_congr {net net' : Network} (hservers : net'.servers = net.servers)
    (hends : ∀ l, net'.ends l = net.ends l) {hosts : List HostName} {c : HostName} {l : LinkId} :
    IsRay net' hosts c l ↔ IsRay net hosts c l := by
  simp only [IsRay, getLink_eq hservers hends]

theorem Intact.same (h : Intact p w) (hsame : w.SameCondition w') : Intact p w' where
  linked := h.linked.congr hsame.servers hsame.ends
  servers := hsame.servers.trans h.servers
  launched place server hserver := by
    rw [hsame.states]
    exact h.launched place server hserver
  others place hplace server hserver := by
    rw [hsame.states]
    exact h.others place hplace server hserver

/-- A world in the same condition, and adversaries with the same plans. -/
theorem Holds.same (h : Holds p s) (hsame : s.world.SameCondition s'.world)
    (hnet : s'.net.center (p.setup.getPool "kv") = s.net.center (p.setup.getPool "kv"))
    (hnode : s'.node.victim = s.node.victim)
    (hreaper : s'.reaper.left (crashBound p.replicas) ≤ s.reaper.left (crashBound p.replicas))
    (hturns : ∀ crashes i, s'.reaper = .pause crashes i → i < crashes) : Holds p s' where
  intact := h.intact.same hsame
  victim := by
    rw [hnode]
    exact h.victim
  paused i hi := by
    rw [hsame.states] at hi
    rw [hnode]
    exact h.paused i hi
  crashes := by
    have hcrashed : crashed p s'.world = crashed p s.world := by
      simp only [crashed, hsame.states]
    have hle := h.crashes
    omega
  turns := hturns
  links l := by
    rw [hsame.paused, h.links, hnet]
    simp only [isRay_congr hsame.servers hsame.ends]

/-! ## Sleeping -/

/-- A step of the server on which an adversary runs is going on. -/
theorem exists_randomPause {i : ℕ} {state : ServerState} (hcurrent : w.current = some i)
    (hstate : w.stateAt i = some state) (lo hi : ℕ) (source : RandomSource) :
    ∃ w', randomPause randomNumber w lo hi source = .ok w' ∧ w.SameCondition w' := by
  obtain ⟨server, hserver, -⟩ := Option.map_eq_some_iff.mp hstate
  have hactor : w.actor = .ok (i, server) := by
    rw [World.actor, hcurrent]
    dsimp only
    rw [hserver]
  have hsleep : randomPause randomNumber w lo hi source = .ok (w.setServer i { server with
      scheduler := server.scheduler.schedule
        (addTime w.time.now (randomNumber lo hi source).1) (.user 0) }) :=
    Outcome.bind_eq_ok.mpr ⟨_, hactor, rfl⟩
  refine ⟨_, hsleep, ?_⟩
  have hharmless : (World.Action.schedule (randomNumber lo hi source).1 0).isHarmless = true := rfl
  exact World.sameCondition_of_execute hharmless hsleep

/-- The server of an adversary is none of the pool, and it runs. -/
theorem Holds.isOn (h : Holds p s) {program : Adversary} (hon : IsOn p s program) :
    ∃ i, s.world.current = some i ∧ s.world.stateAt i = some .running ∧
      ∀ server ∈ p.pool, server.id ≠ i := by
  obtain ⟨⟨program', server⟩, hentry, -, hcurrent⟩ := hon
  have hserver : server ∈ p.setup.serversAt .adversaries := (List.of_mem_zip hentry).2
  refine ⟨server.id, hcurrent, h.intact.others .adversaries (by simp) server hserver, ?_⟩
  intro victim hvictim heq
  obtain ⟨hplace, -⟩ := p.numbered_setup.eq_of_id_eq hvictim hserver heq
  cases hplace

/-! ## Faults -/

/-- The state of a victim. -/
theorem Intact.exists_state (h : Intact p w) {victim : IServer} (hvictim : victim ∈ p.pool) :
    ∃ state, w.stateAt victim.id = some state ∧ state ≠ .initial :=
  h.launched (.pool "kv") victim hvictim

/-- A fault of a replica. -/
theorem Intact.fault (h : Intact p w) {victim : IServer} (hvictim : victim ∈ p.pool)
    {state : ServerState} (hinitial : state ≠ .initial)
    (hstates : ∀ j, w'.stateAt j = if victim.id = j then some state else w.stateAt j)
    (hnet : w'.network = w.network) : Intact p w' where
  linked := by rw [hnet]; exact h.linked
  servers := by rw [hnet]; exact h.servers
  launched place server hserver := by
    rw [hstates]
    split
    · exact ⟨state, rfl, hinitial⟩
    · exact h.launched place server hserver
  others place hplace server hserver := by
    have hne : ¬ victim.id = server.id := by
      intro heq
      obtain ⟨rfl, -⟩ := p.numbered_setup.eq_of_id_eq hvictim hserver heq
      exact hplace rfl
    rw [hstates, if_neg hne]
    exact h.others place hplace server hserver

/-- A count changes by at most one when one entry changes. -/
theorem countP_le_succ {α : Type} {f g : α → Bool} {l : List α} {a : α} (hnodup : l.Nodup)
    (hsame : ∀ b ∈ l, b ≠ a → f b = g b) : l.countP f ≤ l.countP g + 1 := by
  induction l with
  | nil => simp
  | cons b l ih =>
    obtain ⟨hb, hnodup⟩ := List.nodup_cons.mp hnodup
    have ih := ih hnodup fun c hc => hsame c (List.mem_cons_of_mem _ hc)
    rw [List.countP_cons, List.countP_cons]
    by_cases heq : b = a
    · -- the others do not change
      have hrest : l.countP f = l.countP g := by
        apply List.countP_congr
        intro c hc
        rw [hsame c (List.mem_cons_of_mem _ hc) fun hca => hb (heq ▸ hca ▸ hc)]
      split <;> omega
    · rw [hsame b (List.mem_cons_self ..) heq]
      omega

/-- A crash. -/
theorem crashed_le {victim : IServer} (hvictim : victim ∈ p.pool)
    {state : ServerState}
    (hstates : ∀ j, w'.stateAt j = if victim.id = j then some state else w.stateAt j) :
    crashed p w' ≤ crashed p w + 1 := by
  apply countP_le_succ (a := victim) p.nodup_pool
  intro server hserver hne
  have hid : ¬ victim.id = server.id := by
    intro heq
    exact hne (p.numbered_setup.eq_of_id_eq hvictim hserver heq).2.symm
  rw [hstates, if_neg hid]

/-- Any other fault of a replica. -/
theorem crashed_eq {victim : IServer} {state state' : ServerState}
    (hstate : w.stateAt victim.id = some state) (hiff : state' = .crashed ↔ state = .crashed)
    (hstates : ∀ j, w'.stateAt j = if victim.id = j then some state' else w.stateAt j) :
    crashed p w' = crashed p w := by
  apply List.countP_congr
  intro server _
  rw [hstates]
  split
  · rename_i heq
    rw [← heq, hstate]
    simpa using hiff
  · rfl

/-- A fault of the pool by an adversary. -/
theorem Holds.exists_serverFault (h : Holds p s) {program : Adversary} (hon : IsOn p s program)
    {victim : IServer} (hvictim : victim ∈ p.pool) {state : ServerState}
    (hstate : s.world.stateAt victim.id = some state) {f : ServerFault}
    (hallowed : f.isAllowed state = true) :
    ∃ w, s.world.execute (.serverFault victim.id f) = .ok w ∧ w.current = s.world.current ∧
      w.network = s.world.network ∧
      ∀ j, w.stateAt j = if victim.id = j then some (f.next state) else s.world.stateAt j := by
  obtain ⟨i, hcurrent, -, hother⟩ := h.isOn hon
  obtain ⟨server', hfault, hstates⟩ := World.exists_faultServer hstate hallowed
  refine ⟨s.world.setServer victim.id server', ?_, rfl, rfl, hstates⟩
  rw [World.execute, if_neg]
  · exact hfault
  · rintro ⟨heq, -⟩
    exact hother victim hvictim (Option.some.inj (heq.symm.trans hcurrent))

/-! ## Choices -/

theorem exists_generateNumber {bound : ℕ} (hbound : 0 < bound) (source : RandomSource) :
    ∃ number source', generateNumber bound source = .ok (number, source') ∧ number < bound := by
  refine ⟨_, _, Outcome.bind_eq_ok.mpr ⟨(), ?_, rfl⟩, Nat.mod_lt _ hbound⟩
  exact Outcome.verify_eq_ok.mpr (decide_eq_true hbound)

theorem exists_randomServer (hreplicas : 0 < p.replicas) (source : RandomSource) :
    ∃ victim source', randomServer p (p.setup.getPool "kv") source = .ok (victim, source') ∧
      victim ∈ p.pool := by
  have hlength : (p.setup.getPool "kv").length = p.replicas := by
    rw [p.getPool_eq, List.length_map, p.length_pool]
  obtain ⟨i, source', hdraw, hi⟩ := exists_generateNumber (hlength ▸ hreplicas) source
  have hlt : i < p.pool.length := by
    rwa [p.getPool_eq, List.length_map] at hi
  have hhost : (p.setup.getPool "kv")[i]? = some p.pool[i].hostName := by
    rw [p.getPool_eq, List.getElem?_map, List.getElem?_eq_getElem hlt]
    rfl
  have hvictim : p.pool[i] ∈ p.pool := List.getElem_mem hlt
  refine ⟨p.pool[i], source', ?_, hvictim⟩
  rw [randomServer, hdraw, Outcome.ok_bind]
  dsimp only
  rw [hhost]
  dsimp only
  rw [p.numbered_setup.findServer hvictim]
  rfl

/-! ## Turns of `NetAdversary` -/

/-- `MakeStar`, when all links are open. -/
theorem Holds.exists_makeStar (h : Holds p s) (hnone : s.net.center (p.setup.getPool "kv") = none)
    {center : ℕ} {c : HostName} (hc : (p.setup.getPool "kv")[center]? = some c) :
    ∃ net, makeStar s.world.network (p.setup.getPool "kv") center = .ok net ∧
      Holds p { s with world := { s.world with network := net }, net := .star center } := by
  have hnodup : (p.setup.getPool "kv").Nodup := p.numbered_setup.nodup_hostNames (.pool "kv")
  have hhosts : ∀ a ∈ p.setup.getPool "kv", a ∈ s.world.network.servers.map IServer.hostName := by
    intro a ha
    obtain ⟨server, hserver, rfl⟩ := List.mem_map.mp ha
    rw [h.intact.servers]
    exact List.mem_map_of_mem
      (List.mem_of_getElem? (p.numbered_setup.registered (.pool "kv") server hserver))
  have hopen : ∀ l, s.world.network.isPaused l = false := by
    intro l
    rw [← Bool.not_eq_true, h.links, hnone]
    simp
  obtain ⟨net, hstar, hpauses⟩ := exists_pauseBetween h.intact.linked hnodup hhosts
    (fun _ _ _ _ l _ => hopen l) fun start stop => start.2 != center && stop.2 != center
  have hends : ∀ l, net.ends l = s.world.network.ends l := by
    intro l
    rw [Network.ends, hpauses.links, Option.map_map]
    rfl
  refine ⟨net, hstar, ?_⟩
  constructor
  · exact ⟨h.intact.linked.congr hpauses.servers hends, hpauses.servers.trans h.intact.servers,
      h.intact.launched, h.intact.others⟩
  · exact h.victim
  · exact h.paused
  · exact h.crashes
  · exact h.turns
  · intro l
    dsimp only
    rw [hpauses.paused_iff, hopen, NetAdversary.center, hc]
    simp only [Bool.false_eq_true, false_or, Option.mem_some_iff, exists_eq_left']
    rw [isRay_congr hpauses.servers hends, Prod.exists]
    simp only [mem_star hnodup hc, IsRay]
    constructor
    · rintro ⟨a, b, ⟨ha, hb, hac, hbc⟩, hl⟩
      exact ⟨a, ha, b, hb, hac, hbc, hl⟩
    · rintro ⟨a, ha, b, hb, hac, hbc, hl⟩
      exact ⟨a, b, ⟨ha, hb, hac, hbc⟩, hl⟩

/-- `Heal`. -/
theorem Holds.exists_heal (h : Holds p s) (hnow : s.world.time.now + 1 < 2 ^ 64) :
    ∃ w, s.world.execute (.networkFault .heal) = .ok w ∧ w.current = s.world.current ∧
      Holds p { s with world := w, net := .sleep } := by
  have hlater : s.world.time.now ≤ addTime s.world.time.now 1 := by
    rw [addTime, Nat.mod_eq_of_lt hnow]
    omega
  obtain ⟨net, hheal, hquiet, hopen⟩ := Network.exists_heal hlater s.world.network
  refine ⟨{ s.world with network := net }, Outcome.bind_eq_ok.mpr ⟨net, hheal, rfl⟩, rfl, ?_⟩
  constructor
  · exact ⟨h.intact.linked.congr hquiet.servers hquiet.ends, hquiet.servers.trans h.intact.servers,
      h.intact.launched, h.intact.others⟩
  · exact h.victim
  · exact h.paused
  · exact h.crashes
  · exact h.turns
  · intro l
    simp [hopen, NetAdversary.center]

/-- The program sleeps again in a step of its server. -/
theorem Holds.exists_sleep (h : Holds p s) {i : ℕ} (hcurrent : s.world.current = some i)
    (hrunning : s.world.stateAt i = some .running) (lo hi : ℕ) (source : RandomSource) :
    ∃ w, randomPause randomNumber s.world lo hi source = .ok w ∧ Holds p { s with world := w } := by
  obtain ⟨w, hsleep, hsame⟩ := exists_randomPause hcurrent hrunning lo hi source
  exact ⟨w, hsleep, h.same hsame rfl rfl (Nat.le_refl _) h.turns⟩

theorem Holds.exists_netTurn (h : Holds p s) (hreplicas : 0 < p.replicas)
    (hon : IsOn p s .net) (hnow : s.world.time.now + 1 < 2 ^ 64) (source : RandomSource) :
    ∃ s', netTurn p randomNumber s source = .ok s' ∧ Holds p s' := by
  obtain ⟨i, hcurrent, hi, -⟩ := h.isOn hon
  rw [netTurn]
  split
  · rename_i hnet
    have h' : Holds p { s with net := .sleep } :=
      h.same ⟨fun _ => rfl, fun _ => rfl, rfl, fun _ => rfl⟩ (by rw [hnet]; rfl) rfl
        (Nat.le_refl _) h.turns
    obtain ⟨w, hsleep, hw⟩ := h'.exists_sleep hcurrent hi 10 1000 source
    exact ⟨_, Outcome.bind_eq_ok.mpr ⟨w, hsleep, rfl⟩, hw⟩
  · rename_i hnet
    have hlength : 0 < (p.setup.getPool "kv").length := by
      rwa [p.getPool_eq, List.length_map, p.length_pool]
    obtain ⟨center, source', hdraw, hlt⟩ := exists_generateNumber hlength source
    obtain ⟨net, hstar, h'⟩ := h.exists_makeStar (by rw [hnet]; rfl) (List.getElem?_eq_getElem hlt)
    obtain ⟨w, hsleep, hw⟩ := h'.exists_sleep hcurrent hi 100 300 source'
    refine ⟨_, Outcome.bind_eq_ok.mpr ⟨_, hdraw, Outcome.bind_eq_ok.mpr ⟨net, hstar, ?_⟩⟩, hw⟩
    exact Outcome.bind_eq_ok.mpr ⟨w, hsleep, rfl⟩
  · obtain ⟨w, hheal, hcurrent', h'⟩ := h.exists_heal hnow
    have hi' : w.stateAt i = some .running := by
      obtain ⟨net, -, rfl⟩ := World.execute_networkFault hheal
      exact hi
    obtain ⟨w', hsleep, hw⟩ := h'.exists_sleep (hcurrent'.trans hcurrent) hi' 10 1000 source
    exact ⟨_, Outcome.bind_eq_ok.mpr ⟨w, hheal, Outcome.bind_eq_ok.mpr ⟨w', hsleep, rfl⟩⟩, hw⟩

/-! ## Turns of `NodeAdversary` -/

theorem Holds.exists_nodeLoop (h : Holds p { s with node := .pause }) {i : ℕ}
    (hcurrent : s.world.current = some i) (hi : s.world.stateAt i = some .running)
    (source : RandomSource) :
    ∃ s', nodeLoop randomNumber s source = .ok s' ∧ Holds p s' := by
  rw [nodeLoop]
  split
  · obtain ⟨w, hsleep, hw⟩ := h.exists_sleep hcurrent hi 200 800 source
    exact ⟨_, Outcome.bind_eq_ok.mpr ⟨w, hsleep, rfl⟩, hw⟩
  · refine ⟨_, rfl, ?_⟩
    exact h.same ⟨fun _ => rfl, fun _ => rfl, rfl, fun _ => rfl⟩ rfl rfl (Nat.le_refl _) h.turns

/-- A reboot or a resume: the victim is not paused any more. -/
theorem Holds.wake (h : Holds p s) {victim : IServer} (hvictim : victim ∈ p.pool)
    (honly : ∀ other ∈ s.node.victim, other = victim) {f : ServerFault} {state : ServerState}
    (hstate : s.world.stateAt victim.id = some state) (hinitial : f.next state ≠ .initial)
    (hawake : f.next state ≠ .paused) (hcrashed : f.next state = .crashed ↔ state = .crashed)
    (hnet : w.network = s.world.network)
    (hstates : ∀ j, w.stateAt j = if victim.id = j then some (f.next state) else s.world.stateAt j) :
    Holds p { s with world := w, node := .pause } where
  intact := h.intact.fault hvictim hinitial hstates hnet
  victim := by simp [NodeAdversary.victim]
  paused j hj := by
    dsimp only at hj
    rw [hstates] at hj
    split at hj
    · exact absurd (Option.some.inj hj) hawake
    · rename_i hne
      obtain ⟨other, hother, rfl⟩ := h.paused j hj
      rw [honly other hother] at hne
      exact absurd rfl hne
  crashes := by
    have hle := h.crashes
    rw [← crashed_eq hstate hcrashed hstates] at hle
    exact hle
  turns := h.turns
  links l := by
    dsimp only
    rw [hnet]
    exact h.links l

/-- A replica is frozen. -/
theorem Holds.freeze (h : Holds p s) {victim : IServer} (hvictim : victim ∈ p.pool)
    (hnone : s.node.victim = none) {state : ServerState}
    (hstate : s.world.stateAt victim.id = some state) (hinitial : state ≠ .initial)
    (hnet : w.network = s.world.network)
    (hstates : ∀ j, w.stateAt j
      = if victim.id = j then some (ServerFault.pause.next state) else s.world.stateAt j) :
    Holds p { s with world := w, node := .freeze victim } where
  intact := by
    apply h.intact.fault hvictim _ hstates hnet
    cases state <;> simp_all [ServerFault.next]
  victim other hother := by
    obtain rfl := Option.some.inj hother
    exact hvictim
  paused j hj := by
    dsimp only at hj
    rw [hstates] at hj
    split at hj
    · rename_i heq
      exact ⟨victim, rfl, heq⟩
    · obtain ⟨other, hother, -⟩ := h.paused j hj
      rw [hnone] at hother
      cases hother
  crashes := by
    have hle := h.crashes
    have hcrashed : ServerFault.pause.next state = .crashed ↔ state = .crashed := by
      cases state <;> simp [ServerFault.next]
    rw [← crashed_eq hstate hcrashed hstates] at hle
    exact hle
  turns := h.turns
  links l := by
    dsimp only
    rw [hnet]
    exact h.links l

theorem Holds.exists_nodeTurn (h : Holds p s) (hreplicas : 0 < p.replicas)
    (hon : IsOn p s .node) (source : RandomSource) :
    ∃ s', nodeTurn p randomNumber s source = .ok s' ∧ Holds p s' := by
  obtain ⟨i, hcurrent, hi, hother⟩ := h.isOn hon
  have hsame : s.world.SameCondition s.world := ⟨fun _ => rfl, fun _ => rfl, rfl, fun _ => rfl⟩
  rw [nodeTurn]
  split
  · rename_i hnode
    have h' : Holds p { s with node := .pause } :=
      h.same hsame rfl (by rw [hnode]; rfl) (Nat.le_refl _) h.turns
    exact h'.exists_nodeLoop hcurrent hi source
  · rename_i hnode
    obtain ⟨victim, source', hserver, hvictim⟩ := exists_randomServer hreplicas source
    obtain ⟨choice, source'', hchoice, -⟩ := exists_generateNumber (show 0 < 3 by decide) source'
    obtain ⟨state, hstate, hinitial⟩ := h.intact.exists_state hvictim
    rw [hserver, Outcome.ok_bind]
    dsimp only
    rw [hchoice, Outcome.ok_bind]
    dsimp only
    split
    · -- a reboot
      obtain ⟨w, hreboot, hcurrent', hnet, hstates⟩ :=
        h.exists_serverFault hon hvictim hstate (f := .fastReboot) rfl
      have h' : Holds p { s with world := w, node := .pause } := by
        apply h.wake hvictim (by simp [hnode, NodeAdversary.victim]) hstate _ _ _ hnet hstates
        all_goals cases state <;> simp_all [ServerFault.next]
      rw [hreboot, Outcome.ok_bind]
      apply h'.exists_nodeLoop (hcurrent'.trans hcurrent)
      rw [hstates, if_neg (hother victim hvictim)]
      exact hi
    · -- a freeze
      obtain ⟨w, hpause, hcurrent', hnet, hstates⟩ :=
        h.exists_serverFault hon hvictim hstate (f := .pause) rfl
      have h' := h.freeze hvictim (congrArg NodeAdversary.victim hnode) hstate hinitial hnet hstates
      have hi' : w.stateAt i = some .running := by
        rw [hstates, if_neg (hother victim hvictim)]
        exact hi
      obtain ⟨w', hsleep, hw⟩ := h'.exists_sleep (hcurrent'.trans hcurrent) hi' 100 300 source''
      rw [hpause, Outcome.ok_bind]
      exact ⟨_, Outcome.bind_eq_ok.mpr ⟨w', hsleep, rfl⟩, hw⟩
    · have h' : Holds p { s with node := .pause } :=
        h.same hsame rfl (by rw [hnode]) (Nat.le_refl _) h.turns
      exact h'.exists_nodeLoop hcurrent hi source''
  · rename_i victim hnode
    -- The end of a freeze: the only server that may be paused is resumed.
    have hmem : victim ∈ s.node.victim := by
      rw [hnode]
      rfl
    have hvictim := h.victim victim hmem
    obtain ⟨state, hstate, hinitial⟩ := h.intact.exists_state hvictim
    obtain ⟨w, hresume, hcurrent', hnet, hstates⟩ :=
      h.exists_serverFault hon hvictim hstate (f := .resume) rfl
    have honly : ∀ other ∈ s.node.victim, other = victim := fun other hother =>
      Option.some.inj (hother.symm.trans hmem)
    have h' : Holds p { s with world := w, node := .pause } := by
      apply h.wake hvictim honly hstate _ _ _ hnet hstates
      all_goals cases state <;> simp_all [ServerFault.next]
    rw [hresume, Outcome.ok_bind]
    apply h'.exists_nodeLoop (hcurrent'.trans hcurrent)
    rw [hstates, if_neg (hother victim hvictim)]
    exact hi
  · exact ⟨s, rfl, h⟩

/-! ## Turns of `NodeReaper` -/

/-- The reaper has crashed as many servers as it may, or goes on. -/
theorem Holds.exists_reaperLoop (h : Holds p { s with reaper := .done }) {i : ℕ}
    (hcurrent : s.world.current = some i) (hi : s.world.stateAt i = some .running)
    {crashes turn : ℕ}
    (hleft : crashed p s.world + (crashes - turn) ≤ crashBound p.replicas)
    (source : RandomSource) :
    ∃ s', reaperLoop randomNumber s crashes turn source = .ok s' ∧ Holds p s' := by
  rw [reaperLoop]
  split
  · rename_i hlt
    have h' : Holds p { s with reaper := .pause crashes turn } := by
      refine ⟨h.intact, h.victim, h.paused, hleft, ?_, h.links⟩
      intro crashes' turn' heq
      obtain ⟨rfl, rfl⟩ := NodeReaper.pause.inj heq
      exact hlt
    obtain ⟨w, hsleep, hw⟩ := h'.exists_sleep hcurrent hi 300 1000 source
    exact ⟨_, Outcome.bind_eq_ok.mpr ⟨w, hsleep, rfl⟩, hw⟩
  · exact ⟨_, rfl, h⟩

/-- The reaper forgets its plans. -/
theorem Holds.stop (h : Holds p s) : Holds p { s with reaper := .done } :=
  h.same ⟨fun _ => rfl, fun _ => rfl, rfl, fun _ => rfl⟩ rfl rfl (Nat.zero_le _) fun _ _ heq => by
    cases heq

/-- A crash of a replica that is alive. -/
theorem Holds.crash (h : Holds p s) {victim : IServer} (hvictim : victim ∈ p.pool)
    (hnet : w.network = s.world.network)
    (hstates : ∀ j, w.stateAt j = if victim.id = j then some .crashed else s.world.stateAt j)
    (hleft : crashed p s.world + 1 ≤ crashBound p.replicas) :
    Holds p { s with world := w, reaper := .done } where
  intact := h.intact.fault hvictim (by simp) hstates hnet
  victim := h.victim
  paused j hj := by
    dsimp only at hj
    rw [hstates] at hj
    split at hj
    · cases hj
    · exact h.paused j hj
  crashes := Nat.le_trans (crashed_le hvictim hstates) hleft
  turns _ _ heq := by cases heq
  links l := by
    dsimp only
    rw [hnet]
    exact h.links l

/-- The check of `Crash` passes for a server that is alive. -/
theorem isAllowed_crash {server : Server} (halive : server.isAlive = true) :
    ServerFault.crash.isAllowed server.state = true := by
  rw [Server.isAlive] at halive
  revert halive
  cases server.state <;> decide

theorem Holds.exists_reaperTurn (h : Holds p s) (hreplicas : 0 < p.replicas)
    (hrandom : IsRandomNumber randomNumber) (hon : IsOn p s .reaper) (source : RandomSource) :
    ∃ s', reaperTurn p randomNumber s source = .ok s' ∧ Holds p s' := by
  obtain ⟨i, hcurrent, hi, hother⟩ := h.isOn hon
  have hlength : (p.setup.getPool "kv").length = p.replicas := by
    rw [p.getPool_eq, List.length_map, p.length_pool]
  rw [reaperTurn]
  split
  · rename_i hreaper
    have hle := h.crashes
    have hdraw := (hrandom 0 (crashBound p.replicas) source (Nat.zero_le _)).2
    rw [hreaper] at hle
    have hleft : crashed p s.world + ((randomNumber 0 (crashBound p.replicas) source).1 - 0)
        ≤ crashBound p.replicas := by
      rw [NodeReaper.left] at hle
      omega
    rw [hlength]
    exact h.stop.exists_reaperLoop hcurrent hi hleft _
  · rename_i crashes turn hreaper
    have hle := h.crashes
    have hlt := h.turns crashes turn hreaper
    rw [hreaper, NodeReaper.left] at hle
    obtain ⟨victim, source', hserver, hvictim⟩ := exists_randomServer hreplicas source
    obtain ⟨state, hstate, hinitial⟩ := h.intact.exists_state hvictim
    obtain ⟨server, hget, hserverState⟩ := Option.map_eq_some_iff.mp hstate
    rw [hserver, Outcome.ok_bind]
    dsimp only
    rw [hget]
    dsimp only
    split
    · rename_i halive
      have hallowed : ServerFault.crash.isAllowed state = true := by
        rw [← hserverState]
        exact isAllowed_crash halive
      obtain ⟨w, hcrash, hcurrent', hnet, hstates⟩ :=
        h.exists_serverFault hon hvictim hstate hallowed
      have hi' : w.stateAt i = some .running := by
        rw [hstates, if_neg (hother victim hvictim)]
        exact hi
      have hmore := crashed_le hvictim hstates
      have h' : Holds p { s with world := w, reaper := .done } :=
        h.crash hvictim hnet hstates (by omega)
      rw [hcrash, Outcome.ok_bind]
      have hleft : crashed p w + (crashes - (turn + 1)) ≤ crashBound p.replicas := by omega
      exact Holds.exists_reaperLoop (s := { s with world := w }) h' (hcurrent'.trans hcurrent) hi'
        hleft source'
    · exact h.stop.exists_reaperLoop hcurrent hi (by omega) source'
  · exact ⟨s, rfl, h⟩

/-! ## Every run -/

/-- **An adversary does what it plans.**  Its turn does not fail and keeps the invariant. -/
theorem Holds.exists_turn (h : Holds p s) (hreplicas : 0 < p.replicas)
    (hrandom : IsRandomNumber randomNumber) {program : Adversary} {source : RandomSource}
    (hallowed : Allowed p s (.adversary program source)) :
    ∃ s', execute p randomNumber s (.adversary program source) = .ok s' ∧ Holds p s' := by
  obtain ⟨hon, hnow⟩ := hallowed
  cases program with
  | net => exact h.exists_netTurn hreplicas hon hnow source
  | node => exact h.exists_nodeTurn hreplicas hon source
  | reaper => exact h.exists_reaperTurn hreplicas hrandom hon source

theorem Holds.execute {turn : Turn} (h : Holds p s) (hreplicas : 0 < p.replicas)
    (hrandom : IsRandomNumber randomNumber) (hallowed : Allowed p s turn)
    (hs : execute p randomNumber s turn = .ok s') : Holds p s' := by
  cases turn with
  | world action =>
    obtain ⟨w, hw, hs⟩ := Outcome.bind_eq_ok.mp hs
    obtain rfl := Outcome.pure_eq_ok.mp hs
    exact h.same (World.sameCondition_of_execute hallowed hw) rfl rfl (Nat.le_refl _) h.turns
  | adversary program source =>
    obtain ⟨s'', hs'', h'⟩ := h.exists_turn hreplicas hrandom hallowed
    obtain rfl := Except.ok.inj (hs.symm.trans hs'')
    exact h'

/-- All servers run when the world starts, and all links are open. -/
theorem holds_start {startTime : ℕ} (hstart : p.setup.toWorld.start startTime = .ok w) :
    Holds p { world := w } := by
  obtain ⟨hosts, hworld⟩ := p.numbered_setup.deployed
  have hdeploy : p.setup.toWorld = World.deploy hosts p.setup.hasAdversary := by
    rw [WorldSetup.toWorld, hworld, World.deploy, World.deploy]
  rw [hdeploy] at hstart
  obtain ⟨servers, rfl, hservers⟩ := World.start_eq_ok hstart
  have hhosts : p.setup.world.network.servers = hosts.mapIdx fun i host => ⟨i, host⟩ := by
    rw [hworld, World.deploy_eq]
  have hlinked := Network.linked_buildLinks (hosts.mapIdx fun i host => ⟨i, host⟩)
  have hrunning : ∀ (i : ℕ) state, ((servers[i]?).map Server.state) = some state → state = .running := by
    intro i state hstate
    rw [hservers, Option.map_map] at hstate
    obtain ⟨_, -, rfl⟩ := Option.map_eq_some_iff.mp hstate
    rfl
  have hstates : ∀ place, ∀ server ∈ p.setup.serversAt place,
      (servers[server.id]?).map Server.state = some .running := by
    intro place server hserver
    have hget := p.numbered_setup.registered place server hserver
    rw [hhosts, List.getElem?_mapIdx] at hget
    obtain ⟨host, hhost, -⟩ := Option.map_eq_some_iff.mp hget
    rw [hservers, hhost]
    rfl
  constructor
  · refine ⟨hlinked.2, hlinked.1.trans hhosts.symm, ?_, ?_⟩
    · intro place server hserver
      exact ⟨.running, hstates place server hserver, by simp⟩
    · intro place _ server hserver
      exact hstates place server hserver
  · simp [NodeAdversary.victim]
  · intro i hi
    cases hrunning i _ hi
  · have hnone : ∀ w : World, w.servers = servers → crashed p w = 0 := by
      intro w hw
      rw [crashed, List.countP_eq_zero]
      intro server hserver
      rw [World.stateAt, hw, hstates (.pool "kv") server hserver]
      decide
    rw [hnone _ rfl, Nat.zero_add]
    exact Nat.le_refl _
  · intro _ _ heq
    cases heq
  · intro l
    simp [NetAdversary.center, Network.isPaused_buildLinks]

theorem holds_of_reaches (hreplicas : 0 < p.replicas) (hrandom : IsRandomNumber randomNumber)
    {startTime : ℕ} (hstart : p.setup.toWorld.start startTime = .ok w)
    (hrun : Runs.Reaches (execute p randomNumber) (Allowed p) { world := w } s) : Holds p s :=
  hrun.invariant (holds_start hstart) fun _ _ _ h hallowed hs =>
    h.execute hreplicas hrandom hallowed hs

/-- What is left of the cluster. -/
structure Survives (p : Parameters) (s : Simulation) : Prop where
  /-- A majority of the replicas is alive. -/
  majority : majority p.replicas
    ≤ p.pool.countP fun server => (s.world.servers[server.id]?).any Server.isAlive
  /-- The clients and the adversaries run. -/
  others : ∀ place, place ≠ .pool "kv" → ∀ server ∈ p.setup.serversAt place,
    s.world.stateAt server.id = some .running
  /-- A paused server is the one that `NodeAdversary` will resume. -/
  paused : ∀ i, s.world.stateAt i = some .paused →
    ∃ victim ∈ p.pool, s.node = .freeze victim ∧ victim.id = i
  /-- The links that are paused are those of the star that `NetAdversary` will heal. -/
  links : ∀ l, s.world.network.isPaused l = true ↔
    ∃ center c, s.net = .star center ∧ (p.setup.getPool "kv")[center]? = some c ∧
      IsRay s.world.network (p.setup.getPool "kv") c l

/-- The replicas that have not crashed are alive. -/
theorem Holds.countP_isAlive (h : Holds p s) :
    (p.pool.countP fun server => (s.world.servers[server.id]?).any Server.isAlive)
      + crashed p s.world = p.replicas := by
  rw [← p.length_pool, crashed, List.length_eq_countP_add_countP
    (p := fun server => (s.world.servers[server.id]?).any Server.isAlive)]
  congr 1
  apply List.countP_congr
  intro server hserver
  obtain ⟨state, hstate, hinitial⟩ := h.intact.exists_state hserver
  obtain ⟨server', hget, rfl⟩ := Option.map_eq_some_iff.mp hstate
  rw [hstate, hget, Option.any_some, Server.isAlive]
  cases hcase : server'.state
  case initial => exact absurd hcase hinitial
  all_goals decide

/-- Half of the others may crash. -/
theorem majority_add_crashBound {n : ℕ} (hpos : 0 < n) (hsmall : n < 2 ^ 64) :
    Kv.majority n + crashBound n ≤ n := by
  rw [Kv.majority, crashBound]
  omega

/-- **The cluster survives its adversaries.**  In every run of a simulation a majority of the
replicas is alive, at most one server is paused, no link is paused except those of a star, and an
adversary that takes its turn is not stopped by a check. -/
theorem survives_of_reaches (hreplicas : 0 < p.replicas) (hsmall : p.replicas < 2 ^ 64)
    (hrandom : IsRandomNumber randomNumber) {startTime : ℕ}
    (hstart : p.setup.toWorld.start startTime = .ok w)
    (hrun : Runs.Reaches (Simulation.execute p randomNumber) (Allowed p) { world := w } s) :
    s.Survives p ∧ ∀ program source, Allowed p s (.adversary program source) →
      ∃ s', Simulation.execute p randomNumber s (.adversary program source) = .ok s' := by
  have h := holds_of_reaches hreplicas hrandom hstart hrun
  refine ⟨⟨?_, h.intact.others, ?_, ?_⟩, ?_⟩
  · have hcount := h.countP_isAlive
    have hcrashes := h.crashes
    have hbound := majority_add_crashBound hreplicas hsmall
    omega
  · intro i hi
    obtain ⟨victim, hvictim, hid⟩ := h.paused i hi
    refine ⟨victim, h.victim victim hvictim, ?_, hid⟩
    revert hvictim
    cases s.node <;> simp [NodeAdversary.victim]
  · intro l
    rw [h.links]
    cases s.net <;> simp [NetAdversary.center]
  · intro program source hallowed
    obtain ⟨s', hs', -⟩ := h.exists_turn hreplicas hrandom hallowed
    exact ⟨s', hs'⟩

/-! ## A short run -/

/-- The remainder of the next number. -/
def drawn (lo hi : ℕ) (source : RandomSource) : ℕ × RandomSource :=
  (lo + source.next.1 % (hi - lo + 1), source.next.2)

theorem isRandomNumber_drawn : IsRandomNumber drawn := by
  intro lo hi source hle
  have hmod : source.next.1 % (hi - lo + 1) < hi - lo + 1 := Nat.mod_lt _ (Nat.succ_pos _)
  rw [drawn]
  constructor
  · exact Nat.le_add_right ..
  · dsimp only
    omega

/-- Three replicas and all adversaries. -/
def doomed : Parameters where
  replicas := 3
  clients := 0
  net := true
  node := true
  reaper := true

/-- The world at its start. -/
def doomedStart : Simulation where
  world := match doomed.setup.toWorld.start 0 with
    | .ok w => w
    | .error _ => {}

/-- The six programs start; then one replica is paused, the network becomes a star, and
another replica crashes. -/
def doomedRun : Option Simulation :=
  let step : Turn := .world (.step 0)
  let turn (program : Adversary) (number : UInt32) : Turn :=
    .adversary program ⟨fun _ => number, 0⟩
  Runs.exec (execute doomed drawn) (Allowed doomed) doomedStart
    [step, step, step, step, turn .net 280, step, turn .node 1, step, turn .reaper 1,
      step, turn .node 1, step, turn .net 1, step, turn .reaper 2]

/-- **An example of a survival.**  One of the three replicas has crashed and another one is
paused, and the link between the first and the last one is paused, too. -/
theorem survives_of_reaches_doomedRun : ∃ s ∈ doomedRun,
    (s.world.stateAt 1 = some .paused ∧ s.world.stateAt 2 = some .crashed ∧
      s.net = .star 1 ∧ s.world.network.isPaused 2 = true) ∧
    s.Survives doomed ∧ ∀ program source, Allowed doomed s (.adversary program source) →
      ∃ s', Simulation.execute doomed drawn s (.adversary program source) = .ok s' := by
  have hchecked : ∃ s ∈ doomedRun, s.world.stateAt 1 = some .paused ∧
      s.world.stateAt 2 = some .crashed ∧ s.net = .star 1 ∧
        s.world.network.isPaused 2 = true := by decide +kernel
  obtain ⟨s, hs, hfaults⟩ := hchecked
  have hstart : doomed.setup.toWorld.start 0 = .ok doomedStart.world := rfl
  exact ⟨s, hs, hfaults, survives_of_reaches (by decide) (by decide) isRandomNumber_drawn hstart
    (Runs.reaches_of_exec hs)⟩

end Simulation

end Kv

end Whirl
