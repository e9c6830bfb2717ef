/-
# Setting up a world

How servers get into a world before its start (`world/world.hpp` and the facade in
`facade/world.hpp`): pools, clients and adversaries are numbered from one, and the host
name of a server is the template of its place, a dash and its number.  A number has no dash,
so the name gives back the place and the number.
-/
import WhirlMatrix.Strings
import WhirlMatrix.World.World
import WhirlMatrix.Fault.PauseLinks

namespace Whirl

open Net StdString Separators

/-! ## The servers of a world -/

/-- `MakeServerName`. -/
def makeServerName (nameTemplate : String) (index : ℕ) : HostName :=
  nameTemplate ++ "-" ++ toString index

/-- `PoolBuilder::MakeNameTemplate`. -/
def makeNameTemplate (poolName : String) : String := "Server-" ++ poolName

/-- Where a server is kept: in a pool of `pools_`, in `clients_` or in `adversaries_`. -/
inductive Place where
  | pool (poolName : String)
  | clients
  | adversaries
  deriving DecidableEq, Repr

/-- The template of the host names of a place; that of a pool is the default. -/
def Place.nameTemplate : Place → String
  | pool poolName => makeNameTemplate poolName
  | clients => "Client"
  | adversaries => "Adversary"

/-- The collections of `World` before its start; `world` is the rest. -/
structure WorldSetup where
  pools : Std.ExtTreeMap String (List IServer) compare := ∅
  clients : List IServer := []
  adversaries : List IServer := []
  world : World := {}

namespace WorldSetup

/-- The servers that are kept at a place. -/
def serversAt (w : WorldSetup) : Place → List IServer
  | .pool poolName => (w.pools[poolName]?).getD []
  | .clients => w.clients
  | .adversaries => w.adversaries

/-- A place gets other servers. -/
def setServersAt (w : WorldSetup) (servers : List IServer) : Place → WorldSetup
  | .pool poolName => { w with pools := w.pools.insert poolName servers }
  | .clients => { w with clients := servers }
  | .adversaries => { w with adversaries := servers }

/-- `AddServerImpl`: the new server joins the place and the network. -/
def addServerImpl (w : WorldSetup) (place : Place) (hostname : HostName) : WorldSetup :=
  let server : IServer := ⟨w.world.servers.length, hostname⟩
  { w with world := w.world.addServer hostname }.setServersAt (w.serversAt place ++ [server]) place

/-- `AddToPool`. -/
def addToPool (w : WorldSetup) (place : Place) (hostNameTemplate : String) : WorldSetup :=
  w.addServerImpl place (makeServerName hostNameTemplate ((w.serversAt place).length + 1))

/-- `AddPool`. -/
def addPool (w : WorldSetup) (poolName : String) (size : ℕ) (nameTemplate : String) : WorldSetup :=
  -- `pools_[pool_name]` makes a pool that does not exist
  let w := { w with pools := w.pools.insertIfNew poolName [] }
  (List.range size).foldl (fun w _ => w.addToPool (.pool poolName) nameTemplate) w

/-- `AddClient`. -/
def addClient (w : WorldSetup) : WorldSetup := w.addToPool .clients "Client"

/-- `AddAdversary`. -/
def addAdversary (w : WorldSetup) : WorldSetup := w.addToPool .adversaries "Adversary"

/-- `HasAdversary`. -/
def hasAdversary (w : WorldSetup) : Bool := !w.adversaries.isEmpty

/-- `FindServer`: the first server of the pools with the host name. -/
def findServer (w : WorldSetup) (hostname : HostName) : Option IServer :=
  w.pools.toList.findSome? fun entry => entry.2.find? fun server => server.hostName == hostname

/-! ## The facade -/

/-- `MakePool` with a size; the builder adds its pool when it is destroyed. -/
def makePool (w : WorldSetup) (poolName : String) (size : ℕ) : WorldSetup :=
  w.addPool poolName size (makeNameTemplate poolName)

/-- `AddClients`. -/
def addClients (w : WorldSetup) (count : ℕ) : WorldSetup :=
  (List.range count).foldl (fun w _ => w.addClient) w

/-- What a test calls before the start. -/
inductive Call where
  | makePool (poolName : String) (size : ℕ)
  | addClient
  | addClients (count : ℕ)
  | addAdversary
  deriving DecidableEq, Repr

/-- One call. -/
def execute (w : WorldSetup) : Call → WorldSetup
  | .makePool poolName size => w.makePool poolName size
  | .addClient => w.addClient
  | .addClients count => w.addClients count
  | .addAdversary => w.addAdversary

/-- The world after some calls. -/
def setup (calls : List Call) : WorldSetup := calls.foldl execute {}

/-- What the network and the event loop see of it. -/
def toWorld (w : WorldSetup) : World := { w.world with adversary := w.hasAdversary }

end WorldSetup

/-! ## Names -/

theorem toList_makeServerName (nameTemplate : String) (index : ℕ) :
    (makeServerName nameTemplate index).toList
      = nameTemplate.toList ++ '-' :: (toString index).toList := by
  rw [makeServerName, String.toList_append, String.toList_append]
  simp

/-- A name gives back its template and its number: the last dash is the one between them. -/
theorem makeServerName_inj {template template' : String} {index index' : ℕ}
    (h : makeServerName template index = makeServerName template' index') :
    template = template' ∧ index = index' := by
  have hlist := congrArg String.toList h
  rw [toList_makeServerName, toList_makeServerName] at hlist
  have hdash : ∀ n : ℕ, '-' ∉ (toString n).toList := not_mem_toString (by decide)
  obtain ⟨htemplate, hindex⟩ := append_cons_inj hlist (hdash index) (hdash index')
  exact ⟨String.toList_inj.mp htemplate, toString_inj hindex⟩

/-- Different places have different templates: they start with different letters, or with
the same text before the names of their pools. -/
theorem Place.nameTemplate_inj {place place' : Place} (h : place.nameTemplate = place'.nameTemplate) :
    place = place' := by
  have hlist := congrArg String.toList h
  have hhead := congrArg List.head? hlist
  cases place <;> cases place' <;>
    simp only [nameTemplate, makeNameTemplate, String.toList_append] at hlist hhead
  case pool.pool name name' => rw [String.toList_inj.mp (List.append_cancel_left hlist)]
  case clients.clients => rfl
  case adversaries.adversaries => rfl
  all_goals exact absurd hhead (by simp)

namespace WorldSetup

variable {w w' : WorldSetup} {place : Place}

/-! ## One server -/

theorem serversAt_setServersAt (w : WorldSetup) (servers : List IServer) (place place' : Place) :
    (w.setServersAt servers place).serversAt place'
      = if place' = place then servers else w.serversAt place' := by
  cases place with
  | pool name =>
    cases place' with
    | pool name' =>
      simp only [setServersAt, serversAt, Std.ExtTreeMap.getElem?_insert, Std.LawfulEqCmp.compare_eq_iff_eq,
        Place.pool.injEq]
      by_cases heq : name = name'
      · simp [heq]
      · rw [if_neg heq, if_neg (Ne.symm heq)]
    | clients => rfl
    | adversaries => rfl
  | clients => cases place' <;> rfl
  | adversaries => cases place' <;> rfl

/-- What `AddToPool` does at a place. -/
theorem serversAt_addToPool (w : WorldSetup) (place : Place) (template : String) (place' : Place) :
    (w.addToPool place template).serversAt place' = if place' = place then
      w.serversAt place ++ [⟨w.world.servers.length,
        makeServerName template ((w.serversAt place).length + 1)⟩]
    else w.serversAt place' := by
  rw [addToPool, addServerImpl, serversAt_setServersAt]
  by_cases heq : place' = place
  · rw [if_pos heq, if_pos heq]
  · rw [if_neg heq, if_neg heq]
    cases place' <;> rfl

theorem world_addToPool (w : WorldSetup) (place : Place) (template : String) :
    (w.addToPool place template).world
      = w.world.addServer (makeServerName template ((w.serversAt place).length + 1)) := by
  cases place <;> rfl

/-! ## The servers are numbered -/

/-- The servers of each place are numbered from one, and the network knows exactly the
servers of all places. -/
structure Numbered (w : WorldSetup) : Prop where
  deployed : ∃ hosts, w.world = World.deploy hosts false
  hostName : ∀ place i server, (w.serversAt place)[i]? = some server →
    server.hostName = makeServerName place.nameTemplate (i + 1)
  registered : ∀ place, ∀ server ∈ w.serversAt place,
    w.world.network.servers[server.id]? = some server
  placed : ∀ i server, w.world.network.servers[i]? = some server →
    server.id = i ∧ ∃ place, server ∈ w.serversAt place

theorem numbered_empty : Numbered {} where
  deployed := ⟨[], rfl⟩
  hostName place i server h := by
    cases place <;> simp [serversAt] at h
  registered place server h := by
    cases place <;> simp [serversAt] at h
  placed i server h := by simp at h

/-- The network knows as many servers as there are. -/
theorem Numbered.length_servers (h : w.Numbered) :
    w.world.network.servers.length = w.world.servers.length := by
  obtain ⟨hosts, hworld⟩ := h.deployed
  rw [hworld, World.deploy_eq, List.length_mapIdx, List.length_map]

/-- One more server at a place. -/
theorem Numbered.addToPool (h : w.Numbered) (place : Place) :
    (w.addToPool place place.nameTemplate).Numbered := by
  have hnetwork : (w.addToPool place place.nameTemplate).world.network.servers
      = w.world.network.servers ++ [⟨w.world.servers.length,
        makeServerName place.nameTemplate ((w.serversAt place).length + 1)⟩] := by
    rw [world_addToPool]
    rfl
  constructor
  · obtain ⟨hosts, hworld⟩ := h.deployed
    refine ⟨hosts ++ [makeServerName place.nameTemplate ((w.serversAt place).length + 1)], ?_⟩
    rw [world_addToPool, hworld, World.deploy, World.deploy, List.foldl_append]
    rfl
  · intro place' i server hserver
    rw [serversAt_addToPool] at hserver
    split at hserver
    · rename_i heq
      subst heq
      rw [List.getElem?_append] at hserver
      split at hserver
      · exact h.hostName place' i server hserver
      · obtain ⟨hlt, rfl⟩ := List.getElem?_eq_some_iff.mp hserver
        -- The new server is the last of its place, and its name counts the place's servers.
        have hlast : i = (w.serversAt place').length := by
          rw [List.length_singleton] at hlt
          omega
        subst hlast
        simp
    · exact h.hostName place' i server hserver
  · intro place' server hserver
    rw [serversAt_addToPool] at hserver
    rw [hnetwork]
    have hold : ∀ place'', server ∈ w.serversAt place'' →
        (w.world.network.servers ++ [⟨w.world.servers.length,
          makeServerName place.nameTemplate ((w.serversAt place).length + 1)⟩])[server.id]?
            = some server := by
      intro place'' hserver
      have hget := h.registered place'' server hserver
      rw [List.getElem?_append_left (List.getElem?_eq_some_iff.mp hget).1, hget]
    split at hserver
    · rcases List.mem_append.mp hserver with hserver | hserver
      · exact hold _ hserver
      · rw [List.mem_singleton.mp hserver, ← h.length_servers]
        exact List.getElem?_concat_length
    · exact hold _ hserver
  · intro i server hserver
    rw [hnetwork, List.getElem?_append] at hserver
    split at hserver
    · obtain ⟨hid, place', hplace'⟩ := h.placed i server hserver
      refine ⟨hid, place', ?_⟩
      rw [serversAt_addToPool]
      split
      · rename_i heq
        subst heq
        exact List.mem_append_left _ hplace'
      · exact hplace'
    · rename_i hge
      obtain ⟨hlt, rfl⟩ := List.getElem?_eq_some_iff.mp hserver
      rw [List.length_singleton] at hlt
      refine ⟨?_, place, ?_⟩
      · rw [← h.length_servers]
        simp
        omega
      · rw [serversAt_addToPool, if_pos rfl]
        simp

/-- Only the servers of the places and the world matter. -/
theorem Numbered.congr (h : w.Numbered) (hservers : ∀ place, w'.serversAt place = w.serversAt place)
    (hworld : w'.world = w.world) : w'.Numbered := by
  constructor
  · rw [hworld]
    exact h.deployed
  · simp only [hservers]
    exact h.hostName
  · simp only [hservers, hworld]
    exact h.registered
  · simp only [hservers, hworld]
    exact h.placed

/-- A pool that `operator[]` makes has no servers. -/
theorem serversAt_insertIfNew (w : WorldSetup) (poolName : String) (place : Place) :
    ({ w with pools := w.pools.insertIfNew poolName [] } : WorldSetup).serversAt place
      = w.serversAt place := by
  cases place with
  | pool name =>
    simp only [serversAt, Std.ExtTreeMap.getElem?_insertIfNew, Std.LawfulEqCmp.compare_eq_iff_eq]
    split
    · rename_i hnew
      obtain ⟨rfl, hnot⟩ := hnew
      rw [Std.ExtTreeMap.getElem?_eq_none hnot]
      rfl
    · rfl
  | clients => rfl
  | adversaries => rfl

/-- **Every call keeps the servers numbered.** -/
theorem Numbered.execute (h : w.Numbered) (call : Call) : (w.execute call).Numbered := by
  cases call with
  | makePool poolName size =>
    have hnew : Numbered { w with pools := w.pools.insertIfNew poolName [] } :=
      h.congr (serversAt_insertIfNew w poolName) rfl
    exact List.foldlRecOn (motive := Numbered) _ _ hnew fun w hw _ _ => hw.addToPool (.pool poolName)
  | addClient => exact h.addToPool .clients
  | addClients count =>
    exact List.foldlRecOn (motive := Numbered) _ _ h fun w hw _ _ => hw.addToPool .clients
  | addAdversary => exact h.addToPool .adversaries

theorem numbered_setup (calls : List Call) : (setup calls).Numbered :=
  List.foldlRecOn (motive := Numbered) _ _ numbered_empty fun _ hw call _ => hw.execute call

/-! ## Lookups -/

/-- Servers with one host name are one server. -/
theorem Numbered.eq_of_hostName_eq (h : w.Numbered) {place place' : Place} {server server' : IServer}
    (hserver : server ∈ w.serversAt place) (hserver' : server' ∈ w.serversAt place')
    (heq : server.hostName = server'.hostName) : place = place' ∧ server = server' := by
  obtain ⟨i, hi⟩ := List.mem_iff_getElem?.mp hserver
  obtain ⟨i', hi'⟩ := List.mem_iff_getElem?.mp hserver'
  rw [h.hostName place i server hi, h.hostName place' i' server' hi'] at heq
  obtain ⟨htemplate, hindex⟩ := makeServerName_inj heq
  obtain rfl := Place.nameTemplate_inj htemplate
  obtain rfl : i = i' := by omega
  exact ⟨rfl, Option.some.inj (hi.symm.trans hi')⟩

theorem Numbered.nodup (h : w.Numbered) :
    (w.world.network.servers.map IServer.hostName).Nodup := by
  rw [List.nodup_iff_getElem?_ne_getElem?]
  intro i j hij hj heq
  rw [List.length_map] at hj
  rw [List.getElem?_map, List.getElem?_map, List.getElem?_eq_getElem (by omega),
    List.getElem?_eq_getElem hj, Option.map_some, Option.map_some] at heq
  obtain ⟨hid, place, hplace⟩ := h.placed i _ (List.getElem?_eq_getElem (by omega))
  obtain ⟨hid', place', hplace'⟩ := h.placed j _ (List.getElem?_eq_getElem hj)
  obtain ⟨-, hsame⟩ := h.eq_of_hostName_eq hplace hplace' (Option.some.inj heq)
  rw [hsame, hid'] at hid
  omega

/-- `ServerToIndex` finds the server. -/
theorem Numbered.serverToIndex (h : w.Numbered) {server : IServer}
    (hserver : server ∈ w.serversAt place) :
    w.world.network.serverToIndex server.hostName = .ok server.id := by
  apply Network.serverToIndex_of_nodup h.nodup
  exact h.registered place server hserver

theorem mem_pools {poolName : String} {pool : List IServer} :
    (poolName, pool) ∈ w.pools.toList ↔ w.pools[poolName]? = some pool :=
  Std.ExtTreeMap.mem_toList_iff_getElem?_eq_some

/-- What `FindServer` finds is in a pool and has the host name. -/
theorem findServer_eq_some {hostname : HostName} {server : IServer}
    (h : w.findServer hostname = some server) :
    server.hostName = hostname ∧ ∃ poolName, server ∈ w.serversAt (.pool poolName) := by
  obtain ⟨⟨poolName, pool⟩, hpool, hfind⟩ := List.exists_of_findSome?_eq_some h
  refine ⟨?_, poolName, ?_⟩
  · simpa using List.find?_some hfind
  · rw [serversAt, mem_pools.mp hpool]
    exact List.mem_of_find?_eq_some hfind

/-- `FindServer` finds a server for the name of each server of a pool. -/
theorem exists_findServer {poolName : String} {server : IServer}
    (h : server ∈ w.serversAt (.pool poolName)) :
    ∃ found, w.findServer server.hostName = some found := by
  rw [← Option.isSome_iff_exists, findServer, List.findSome?_isSome_iff]
  cases hpool : w.pools[poolName]? with
  | none =>
    rw [serversAt, hpool] at h
    exact absurd h List.not_mem_nil
  | some pool =>
    rw [serversAt, hpool] at h
    refine ⟨(poolName, pool), mem_pools.mpr hpool, ?_⟩
    rw [List.find?_isSome]
    exact ⟨server, h, beq_self_eq_true _⟩

/-- **Host names never collide.**  Whatever pools, clients and adversaries are added, all
host names differ, `ServerToIndex` finds each server, and `FindServer`, which looks into the
pools, finds each server of a pool and nothing for a client or an adversary. -/
theorem nodup_and_found (calls : List Call) :
    ((setup calls).world.network.servers.map IServer.hostName).Nodup ∧
      (∀ server, server ∈ (setup calls).world.network.servers ↔
        ∃ place, server ∈ (setup calls).serversAt place) ∧
      ∀ place, ∀ server ∈ (setup calls).serversAt place,
        (setup calls).world.network.serverToIndex server.hostName = .ok server.id ∧
          (setup calls).world.network.servers[server.id]? = some server ∧
          (setup calls).findServer server.hostName = match place with
            | .pool _ => some server
            | .clients => none
            | .adversaries => none := by
  have hnumbered := numbered_setup calls
  refine ⟨hnumbered.nodup, ?_, ?_⟩
  · intro server
    constructor
    · intro hserver
      obtain ⟨i, hi⟩ := List.mem_iff_getElem?.mp hserver
      exact (hnumbered.placed i server hi).2
    · rintro ⟨place, hplace⟩
      exact List.mem_of_getElem? (hnumbered.registered place server hplace)
  · intro place server hserver
    refine ⟨hnumbered.serverToIndex hserver, hnumbered.registered place server hserver, ?_⟩
    -- what is found has the name of the server, so it is the server
    have hfound : ∀ found, (setup calls).findServer server.hostName = some found →
        found = server ∧ ∃ poolName, place = .pool poolName := by
      intro found h
      obtain ⟨hname, poolName, hpool⟩ := findServer_eq_some h
      obtain ⟨rfl, rfl⟩ := hnumbered.eq_of_hostName_eq hpool hserver hname
      exact ⟨rfl, poolName, rfl⟩
    have hnone : (∀ poolName, place ≠ .pool poolName) →
        (setup calls).findServer server.hostName = none := by
      intro hplace
      rw [Option.eq_none_iff_forall_ne_some]
      intro found h
      obtain ⟨-, poolName, heq⟩ := hfound found h
      exact hplace poolName heq
    cases place with
    | pool poolName =>
      obtain ⟨found, hfind⟩ := exists_findServer hserver
      rw [hfind, (hfound found hfind).1]
    | clients => exact hnone fun _ h => by cases h
    | adversaries => exact hnone fun _ h => by cases h

/-- `FindServer` does not find a client. -/
theorem not_found_addClient : ¬ ∀ calls : List Call,
    ((setup calls).world.network.servers.map IServer.hostName).Nodup ∧
      ∀ server ∈ (setup calls).world.network.servers,
        (setup calls).world.network.serverToIndex server.hostName = .ok server.id ∧
          (setup calls).findServer server.hostName = some server := by
  intro h
  obtain ⟨-, hfound⟩ := h [.addClient]
  have hclient := (hfound ⟨0, "Client-1"⟩ (by decide)).2
  have hnone : (setup [.addClient]).findServer "Client-1" = none := rfl
  rw [hnone] at hclient
  cases hclient

/-- A world that was set up is one of distinct hosts, as the results about runs take it. -/
theorem exists_deploy (calls : List Call) : ∃ hosts, hosts.Nodup ∧
    (setup calls).toWorld = World.deploy hosts (setup calls).hasAdversary := by
  have hnumbered := numbered_setup calls
  obtain ⟨hosts, hworld⟩ := hnumbered.deployed
  refine ⟨hosts, ?_, ?_⟩
  · have hnodup := hnumbered.nodup
    rwa [hworld, World.deploy_eq, World.map_hostName_mapIdx] at hnodup
  · rw [toWorld, hworld, World.deploy, World.deploy]

end WorldSetup

end Whirl
