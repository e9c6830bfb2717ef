/-
# The adversaries of the key-value simulation

`NetAdversary`, `NodeAdversary` and `NodeReaper` of `examples/kv/main.cpp`, with what they call
in `fault/util.cpp`, over the world that `RunSimulation` sets up.  A turn is what a program does
between two sleeps; it belongs to a step of the server on which the program runs, so between two
turns anything may happen in the world.

Everybody draws numbers from one source, so a turn gets what the engine will return as an
argument.  The wall clocks of servers are not a part of the world.
-/
import WhirlMatrix.Fault.Split
import WhirlMatrix.Kv.Cluster
import WhirlMatrix.World.Condition
import WhirlMatrix.World.Setup

namespace Whirl

open Net Fault

/-- `GetPool`. -/
def WorldSetup.getPool (w : WorldSetup) (name : String) : List HostName :=
  (w.serversAt (.pool name)).map IServer.hostName

/-- `GenerateNumber`, which is `RandomNumber(bound)` of a node. -/
def generateNumber (bound : ℕ) (source : RandomSource) : Outcome (ℕ × RandomSource) := do
  verify (0 < bound) "bound == 0"
  let (number, source) := globalRandomNumber source
  return (number % bound, source)

namespace Kv

/-! ## The simulation -/

/-- The programs of adversaries. -/
inductive Adversary where
  | net
  | node
  | reaper
  deriving DecidableEq, Repr

/-- The parameters that `RunSimulation` draws: how many replicas and clients there are, and
which adversaries. -/
structure Parameters where
  replicas : ℕ
  clients : ℕ
  net : Bool
  node : Bool
  reaper : Bool
  deriving DecidableEq, Repr

namespace Parameters

/-- The adversaries in the order in which they are added. -/
def adversaries (p : Parameters) : List Adversary :=
  (if p.net then [.net] else []) ++ (if p.node then [.node] else [])
    ++ (if p.reaper then [.reaper] else [])

/-- `RunSimulation` up to the start of the world. -/
def setup (p : Parameters) : WorldSetup :=
  WorldSetup.setup ([.makePool "kv" p.replicas, .addClients p.clients]
    ++ p.adversaries.map fun _ => .addAdversary)

/-- The replicas. -/
def pool (p : Parameters) : List IServer := p.setup.serversAt (.pool "kv")

end Parameters

/-- Where `NetAdversary` sleeps. -/
inductive NetAdversary where
  | start
  | sleep
  | star (center : ℕ)
  deriving DecidableEq, Repr

/-- Where `NodeAdversary` sleeps. -/
inductive NodeAdversary where
  | start
  | pause
  /-- The victim is frozen. -/
  | freeze (victim : IServer)
  | done
  deriving DecidableEq, Repr

/-- Where `NodeReaper` sleeps. -/
inductive NodeReaper where
  | start
  | pause (crashes i : ℕ)
  | done
  deriving DecidableEq, Repr

/-- A world and the adversaries in it. -/
structure Simulation where
  world : World
  net : NetAdversary := .start
  node : NodeAdversary := .start
  reaper : NodeReaper := .start

namespace Simulation

variable (p : Parameters) (randomNumber : ℕ → ℕ → RandomSource → ℕ × RandomSource)

/-! ## The programs -/

/-- `SleepFor`. -/
def sleepFor (w : World) (delay : ℕ) : Outcome World := w.execute (.schedule delay 0)

/-- `RandomPause`. -/
def randomPause (w : World) (lo hi : ℕ) (source : RandomSource) : Outcome World :=
  sleepFor w (randomNumber lo hi source).1

/-- `RandomServer`. -/
def randomServer (hosts : List HostName) (source : RandomSource) :
    Outcome (IServer × RandomSource) := do
  let (i, source) ← generateNumber hosts.length source
  match hosts[i]? with
  | none => .error .outOfRange
  | some hostname =>
    match p.setup.findServer hostname with
    | none => .error .undefined
    | some server => return (server, source)

/-- A turn of `NetAdversary`. -/
def netTurn (s : Simulation) (source : RandomSource) : Outcome Simulation :=
  match s.net with
  | .start => do
    let w ← randomPause randomNumber s.world 10 1000 source
    return { s with world := w, net := .sleep }
  | .sleep => do
    let pool := p.setup.getPool "kv"
    let (center, source) ← generateNumber pool.length source
    let net ← makeStar s.world.network pool center
    let w ← randomPause randomNumber { s.world with network := net } 100 300 source
    return { s with world := w, net := .star center }
  | .star _ => do
    let w ← s.world.execute (.networkFault .heal)
    let w ← randomPause randomNumber w 10 1000 source
    return { s with world := w, net := .sleep }

/-- `kNoMoreFaults`. -/
def noMoreFaults : ℕ := 5000

/-- `NodeAdversary` from the test of its loop on. -/
def nodeLoop (s : Simulation) (source : RandomSource) : Outcome Simulation :=
  if s.world.time.now < noMoreFaults then do
    let w ← randomPause randomNumber s.world 200 800 source
    return { s with world := w, node := .pause }
  else
    .ok { s with node := .done }

/-- A turn of `NodeAdversary`. -/
def nodeTurn (s : Simulation) (source : RandomSource) : Outcome Simulation :=
  match s.node with
  | .start => nodeLoop randomNumber s source
  | .pause => do
    let (victim, source) ← randomServer p (p.setup.getPool "kv") source
    let (choice, source) ← generateNumber 3 source
    match choice with
    | 0 =>
      let w ← s.world.execute (.serverFault victim.id .fastReboot)
      nodeLoop randomNumber { s with world := w } source
    | 1 =>
      let w ← s.world.execute (.serverFault victim.id .pause)
      let w ← randomPause randomNumber w 100 300 source
      return { s with world := w, node := .freeze victim }
    | _ =>
      -- `AdjustWallClock`
      nodeLoop randomNumber s source
  | .freeze victim => do
    let w ← s.world.execute (.serverFault victim.id .resume)
    nodeLoop randomNumber { s with world := w } source
  | .done => .ok s

/-- The bound on the number of crashes, in `size_t`. -/
def crashBound (poolSize : ℕ) : ℕ := (poolSize + 2 ^ 64 - 1) % 2 ^ 64 / 2

/-- `NodeReaper` from the test of its loop on. -/
def reaperLoop (s : Simulation) (crashes i : ℕ) (source : RandomSource) : Outcome Simulation :=
  if i < crashes then do
    let w ← randomPause randomNumber s.world 300 1000 source
    return { s with world := w, reaper := .pause crashes i }
  else
    .ok { s with reaper := .done }

/-- A turn of `NodeReaper`. -/
def reaperTurn (s : Simulation) (source : RandomSource) : Outcome Simulation :=
  match s.reaper with
  | .start =>
    let (crashes, source) := randomNumber 0 (crashBound (p.setup.getPool "kv").length) source
    reaperLoop randomNumber s crashes 0 source
  | .pause crashes i => do
    let (victim, source) ← randomServer p (p.setup.getPool "kv") source
    match s.world.servers[victim.id]? with
    | none => .error .undefined
    | some server =>
      if server.isAlive then
        let w ← s.world.execute (.serverFault victim.id .crash)
        reaperLoop randomNumber { s with world := w } crashes (i + 1) source
      else
        reaperLoop randomNumber s crashes (i + 1) source
  | .done => .ok s

/-! ## Runs -/

/-- What happens in a simulation. -/
inductive Turn where
  /-- Anything else that happens in the world. -/
  | world (action : World.Action)
  | adversary (program : Adversary) (source : RandomSource)

/-- One turn. -/
def execute (s : Simulation) : Turn → Outcome Simulation
  | .world action => do
    let w ← s.world.execute action
    return { s with world := w }
  | .adversary .net source => netTurn p randomNumber s source
  | .adversary .node source => nodeTurn p randomNumber s source
  | .adversary .reaper source => reaperTurn p randomNumber s source

/-- The step that is going on is one of the server that runs a program. -/
def IsOn (s : Simulation) (program : Adversary) : Prop :=
  ∃ entry ∈ p.adversaries.zip p.setup.adversaries,
    entry.1 = program ∧ s.world.current = some entry.2.id

/-- The turns that can come: nodes and clients inject no faults, and an adversary takes its
turn in a step of its server, long before the clock wraps around. -/
def Allowed (s : Simulation) : Turn → Prop
  | .world action => action.isHarmless = true
  | .adversary program _ => IsOn p s program ∧ s.world.time.now + 1 < 2 ^ 64

instance (s : Simulation) (program : Adversary) : Decidable (IsOn p s program) :=
  inferInstanceAs (Decidable (∃ entry ∈ p.adversaries.zip p.setup.adversaries,
    entry.1 = program ∧ s.world.current = some entry.2.id))

instance (s : Simulation) (turn : Turn) : Decidable (Allowed p s turn) :=
  match turn with
  | .world action => inferInstanceAs (Decidable (action.isHarmless = true))
  | .adversary program _ =>
    inferInstanceAs (Decidable (IsOn p s program ∧ s.world.time.now + 1 < 2 ^ 64))

end Simulation

end Kv

end Whirl
