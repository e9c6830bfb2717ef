/-
# Isolation of readers and writers

One incarnation of a node, after its database was opened.  Writers block in `Append`
inside the mutex while other fibers read, so the log, the mem-table and the version change
at different moments.  In every state that the fibers can reach the mem-table is made of
as many batches of the log as the version says, and the log is ahead by at most one batch,
which the writer holds.  Therefore all reads and snapshots see whole batches of the log.
-/
import WhirlMatrix.Db.Recovery

namespace Whirl.Db

variable {Key Value : Type} [Ord Key] [Std.TransOrd Key] {L : Libraries Key Value}

namespace Node

/-! ## What is promised -/

/-- The program of a node that was not started yet opens its database. -/
def openDatabase (node : Node L) (directory : String) : Outcome (Node L) := do
  let node ← node.execute .start
  let node ← node.execute (.replay directory)
  node.execute .opened

/-- A state in which the log holds some batches, and the readers see prefixes of them. -/
structure Isolated (node : Node L) (batches : List (WriteBatch Key Value)) : Prop where
  isSome : node.file.isSome
  holds : Holds L node.file batches
  memTable : node.db.memTable = applyAll (batches.take node.db.version)
  /-- The log is ahead by at most one batch, and the fiber that appended it holds the mutex. -/
  ahead : node.db.version = batches.length ∨ ∃ batch, node.writeMutex = some (.appended batch) ∧
    batches = batches.take node.db.version ++ [batch]
  reads : ∀ read ∈ node.reads, read.version ≤ node.db.version ∧
    read.value = (applyAll (batches.take read.version)).tryGet read.key
  snapshots : ∀ snapshot ∈ node.snapshots, snapshot.version ≤ node.db.version ∧
    snapshot.entries = (applyAll (batches.take snapshot.version)).entries

/-- What the fibers leave as it is: the records that are in the log, and the results that
were returned, snapshots included. -/
structure Extends (node' node : Node L) : Prop where
  records : ∀ file ∈ node.file, ∃ file' ∈ node'.file, L.records file <+: L.records file'
  reads : node.reads <+: node'.reads
  snapshots : node.snapshots <+: node'.snapshots

variable {node node' node'' : Node L} {recovered base : List (WriteBatch Key Value)}

theorem Extends.refl (node : Node L) : node.Extends node where
  records file hfile := ⟨file, hfile, List.prefix_refl _⟩
  reads := List.prefix_refl _
  snapshots := List.prefix_refl _

theorem Extends.trans (h : node''.Extends node') (h' : node'.Extends node) :
    node''.Extends node where
  records file hfile := by
    obtain ⟨file', hfile', hprefix⟩ := h'.records file hfile
    obtain ⟨file'', hfile'', hprefix'⟩ := h.records file' hfile'
    exact ⟨file'', hfile'', hprefix.trans hprefix'⟩
  reads := h'.reads.trans h.reads
  snapshots := h'.snapshots.trans h.snapshots

/-! ## One state -/

/-- The batches that are applied are a prefix of the log, and what is held is the rest. -/
theorem Consistent.isolated (h : node.Consistent recovered) :
    node.Isolated (recovered ++ node.returned ++ node.held) := by
  obtain ⟨file, hfile, -, hrecords⟩ := h.file
  have htake {n : ℕ} (hn : n ≤ (recovered ++ node.returned).length) :
      (recovered ++ node.returned ++ node.held).take n = (recovered ++ node.returned).take n :=
    List.take_append_of_le_length hn
  have hwhole : (recovered ++ node.returned ++ node.held).take node.db.version
      = recovered ++ node.returned := by
    rw [htake h.version.le, h.version, List.take_length]
  constructor
  · rw [hfile]
    rfl
  · rw [hfile]
    exact hrecords
  · rw [hwhole, h.memTable]
  · unfold held
    split
    · rename_i batch hmutex
      right
      refine ⟨batch, hmutex, ?_⟩
      have hheld : node.held = [batch] := by
        rw [held, hmutex]
      rw [← hheld, hwhole]
    · left
      rw [List.append_nil, h.version]
  · intro read hread
    obtain ⟨hle, hvalue⟩ := h.reads read hread
    rw [htake hle, h.version]
    exact ⟨hle, hvalue⟩
  · intro snapshot hsnapshot
    obtain ⟨hle, hentries⟩ := h.snapshots snapshot hsnapshot
    rw [htake hle, h.version]
    exact ⟨hle, hentries⟩

/-- Snapshots are determined by their versions. -/
theorem Isolated.entries_eq {batches : List (WriteBatch Key Value)} (h : node.Isolated batches)
    {snapshot snapshot' : Snapshot Key Value} (hsnapshot : snapshot ∈ node.snapshots)
    (hsnapshot' : snapshot' ∈ node.snapshots) (hversion : snapshot.version = snapshot'.version) :
    snapshot.entries = snapshot'.entries := by
  rw [(h.snapshots snapshot hsnapshot).2, (h.snapshots snapshot' hsnapshot').2, hversion]

/-! ## One action -/

/-- A piece of a call only adds to the log and to the results. -/
theorem Called.extends (hL : L.Spec) (h : node.Consistent recovered)
    (hcalled : Called node node') : node'.Extends node := by
  cases hcalled with
  | waits batch => exact { Extends.refl node with }
  | locked index batch hmutex hwaiting => exact { Extends.refl node with }
  | appended batch file file' db hfile hmutex happend =>
    obtain ⟨file₀, hfile₀, hwal, -⟩ := h.file
    obtain rfl := Option.some.inj (hfile.symm.trans hfile₀)
    obtain ⟨hrecords, -⟩ := hL.append file (walRecord L batch)
    rw [Database.appendToWAL, hwal] at happend
    obtain ⟨rfl, rfl⟩ := Prod.mk.inj (Except.ok.inj happend)
    refine { Extends.refl node with records := fun file' hfile' => ?_ }
    obtain rfl := Option.some.inj (hfile.symm.trans hfile')
    refine ⟨_, rfl, ?_⟩
    rw [hrecords]
    exact List.prefix_append _ _
  | finished batch hmutex => exact { Extends.refl node with }
  | misses key => exact { Extends.refl node with }
  | reads key reading => exact { Extends.refl node with reads := List.prefix_append _ _ }
  | makesSnapshot snapshot hsnapshot =>
    exact { Extends.refl node with snapshots := List.prefix_append _ _ }

/-- A call is made by a node that is up. -/
theorem called_of_isCall {action : Action Key Value} (hcall : action.isCall = true)
    (h : node.execute action = .ok node') : node.phase = .up ∧ Called node node' := by
  unfold execute at h
  split at h
  · cases hcall
  · cases hcall
  · cases hcall
  · cases hcall
  · rename_i hphase
    exact ⟨hphase, called_of_call h⟩
  · cases h

/-! ## Runs -/

/-- A run in which the fibers of one incarnation make calls. -/
def Calls (node node' : Node L) : Prop :=
  Runs.Reaches execute (fun _ action => action.isCall = true) node node'

/-- A database that was just opened holds what its log held. -/
theorem consistent_of_openDatabase (hL : L.Spec) {file : Option L.File} (hfile : Holds L file base)
    {directory : String} (hopen : openDatabase { file := file } directory = .ok node) :
    node.Consistent base := by
  obtain ⟨opening, hstart, hopen⟩ := Outcome.bind_eq_ok.mp hopen
  obtain ⟨preparing, hreplay, hopened⟩ := Outcome.bind_eq_ok.mp hopen
  obtain rfl := Except.ok.inj hstart
  obtain ⟨⟨db, file'⟩, hdir, hreplay⟩ := Outcome.bind_eq_ok.mp hreplay
  obtain rfl := Outcome.pure_eq_ok.mp hreplay
  obtain ⟨-, rfl⟩ := execute_opened hopened
  have hidle : Idle (L := L) { file := file, phase := .opening } := ⟨rfl, rfl, rfl, rfl⟩
  exact { hidle.replay hL hfile rfl hdir with }

/-- Calls keep the state consistent, and what they find in it. -/
theorem Calls.consistent_and_extends (hL : L.Spec) (h : node.Consistent recovered)
    (hcalls : node.Calls node') : node'.Consistent recovered ∧ node'.Extends node := by
  apply Runs.Reaches.invariant (I := fun node' => node'.Consistent recovered ∧ node'.Extends node)
    hcalls ⟨h, Extends.refl node⟩
  rintro node' action node'' ⟨hconsistent, hextends⟩ hcall hexecute
  obtain ⟨-, hcalled⟩ := called_of_isCall hcall hexecute
  exact ⟨hconsistent.called hL hcalled, (hcalled.extends hL hconsistent).trans hextends⟩

/-- **Atomicity, write-ahead order and isolation.**  A fresh node opens its database, and
then its fibers make any calls, interleaved in any way.  In every state that they reach the
log holds the batches of before and more, and the mem-table, all reads and all snapshots
are made of prefixes of them; snapshots of one version are equal, and later calls change
neither the log so far nor the reads and snapshots. -/
theorem isolated_of_calls (hL : L.Spec) {file : Option L.File} (hfile : Holds L file base)
    {directory : String} (hopen : openDatabase { file := file } directory = .ok node)
    (hcalls : node.Calls node') :
    (∃ batches, base <+: batches ∧ node'.Isolated batches) ∧
      (∀ snapshot ∈ node'.snapshots, ∀ snapshot' ∈ node'.snapshots,
        snapshot.version = snapshot'.version → snapshot.entries = snapshot'.entries) ∧
      ∀ node'', node'.Calls node'' → node''.Extends node' := by
  have hconsistent : node'.Consistent base :=
    (hcalls.consistent_and_extends hL (consistent_of_openDatabase hL hfile hopen)).1
  refine ⟨⟨_, ?_, hconsistent.isolated⟩, ?_, ?_⟩
  · rw [List.append_assoc]
    exact List.prefix_append _ _
  · intro snapshot hsnapshot snapshot' hsnapshot' hversion
    exact hconsistent.isolated.entries_eq hsnapshot hsnapshot' hversion
  · intro node'' hcalls'
    exact (hcalls'.consistent_and_extends hL hconsistent).2

/-! ## A short run -/

/-- A log file with one record, and a part of another. -/
def tornLog : recordLog.File := ([⟨[.put 1 10]⟩], 3)

/-- A node that has opened its database on this log. -/
def openedNode : Node recordLog :=
  match openDatabase { file := some tornLog } "db" with
  | .ok node => node
  | .error _ => {}

/-- Reads and snapshots while a writer is between the log and the mem-table. -/
def readingRun : List (Action ℕ ℕ) :=
  [.write ⟨[.put 1 20, .delete 2]⟩, .lock 0, .makeSnapshot, .tryGet 1 true, .append, .accessed 0,
    .makeSnapshot]

/-- The node after these calls. -/
def readingNode : Node recordLog :=
  (Runs.exec execute (fun _ action => action.isCall = true) openedNode readingRun).getD {}

/-- **An example of isolation.** -/
theorem isolated_of_calls_reading :
    readingNode.reads = [⟨1, some 10, 1⟩] ∧ readingNode.db.memTable.tryGet 1 = some 10 ∧
      readingNode.snapshots.map (fun snapshot => (snapshot.version, snapshot.tryGet 1))
        = [(1, some 10), (1, some 10)] ∧
      readingNode.writeMutex = some (.appended ⟨[.put 1 20, .delete 2]⟩) ∧
      (∃ batches, [⟨[.put 1 10]⟩] <+: batches ∧ readingNode.Isolated batches) ∧
      (∀ snapshot ∈ readingNode.snapshots, ∀ snapshot' ∈ readingNode.snapshots,
        snapshot.version = snapshot'.version → snapshot.entries = snapshot'.entries) ∧
      ∀ node'', readingNode.Calls node'' → node''.Extends readingNode := by
  have hfile : Holds recordLog (some tornLog) [⟨[.put 1 10]⟩] := rfl
  have hopen : openDatabase { file := some tornLog } "db" = .ok openedNode := rfl
  have hrun : Runs.exec execute (fun _ action => action.isCall = true) openedNode readingRun
      = some readingNode := rfl
  exact ⟨by decide, by decide, by decide, by decide, isolated_of_calls spec_recordLog hfile hopen
    (Runs.reaches_of_exec hrun)⟩

end Node

end Whirl.Db
