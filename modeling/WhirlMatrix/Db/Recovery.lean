/-
# Recovery after crashes

The mem-table of a running node is made of the batches of its log, except for one batch
that the writer may have appended but not applied yet.  So after any number of crashes
the next `Open` finds every batch whose `Write` has returned, in the order of the
writes, and at most one more batch for each crash.
-/
import WhirlMatrix.Library.Runs
import WhirlMatrix.Db.Node

namespace Whirl.Db

variable {Key Value : Type} [Ord Key] [Std.TransOrd Key] {L : Libraries Key Value}

/-! ## What a table and a log hold -/

/-- Batches applied one after another to the empty table. -/
def applyAll (batches : List (WriteBatch Key Value)) : MemTable Key Value :=
  batches.foldl MemTable.applyBatch {}

@[simp] theorem applyAll_concat (batches : List (WriteBatch Key Value))
    (batch : WriteBatch Key Value) :
    applyAll (batches ++ [batch]) = (applyAll batches).applyBatch batch := by
  rw [applyAll, List.foldl_append]
  rfl

/-- A key has the value of its last put, unless it was deleted after that. -/
theorem tryGet_applyAll (batches : List (WriteBatch Key Value)) (key : Key) :
    (applyAll batches).tryGet key = ((batches.flatMap WriteBatch.muts).reverse.find? fun mutation =>
      compare mutation.key key == .eq).bind Mutation.value? := by
  have happly : applyAll batches
      = (batches.flatMap WriteBatch.muts).foldl MemTable.applyMutation {} := by
    rw [List.foldl_flatMap]
    rfl
  have hempty : ({} : MemTable Key Value).tryGet key = none := Std.ExtTreeMap.getElem?_empty
  rw [happly, MemTable.tryGet_foldl_applyMutation, hempty]
  cases (batches.flatMap WriteBatch.muts).reverse.find? _ with
  | none => rfl
  | some mutation => rfl

/-- A log file, if there is one, holds the records of some batches. -/
def Holds (L : Libraries Key Value) (file : Option L.File) (batches : List (WriteBatch Key Value)) :
    Prop :=
  match file with
  | none => batches = []
  | some file => L.records file = batches.map (walRecord L)

/-- The batches that a log may hold after some incarnations have crashed: what it held at
first, and for each incarnation all the batches whose `Write` returned, and at most one
whose `Write` was interrupted. -/
inductive Recovered (base : List (WriteBatch Key Value)) :
    List (Incarnation Key Value) → List (WriteBatch Key Value) → Prop
  | start : Recovered base [] base
  | crash {incarnations : List (Incarnation Key Value)} {batches : List (WriteBatch Key Value)}
      (incarnation : Incarnation Key Value) (extra : Option (WriteBatch Key Value))
      (h : Recovered base incarnations batches)
      (hextra : ∀ batch ∈ extra, batch ∈ incarnation.interrupted) :
      Recovered base (incarnations ++ [incarnation])
        (batches ++ incarnation.returned ++ extra.toList)

/-- The batches of an incarnation, those whose `Write` returned first. -/
def Incarnation.batches (incarnation : Incarnation Key Value) : List (WriteBatch Key Value) :=
  incarnation.returned ++ incarnation.interrupted

omit [Ord Key] [Std.TransOrd Key] in
/-- A log holds at most what it held at first and what was submitted to the incarnations. -/
theorem Recovered.length_le {base recovered : List (WriteBatch Key Value)}
    {incarnations : List (Incarnation Key Value)} (h : Recovered base incarnations recovered) :
    recovered.length ≤ base.length + (incarnations.flatMap Incarnation.batches).length := by
  induction h with
  | start => exact Nat.le_add_right ..
  | crash incarnation extra _ hextra ih =>
    have hone : extra.toList.length ≤ incarnation.interrupted.length := by
      cases extra with
      | none => exact Nat.zero_le _
      | some batch => exact List.length_pos_of_mem (hextra batch rfl)
    simp only [List.flatMap_append, List.flatMap_singleton, Incarnation.batches,
      List.length_append]
    omega

/-! ## Replay -/

omit [Ord Key] [Std.TransOrd Key] in
/-- Reading a record gives the batch of which it was made. -/
theorem readRecord_walRecord (hL : L.Spec) (batch : WriteBatch Key Value) :
    readRecord L (walRecord L batch) = .ok batch := by
  rw [readRecord, walRecord, hL.deserialize, Outcome.ok_bind]
  rfl

/-- Replay applies the batches in their order and counts them. -/
theorem foldlM_replayRecord (hL : L.Spec) (batches : List (WriteBatch Key Value))
    (db : Database Key Value) :
    (batches.map (walRecord L)).foldlM (Database.replayRecord L) db = .ok { db with
      memTable := batches.foldl MemTable.applyBatch db.memTable
      version := db.version + batches.length } := by
  induction batches generalizing db with
  | nil => rfl
  | cons batch batches ih =>
    rw [List.map_cons, List.foldlM_cons, Database.replayRecord, readRecord_walRecord hL,
      Outcome.ok_bind]
    show (batches.map (walRecord L)).foldlM (Database.replayRecord L) _ = _
    rw [ih, List.length_cons, Nat.add_comm batches.length 1, ← Nat.add_assoc]
    rfl

/-- **`Open` of a fresh database** finds the batches of the log, and its writer goes on
where the log ends. -/
theorem openDir_eq_ok (hL : L.Spec) {file : Option L.File} {batches : List (WriteBatch Key Value)}
    (hfile : Holds L file batches) (directory : String) :
    ∃ file', ({} : Database Key Value).openDir L directory file = .ok
        ({ dir := some directory
           memTable := applyAll batches
           wal := some (L.offsetForWriter file')
           version := batches.length }, file') ∧
      L.records file' = batches.map (walRecord L) := by
  cases file with
  | none =>
    obtain rfl : batches = [] := hfile
    obtain ⟨hrecords, hoffset⟩ := hL.openWriter_none
    refine ⟨L.openWriter none 0, ?_, hrecords⟩
    rw [hoffset]
    rfl
  | some file =>
    have hfile : L.records file = batches.map (walRecord L) := hfile
    obtain ⟨hrecords, hoffset⟩ := hL.openWriter_some file
    refine ⟨L.openWriter (some file) (L.offsetForWriter file), ?_, hrecords.trans hfile⟩
    rw [hoffset, Database.openDir, Database.replayWAL]
    dsimp only
    rw [hfile, foldlM_replayRecord hL]
    show Except.ok _ = _
    simp only [Nat.zero_add]
    rfl

/-! ## The invariant -/

namespace Node

/-- The batch of a writer whose record is on disk, but which is not applied yet. -/
def held (node : Node L) : List (WriteBatch Key Value) :=
  match node.writeMutex with
  | some (.appended batch) => [batch]
  | _ => []

/-- A node whose database is open: its log holds the batches that were recovered, those
whose `Write` has returned, and at most one more, which the writer holds. -/
structure Consistent (node : Node L) (recovered : List (WriteBatch Key Value)) : Prop where
  file : ∃ file, node.file = some file ∧ node.db.wal = some (L.offsetForWriter file) ∧
    L.records file = (recovered ++ node.returned ++ node.held).map (walRecord L)
  memTable : node.db.memTable = applyAll (recovered ++ node.returned)
  version : node.db.version = (recovered ++ node.returned).length
  snapshots : ∀ snapshot ∈ node.snapshots,
    snapshot.version ≤ (recovered ++ node.returned).length ∧
      snapshot.entries = (applyAll ((recovered ++ node.returned).take snapshot.version)).entries
  reads : ∀ read ∈ node.reads, read.version ≤ (recovered ++ node.returned).length ∧
    read.value = (applyAll ((recovered ++ node.returned).take read.version)).tryGet read.key

/-- No call was made since the last crash. -/
structure Idle (node : Node L) : Prop where
  writeMutex : node.writeMutex = none
  returned : node.returned = []
  reads : node.reads = []
  snapshots : node.snapshots = []

/-- The state of a node agrees with what was recovered from earlier incarnations. -/
def Sound (node : Node L) (base : List (WriteBatch Key Value)) : Prop :=
  ∃ recovered, Recovered base node.incarnations recovered ∧
    match node.phase with
    | .down => node.Idle ∧ Holds L node.file recovered
    | .opening => node.Idle ∧ Holds L node.file recovered ∧ node.db = {}
    | .preparing => node.Idle ∧ node.Consistent recovered
    | .up => node.Consistent recovered

variable {node node' : Node L} {recovered base : List (WriteBatch Key Value)}

/-! ## What an action can do -/

/-- What a piece of a call does to a node. -/
inductive Called (node : Node L) : Node L → Prop
  | waits (batch : WriteBatch Key Value) :
      Called node { node with waiting := node.waiting ++ [batch] }
  | locked (index : ℕ) (batch : WriteBatch Key Value) (hmutex : node.writeMutex = none)
      (hwaiting : node.waiting[index]? = some batch) :
      Called node { node with
        writeMutex := some (.appending batch)
        waiting := node.waiting.eraseIdx index }
  | appended (batch : WriteBatch Key Value) (file file' : L.File) (db : Database Key Value)
      (hfile : node.file = some file) (hmutex : node.writeMutex = some (.appending batch))
      (happend : node.db.appendToWAL L file batch = .ok (db, file')) :
      Called node { node with
        file := some file'
        db := db
        writeMutex := some (.appended batch) }
  | finished (batch : WriteBatch Key Value) (hmutex : node.writeMutex = some (.appended batch)) :
      Called node { node with
        db := node.db.finishWrite batch
        writeMutex := none
        returned := node.returned ++ [batch] }
  | misses (key : Key) : Called node { node with reading := node.reading ++ [key] }
  | reads (key : Key) (reading : List Key) :
      Called node { node.readTable key with reading := reading }
  | makesSnapshot (snapshot : Snapshot Key Value)
      (hsnapshot : node.db.makeSnapshot = .ok snapshot) :
      Called node { node with snapshots := node.snapshots ++ [snapshot] }

theorem called_of_doWrite {batch : WriteBatch Key Value} (h : node.doWrite batch = .ok node') :
    Called node node' := by
  obtain ⟨_, -, h⟩ := Outcome.bind_eq_ok.mp h
  obtain rfl := Outcome.pure_eq_ok.mp h
  exact Called.waits batch

/-- The actions of a node that is up, one by one. -/
theorem called_of_call {action : Action Key Value} (h : node.call action = .ok node') :
    Called node node' := by
  cases action with
  -- Starting, replaying and crashing are not calls.
  | start => cases h
  | replay directory => cases h
  | opened => cases h
  | crash written => cases h
  | write batch => exact called_of_doWrite h
  | put key value => exact called_of_doWrite h
  | delete key => exact called_of_doWrite h
  | lock index =>
    simp only [call] at h
    split at h
    · rename_i batch hmutex hwaiting
      obtain rfl := Except.ok.inj h
      exact Called.locked index batch hmutex hwaiting
    · cases h
  | append =>
    simp only [call] at h
    split at h
    · rename_i file batch hfile hmutex
      obtain ⟨⟨db, file'⟩, happend, h⟩ := Outcome.bind_eq_ok.mp h
      obtain rfl := Outcome.pure_eq_ok.mp h
      exact Called.appended batch file file' db hfile hmutex happend
    · cases h
  | finish =>
    simp only [call] at h
    split at h
    · rename_i batch hmutex
      obtain rfl := Except.ok.inj h
      exact Called.finished batch hmutex
    · cases h
  | tryGet key cacheMiss =>
    obtain ⟨_, -, h⟩ := Outcome.bind_eq_ok.mp h
    cases cacheMiss with
    | true =>
      obtain rfl := Outcome.pure_eq_ok.mp h
      exact Called.misses key
    | false =>
      obtain rfl := Outcome.pure_eq_ok.mp h
      exact Called.reads key node.reading
  | accessed index =>
    simp only [call] at h
    split at h
    · rename_i key _
      obtain rfl := Except.ok.inj h
      exact Called.reads key (node.reading.eraseIdx index)
    · cases h
  | makeSnapshot =>
    obtain ⟨snapshot, hsnapshot, h⟩ := Outcome.bind_eq_ok.mp h
    obtain rfl := Outcome.pure_eq_ok.mp h
    exact Called.makesSnapshot snapshot hsnapshot

/-- A call changes neither the phase nor the record of earlier incarnations. -/
theorem Called.frame (h : Called node node') :
    node'.phase = node.phase ∧ node'.incarnations = node.incarnations := by
  cases h with
  | _ => exact ⟨rfl, rfl⟩

/-- What an action does to a node. -/
inductive Executed (node : Node L) : Node L → Prop
  | start (hphase : node.phase = .down) : Executed node { node with phase := .opening, db := {} }
  | replay (directory : String) (db : Database Key Value) (file : L.File)
      (hphase : node.phase = .opening)
      (hopen : node.db.openDir L directory node.file = .ok (db, file)) :
      Executed node { node with phase := .preparing, db := db, file := some file }
  | opened (hphase : node.phase = .preparing) : Executed node { node with phase := .up }
  | crash (written : ℕ) : Executed node {
      file := node.fileAfterCrash written
      incarnations := node.incarnations ++ [⟨node.returned,
        node.waiting ++ (node.writeMutex.map Writer.batch).toList⟩] }
  | call {node'' : Node L} (hphase : node.phase = .up) (hcall : Called node node'') :
      Executed node node''

theorem executed_of_execute {action : Action Key Value} (h : node.execute action = .ok node') :
    Executed node node' := by
  unfold execute at h
  split at h
  · rename_i hphase
    obtain rfl := Except.ok.inj h
    exact Executed.start hphase
  · rename_i directory hphase
    obtain ⟨⟨db, file⟩, hopen, h⟩ := Outcome.bind_eq_ok.mp h
    obtain rfl := Outcome.pure_eq_ok.mp h
    exact Executed.replay directory db file hphase hopen
  · rename_i hphase
    obtain rfl := Except.ok.inj h
    exact Executed.opened hphase
  · rename_i written
    obtain rfl := Except.ok.inj h
    exact Executed.crash written
  · rename_i hphase
    exact Executed.call hphase (called_of_call h)
  · cases h

theorem execute_opened (h : node.execute .opened = .ok node') :
    node.phase = .preparing ∧ node' = { node with phase := .up } := by
  cases hphase : node.phase with
  | preparing =>
    simp only [execute, hphase] at h
    exact ⟨rfl, (Except.ok.inj h).symm⟩
  | _ => simp [execute, hphase, call] at h

/-! ## Calls -/

/-- A read finds what the table holds now. -/
theorem Consistent.readTable (h : node.Consistent recovered) (key : Key) :
    (node.readTable key).Consistent recovered :=
  { h with
    reads := fun read hread => by
      rcases List.mem_append.mp hread with hread | hread
      · exact h.reads read hread
      · obtain rfl := List.mem_singleton.mp hread
        refine ⟨h.version.le, ?_⟩
        show node.db.memTable.tryGet key
          = (applyAll ((recovered ++ node.returned).take node.db.version)).tryGet key
        rw [h.version, List.take_length, h.memTable] }

/-- The record of the writer reaches the disk. -/
theorem Consistent.append (hL : L.Spec) (h : node.Consistent recovered) {file : L.File}
    {batch : WriteBatch Key Value} {db : Database Key Value} {file' : L.File}
    (hfile : node.file = some file) (hmutex : node.writeMutex = some (.appending batch))
    (happend : node.db.appendToWAL L file batch = .ok (db, file')) :
    { node with
      file := some file'
      db := db
      writeMutex := some (.appended batch) }.Consistent recovered := by
  obtain ⟨file'', hfile'', hwal, hrecords⟩ := h.file
  obtain rfl := Option.some.inj (hfile.symm.trans hfile'')
  obtain ⟨hrecords', hoffset⟩ := hL.append file (walRecord L batch)
  rw [Database.appendToWAL, hwal] at happend
  obtain ⟨rfl, rfl⟩ := Prod.mk.inj (Except.ok.inj happend)
  have hheld : node.held = [] := by
    rw [held, hmutex]
  rw [hheld, List.append_nil] at hrecords
  refine { h with file := ⟨_, rfl, ?_, ?_⟩ }
  · show some _ = some _
    rw [hoffset]
  · show _ = (recovered ++ node.returned ++ [batch]).map (walRecord L)
    rw [hrecords', hrecords, ← List.map_singleton, ← List.map_append]

/-- The writer applies its batch. -/
theorem Consistent.finish (h : node.Consistent recovered) {batch : WriteBatch Key Value}
    (hmutex : node.writeMutex = some (.appended batch)) :
    { node with
      db := node.db.finishWrite batch
      writeMutex := none
      returned := node.returned ++ [batch] }.Consistent recovered := by
  obtain ⟨file, hfile, hwal, hrecords⟩ := h.file
  have hheld : node.held = [batch] := by
    rw [held, hmutex]
  have happlied : recovered ++ (node.returned ++ [batch]) = recovered ++ node.returned ++ [batch] :=
    (List.append_assoc ..).symm
  have hlength : (recovered ++ (node.returned ++ [batch])).length
      = (recovered ++ node.returned).length + 1 := by
    rw [happlied, List.length_append]
    rfl
  refine ⟨⟨file, hfile, hwal, ?_⟩, ?_, ?_, fun snapshot hsnapshot => ?_, fun read hread => ?_⟩
  · show _ = (recovered ++ (node.returned ++ [batch]) ++ []).map (walRecord L)
    rw [hrecords, hheld, happlied, List.append_nil]
  · show node.db.memTable.applyBatch batch = applyAll (recovered ++ (node.returned ++ [batch]))
    rw [happlied, applyAll_concat, h.memTable]
  · show node.db.version + 1 = (recovered ++ (node.returned ++ [batch])).length
    rw [hlength, h.version]
  · obtain ⟨hle, hentries⟩ := h.snapshots snapshot hsnapshot
    show _ ≤ (recovered ++ (node.returned ++ [batch])).length ∧
      _ = (applyAll ((recovered ++ (node.returned ++ [batch])).take _)).entries
    rw [hlength, happlied, List.take_append_of_le_length hle]
    exact ⟨Nat.le_succ_of_le hle, hentries⟩
  · obtain ⟨hle, hvalue⟩ := h.reads read hread
    show _ ≤ (recovered ++ (node.returned ++ [batch])).length ∧
      _ = (applyAll ((recovered ++ (node.returned ++ [batch])).take _)).tryGet _
    rw [hlength, happlied, List.take_append_of_le_length hle]
    exact ⟨Nat.le_succ_of_le hle, hvalue⟩

/-- A snapshot is taken of what the table holds now. -/
theorem Consistent.makeSnapshot (h : node.Consistent recovered) {snapshot : Snapshot Key Value}
    (hsnapshot : node.db.makeSnapshot = .ok snapshot) :
    { node with snapshots := node.snapshots ++ [snapshot] }.Consistent recovered := by
  obtain ⟨_, -, hsnapshot⟩ := Outcome.bind_eq_ok.mp hsnapshot
  obtain rfl := Outcome.pure_eq_ok.mp hsnapshot
  refine { h with snapshots := fun snapshot hsnapshot => ?_ }
  rcases List.mem_append.mp hsnapshot with hsnapshot | hsnapshot
  · exact h.snapshots snapshot hsnapshot
  · obtain rfl := List.mem_singleton.mp hsnapshot
    refine ⟨h.version.le, ?_⟩
    show node.db.memTable.entries = (applyAll ((recovered ++ node.returned).take node.db.version)).entries
    rw [h.version, List.take_length, h.memTable]

/-- Every piece of a call keeps the state consistent. -/
theorem Consistent.called (hL : L.Spec) (h : node.Consistent recovered)
    (hcalled : Called node node') : node'.Consistent recovered := by
  cases hcalled with
  | waits batch => exact { h with }
  | locked index batch hmutex hwaiting =>
    obtain ⟨file, hfile, hwal, hrecords⟩ := h.file
    have hheld : node.held = [] := by
      rw [held, hmutex]
    rw [hheld] at hrecords
    exact { h with file := ⟨file, hfile, hwal, hrecords⟩ }
  | appended batch file file' db hfile hmutex happend => exact h.append hL hfile hmutex happend
  | finished batch hmutex => exact h.finish hmutex
  | misses key => exact { h with }
  | reads key reading => exact { h.readTable key with }
  | makesSnapshot snapshot hsnapshot => exact h.makeSnapshot hsnapshot

/-! ## Crashes and the next start -/

/-- Nothing is held and nothing has returned when no call was made. -/
theorem Idle.written (h : node.Idle) : recovered ++ node.returned ++ node.held = recovered := by
  rw [held, h.writeMutex, h.returned, List.append_nil]
  exact List.append_nil _

theorem Idle.fileAfterCrash (h : node.Idle) (written : ℕ) :
    node.fileAfterCrash written = node.file := by
  unfold Node.fileAfterCrash
  split
  · rename_i hmutex
    rw [h.writeMutex] at hmutex
    cases hmutex
  · rfl

/-- **The log after a crash** holds the batches that were recovered, those whose `Write`
has returned, and at most one whose `Write` the crash interrupts. -/
theorem Consistent.holds_fileAfterCrash (hL : L.Spec) (h : node.Consistent recovered)
    (written : ℕ) : ∃ extra : Option (WriteBatch Key Value),
      (∀ batch ∈ extra, batch ∈ node.waiting ++ (node.writeMutex.map Writer.batch).toList) ∧
        Holds L (node.fileAfterCrash written) (recovered ++ node.returned ++ extra.toList) := by
  obtain ⟨file, hfile, hwal, hrecords⟩ := h.file
  unfold held at hrecords
  unfold Node.fileAfterCrash
  rw [hfile, hwal]
  cases hmutex : node.writeMutex with
  | none =>
    rw [hmutex] at hrecords
    exact ⟨none, nofun, hrecords⟩
  | some writer =>
    rw [hmutex] at hrecords
    have hmem : writer.batch ∈ node.waiting ++ [writer.batch] :=
      List.mem_append_right _ (List.mem_singleton_self _)
    cases writer with
    | appended batch =>
      exact ⟨some batch, fun _ hbatch => Option.mem_some.mp hbatch ▸ hmem, hrecords⟩
    | appending batch =>
      -- The crash comes inside `Append`, which is atomic.
      have hrecords : L.records file = (recovered ++ node.returned).map (walRecord L) := by
        rw [hrecords, List.append_nil]
      rcases hL.interrupted file (walRecord L batch) written with hinterrupted | hinterrupted
      · refine ⟨none, nofun, ?_⟩
        show _ = (recovered ++ node.returned ++ []).map (walRecord L)
        rw [List.append_nil, ← hrecords, hinterrupted]
      · refine ⟨some batch, fun _ hbatch => Option.mem_some.mp hbatch ▸ hmem, ?_⟩
        show _ = (recovered ++ node.returned ++ [batch]).map (walRecord L)
        rw [List.map_append, ← hrecords, hinterrupted, List.map_singleton]

theorem Idle.holds_fileAfterCrash (h : node.Idle) (hfile : Holds L node.file recovered)
    (written : ℕ) : ∃ extra : Option (WriteBatch Key Value),
      (∀ batch ∈ extra, batch ∈ node.waiting ++ (node.writeMutex.map Writer.batch).toList) ∧
        Holds L (node.fileAfterCrash written) (recovered ++ node.returned ++ extra.toList) := by
  refine ⟨none, nofun, ?_⟩
  rw [h.fileAfterCrash, h.returned, List.append_nil]
  exact (List.append_nil recovered).symm ▸ hfile

/-- A crash leaves a node whose log holds what the next incarnation recovers. -/
theorem Sound.crash (hL : L.Spec) (h : node.Sound base) (written : ℕ) :
    Sound (L := L) {
      file := node.fileAfterCrash written
      incarnations := node.incarnations ++ [⟨node.returned,
        node.waiting ++ (node.writeMutex.map Writer.batch).toList⟩] } base := by
  obtain ⟨recovered, hrecovered, hnode⟩ := h
  have hcrash : ∃ extra : Option (WriteBatch Key Value),
      (∀ batch ∈ extra, batch ∈ node.waiting ++ (node.writeMutex.map Writer.batch).toList) ∧
        Holds L (node.fileAfterCrash written) (recovered ++ node.returned ++ extra.toList) := by
    cases hphase : node.phase with
    | down =>
      rw [hphase] at hnode
      exact hnode.1.holds_fileAfterCrash hnode.2 written
    | opening =>
      rw [hphase] at hnode
      exact hnode.1.holds_fileAfterCrash hnode.2.1 written
    | preparing =>
      rw [hphase] at hnode
      exact hnode.2.holds_fileAfterCrash hL written
    | up =>
      rw [hphase] at hnode
      exact hnode.holds_fileAfterCrash hL written
  obtain ⟨extra, hextra, hholds⟩ := hcrash
  exact ⟨_, Recovered.crash _ extra hrecovered hextra, ⟨rfl, rfl, rfl, rfl⟩, hholds⟩

/-- An opened database holds what was recovered. -/
theorem Idle.replay (hL : L.Spec) (h : node.Idle) (hholds : Holds L node.file recovered)
    (hdb : node.db = {}) {directory : String} {db : Database Key Value} {file : L.File}
    (hopen : node.db.openDir L directory node.file = .ok (db, file)) :
    { node with phase := .preparing, db := db, file := some file }.Consistent recovered := by
  obtain ⟨file', hok, hrecords⟩ := openDir_eq_ok hL hholds directory
  rw [hdb, hok] at hopen
  obtain ⟨rfl, rfl⟩ := Prod.mk.inj (Except.ok.inj hopen)
  have happlied : recovered ++ node.returned = recovered := by
    rw [h.returned, List.append_nil]
  refine ⟨⟨file', rfl, rfl, ?_⟩, ?_, ?_, fun snapshot hsnapshot => ?_, fun read hread => ?_⟩
  · show _ = (recovered ++ node.returned ++ node.held).map (walRecord L)
    rw [h.written, hrecords]
  · show _ = applyAll (recovered ++ node.returned)
    rw [happlied]
  · show _ = (recovered ++ node.returned).length
    rw [happlied]
  · have hsnapshot : snapshot ∈ node.snapshots := hsnapshot
    rw [h.snapshots] at hsnapshot
    cases hsnapshot
  · have hread : read ∈ node.reads := hread
    rw [h.reads] at hread
    cases hread

/-! ## Runs -/

/-- Every action keeps the state of a node sound. -/
theorem Sound.execute (hL : L.Spec) (h : node.Sound base) {action : Action Key Value}
    (hexecute : node.execute action = .ok node') : node'.Sound base := by
  cases executed_of_execute hexecute with
  | start hphase =>
    obtain ⟨recovered, hrecovered, hnode⟩ := h
    rw [hphase] at hnode
    obtain ⟨hidle, hholds⟩ := hnode
    exact ⟨recovered, hrecovered, { hidle with }, hholds, rfl⟩
  | replay directory db file hphase hopen =>
    obtain ⟨recovered, hrecovered, hnode⟩ := h
    rw [hphase] at hnode
    obtain ⟨hidle, hholds, hdb⟩ := hnode
    exact ⟨recovered, hrecovered, { hidle with }, hidle.replay hL hholds hdb hopen⟩
  | opened hphase =>
    obtain ⟨recovered, hrecovered, hnode⟩ := h
    rw [hphase] at hnode
    exact ⟨recovered, hrecovered, { hnode.2 with }⟩
  | crash written => exact h.crash hL written
  | call hphase hcalled =>
    obtain ⟨recovered, hrecovered, hnode⟩ := h
    obtain ⟨hphase', hincarnations⟩ := hcalled.frame
    rw [hphase] at hnode
    refine ⟨recovered, hincarnations ▸ hrecovered, ?_⟩
    rw [hphase', hphase]
    exact hnode.called hL hcalled

/-- A node that was never started is sound. -/
theorem sound_fresh {file : Option L.File} (hfile : Holds L file base) :
    Sound (L := L) { file := file } base :=
  ⟨base, Recovered.start, ⟨rfl, rfl, rfl, rfl⟩, hfile⟩

theorem sound_of_reaches (hL : L.Spec) {file : Option L.File} (hfile : Holds L file base)
    (hrun : Runs.Reaches execute (fun _ _ => True) { file := file } node) : node.Sound base :=
  hrun.invariant (sound_fresh hfile) fun _ _ _ hsound _ hexecute =>
    Sound.execute hL hsound hexecute

/-- The batches that were submitted to a node. -/
def submitted (node : Node L) : List (WriteBatch Key Value) :=
  (node.incarnations.flatMap Incarnation.batches) ++ node.returned ++ node.waiting
    ++ (node.writeMutex.map Writer.batch).toList

/-- An action submits one batch at most. -/
theorem length_submitted_le_of_execute {action : Action Key Value}
    (h : node.execute action = .ok node') :
    node'.submitted.length ≤ node.submitted.length + 1 := by
  cases executed_of_execute h with
  | start hphase => exact Nat.le_succ _
  | replay directory db file hphase hopen => exact Nat.le_succ _
  | opened hphase => exact Nat.le_succ _
  | crash written =>
    simp only [submitted, List.flatMap_append, List.flatMap_singleton, Incarnation.batches,
      List.length_append, List.length_nil, Option.map_none, Option.toList_none]
    omega
  | call hphase hcalled =>
    cases hcalled with
    | waits batch =>
      simp only [submitted, List.length_append, List.length_singleton]
      omega
    | locked index batch hmutex hwaiting =>
      have hindex : index < node.waiting.length := (List.getElem?_eq_some_iff.mp hwaiting).1
      simp only [submitted, hmutex, List.length_append, List.length_eraseIdx_of_lt hindex,
        Option.map_some, Option.map_none, Option.toList_some, Option.toList_none,
        List.length_singleton, List.length_nil]
      omega
    | appended batch file file' db hfile hmutex happend =>
      simp only [submitted, hmutex, List.length_append, Option.map_some, Option.toList_some,
        List.length_singleton]
      omega
    | finished batch hmutex =>
      simp only [submitted, hmutex, List.length_append, List.length_singleton, Option.map_some,
        Option.map_none, Option.toList_some, Option.toList_none, List.length_nil]
      omega
    | misses key => exact Nat.le_succ _
    | reads key reading => exact Nat.le_succ _
    | makesSnapshot snapshot hsnapshot => exact Nat.le_succ _

/-- An open database has applied at most what it had at first and what was submitted. -/
theorem Sound.version_le (h : node.Sound base) (hphase : node.phase = .up) :
    node.db.version ≤ base.length + node.submitted.length := by
  obtain ⟨recovered, hrecovered, hnode⟩ := h
  rw [hphase] at hnode
  have hlength := hrecovered.length_le
  simp only [submitted, List.length_append]
  rw [hnode.version, List.length_append]
  omega

/-- `version_` is exact in every run in which fewer than 2^64 batches are ever in the log. -/
theorem version_mod_of_reachesIn (hL : L.Spec) {file : Option L.File} (hfile : Holds L file base)
    {n : ℕ} (hrun : Runs.ReachesIn execute (fun _ _ => True) n { file := file } node)
    (hphase : node.phase = .up) (hfew : base.length + n < 2 ^ 64) :
    node.db.version % 2 ^ 64 = node.db.version := by
  have hsound := sound_of_reaches hL hfile (Runs.reaches_iff_exists_reachesIn.mpr ⟨n, hrun⟩)
  have hversion := hsound.version_le hphase
  have hsubmitted : node.submitted.length ≤ 0 + n :=
    hrun.counter_le (f := fun node => node.submitted.length)
      fun _ _ _ _ h => length_submitted_le_of_execute h
  exact Nat.mod_eq_of_lt (by omega)

/-- **Durability.**  In any run of a node whose log holds the batches `base` at first, with
any calls, crashes and restarts, `Open` reads the whole log, and when it returns, the
mem-table is made of the batches of the log.  These are `base`, and for each incarnation
that crashed all the batches whose `Write` returned, in this order, and at most one more. -/
theorem recovered_of_reaches (hL : L.Spec) {file : Option L.File} (hfile : Holds L file base)
    (hrun : Runs.Reaches execute (fun _ _ => True) { file := file } node) :
    (node.phase = .opening → ∀ directory, ∃ node', node.execute (.replay directory) = .ok node') ∧
      ∀ node', node.execute .opened = .ok node' → ∃ batches,
        Recovered base node'.incarnations batches ∧ Holds L node'.file batches ∧
          node'.db.memTable = applyAll batches ∧ node'.db.version = batches.length := by
  obtain ⟨recovered, hrecovered, hnode⟩ := sound_of_reaches hL hfile hrun
  constructor
  · intro hphase directory
    rw [hphase] at hnode
    obtain ⟨-, hholds, hdb⟩ := hnode
    obtain ⟨file', hopen, -⟩ := openDir_eq_ok hL hholds directory
    simp only [execute, hphase, hdb, hopen]
    exact ⟨_, rfl⟩
  · intro node' hopened
    obtain ⟨hphase, rfl⟩ := execute_opened hopened
    rw [hphase] at hnode
    obtain ⟨hidle, hconsistent⟩ := hnode
    obtain ⟨file', hfile', -, hrecords⟩ := hconsistent.file
    refine ⟨recovered, hrecovered, ?_, ?_, ?_⟩
    · show Holds L node.file recovered
      rw [hfile', Holds, hrecords, hidle.written]
    · show node.db.memTable = _
      rw [hconsistent.memTable, hidle.returned, List.append_nil]
    · show node.db.version = _
      rw [hconsistent.version, hidle.returned, List.append_nil]

end Node

/-! ## A short run -/

/-- A log file that is a list of records and a number of bytes of one more record. -/
def recordLog : Libraries ℕ ℕ where
  File := List (WALEntry ℕ ℕ) × ℕ
  Record := WALEntry ℕ ℕ
  serialize entry := entry
  deserialize record := .ok record
  records file := file.1
  offsetForWriter file := file.1.length
  openWriter
    | none, _ => ([], 0)
    | some file, offset => (file.1.take offset, 0)
  append file offset record := ((file.1.take offset ++ [record], 0), offset + 1)
  interrupted file offset record written :=
    if record.muts.length ≤ written then
      (file.1.take offset ++ [record], 0)
    else
      (file.1.take offset, written)

/-- A whole file is not cut off. -/
theorem take_records (file : List (WALEntry ℕ ℕ) × ℕ) :
    file.1.take (recordLog.offsetForWriter file) = file.1 :=
  List.take_length

theorem spec_recordLog : recordLog.Spec where
  deserialize _ := rfl
  openWriter_none := ⟨rfl, rfl⟩
  openWriter_some file := ⟨take_records file, congrArg List.length (take_records file)⟩
  append file (record : WALEntry ℕ ℕ) := by
    refine ⟨congrArg (fun records => records ++ [record]) (take_records file), ?_⟩
    show (List.take _ file.1 ++ [record]).length = file.1.length + 1
    rw [take_records file, List.length_append]
    rfl
  interrupted file record written := by
    by_cases hwritten : record.muts.length ≤ written
    · right
      show (if _ then _ else _ : List (WALEntry ℕ ℕ) × ℕ).1 = _
      rw [if_pos hwritten]
      exact congrArg (fun records => records ++ [record]) (take_records file)
    · left
      show (if _ then _ else _ : List (WALEntry ℕ ℕ) × ℕ).1 = _
      rw [if_neg hwritten]
      exact take_records file

/-- A write returns, a second one is interrupted when its record is on disk, and a third
one waits for the mutex. -/
def interruptedRun : List (Action ℕ ℕ) :=
  [.start, .replay "db", .opened, .put 1 10, .delete 1, .lock 0, .append, .finish, .put 2 20,
    .lock 0, .append, .crash 0, .start, .replay "db"]

/-- The node after this, in its second incarnation. -/
def reopening : Node recordLog :=
  (Runs.exec Node.execute (fun _ _ => True) {} interruptedRun).getD {}

/-- **An example of durability.**  The deletion of key 1 was interrupted, and nevertheless it is
there; the write to key 2 was still waiting, and is not. -/
theorem recovered_of_reaches_reopening :
    reopening.incarnations = [⟨[⟨[.put 1 10]⟩], [⟨[.put 2 20]⟩, ⟨[.delete 1]⟩]⟩] ∧
      ∃ node', reopening.execute .opened = .ok node' ∧ node'.db.memTable.tryGet 1 = none ∧
        node'.db.memTable.tryGet 2 = none ∧ ∃ batches,
        Recovered [] node'.incarnations batches ∧ Holds recordLog node'.file batches ∧
          node'.db.memTable = applyAll batches ∧ node'.db.version = batches.length := by
  have hrun : Runs.exec Node.execute (fun _ _ => True) {} interruptedRun = some reopening := rfl
  have hfile : Holds recordLog none [] := rfl
  obtain ⟨-, hopened⟩ :=
    Node.recovered_of_reaches spec_recordLog hfile (Runs.reaches_of_exec hrun)
  exact ⟨by decide, _, rfl, by decide, by decide, hopened _ rfl⟩

end Whirl.Db
