/-
# The batches in the log of a node

Which batches the log of a node holds between its actions.  An action adds at most one batch:
`finish` the one that it applies, and a crash perhaps one that a writer was about to write.
-/
import WhirlMatrix.Db.Isolation

namespace Whirl.Db.Node

/-! ## What the single actions do -/

variable {Key Value : Type} [Ord Key] [Std.TransOrd Key] {L : Libraries Key Value}
  {node node' : Node L}

theorem execute_start (h : node.execute .start = .ok node') :
    node.phase = .down ∧ node' = { node with phase := .opening, db := {} } := by
  cases hphase : node.phase with
  | down =>
    simp only [execute, hphase] at h
    exact ⟨rfl, (Except.ok.inj h).symm⟩
  | _ => simp [execute, hphase, call] at h

theorem execute_replay {directory : String} (h : node.execute (.replay directory) = .ok node') :
    node.phase = .opening ∧ ∃ db file, node.db.openDir L directory node.file = .ok (db, file) ∧
      node' = { node with phase := .preparing, db := db, file := some file } := by
  cases hphase : node.phase with
  | opening =>
    simp only [execute, hphase] at h
    obtain ⟨⟨db, file⟩, hopen, h⟩ := Outcome.bind_eq_ok.mp h
    exact ⟨rfl, db, file, hopen, (Outcome.pure_eq_ok.mp h).symm⟩
  | _ => simp [execute, hphase, call] at h

/-- A piece of a call. -/
theorem call_of_execute {action : Action Key Value} (hcall : action.isCall = true)
    (h : node.execute action = .ok node') : node.phase = .up ∧ node.call action = .ok node' := by
  obtain ⟨hphase, -⟩ := called_of_isCall hcall h
  refine ⟨hphase, ?_⟩
  cases action with
  | start => cases hcall
  | replay directory => cases hcall
  | opened => cases hcall
  | crash written => cases hcall
  | _ => simpa only [execute, hphase] using h

theorem execute_put {key : Key} {value : Value} (h : node.execute (.put key value) = .ok node') :
    node.phase = .up ∧ node' = { node with waiting := node.waiting ++ [⟨[.put key value]⟩] } := by
  obtain ⟨hphase, h⟩ := call_of_execute rfl h
  obtain ⟨_, -, h⟩ := Outcome.bind_eq_ok.mp h
  exact ⟨hphase, (Outcome.pure_eq_ok.mp h).symm⟩

theorem execute_lock {index : ℕ} (h : node.execute (.lock index) = .ok node') :
    node.phase = .up ∧ node.writeMutex = none ∧ ∃ batch, node.waiting[index]? = some batch ∧
      node' = { node with
        writeMutex := some (.appending batch)
        waiting := node.waiting.eraseIdx index } := by
  obtain ⟨hphase, h⟩ := call_of_execute rfl h
  simp only [call] at h
  split at h
  · rename_i batch hmutex hwaiting
    exact ⟨hphase, hmutex, batch, hwaiting, (Except.ok.inj h).symm⟩
  · cases h

theorem execute_append (h : node.execute .append = .ok node') :
    node.phase = .up ∧ ∃ file batch db file', node.file = some file ∧
      node.writeMutex = some (.appending batch) ∧
      node.db.appendToWAL L file batch = .ok (db, file') ∧
      node' = { node with
        file := some file'
        db := db
        writeMutex := some (.appended batch) } := by
  obtain ⟨hphase, h⟩ := call_of_execute rfl h
  simp only [call] at h
  split at h
  · rename_i file batch hfile hmutex
    obtain ⟨⟨db, file'⟩, happend, h⟩ := Outcome.bind_eq_ok.mp h
    exact ⟨hphase, file, batch, db, file', hfile, hmutex, happend, (Outcome.pure_eq_ok.mp h).symm⟩
  · cases h

theorem execute_finish (h : node.execute .finish = .ok node') :
    node.phase = .up ∧ ∃ batch, node.writeMutex = some (.appended batch) ∧
      node' = { node with
        db := node.db.finishWrite batch
        writeMutex := none
        returned := node.returned ++ [batch] } := by
  obtain ⟨hphase, h⟩ := call_of_execute rfl h
  simp only [call] at h
  split at h
  · rename_i batch hmutex
    exact ⟨hphase, batch, hmutex, (Except.ok.inj h).symm⟩
  · cases h

theorem execute_crash {written : ℕ} (h : node.execute (.crash written) = .ok node') :
    node' = {
      file := node.fileAfterCrash written
      incarnations := node.incarnations ++ [⟨node.returned,
        node.waiting ++ (node.writeMutex.map Writer.batch).toList⟩] } := by
  simp only [execute] at h
  exact (Except.ok.inj h).symm

/-! ## The log of a node -/

/-- The log of a node holds these batches, and those that are applied are all of them, except
for one that a writer may have appended already. -/
def Logs (node : Node L) (batches : List (WriteBatch Key Value)) : Prop :=
  match node.phase with
  | .down => node.Idle ∧ Holds L node.file batches
  | .opening => node.Idle ∧ Holds L node.file batches ∧ node.db = {}
  | .preparing => node.Idle ∧ node.Consistent batches ∧ node.db.dir.isSome
  | .up => (∃ recovered, node.Consistent recovered ∧ batches = recovered ++ node.returned) ∧
    node.db.dir.isSome

variable {batches : List (WriteBatch Key Value)}

theorem Logs.of_up (h : node.Logs batches) (hphase : node.phase = .up) :
    (∃ recovered, node.Consistent recovered ∧ batches = recovered ++ node.returned) ∧
      node.db.dir.isSome := by
  rw [Logs, hphase] at h
  exact h

theorem logs_of_up {recovered : List (WriteBatch Key Value)} (hphase : node.phase = .up)
    (h : node.Consistent recovered) (hdir : node.db.dir.isSome) :
    node.Logs (recovered ++ node.returned) := by
  rw [Logs, hphase]
  exact ⟨⟨recovered, h, rfl⟩, hdir⟩

/-- What a node that is up reads. -/
theorem Logs.memTable (h : node.Logs batches) (hphase : node.phase = .up) :
    node.db.memTable = applyAll batches := by
  obtain ⟨⟨recovered, hconsistent, rfl⟩, -⟩ := h.of_up hphase
  exact hconsistent.memTable

/-- No call closes the database. -/
theorem Called.dir (h : Called node node') : node'.db.dir = node.db.dir := by
  cases h with
  | appended batch file file' db hfile hmutex happend =>
    rw [Database.appendToWAL] at happend
    split at happend
    · cases happend
    · obtain ⟨rfl, -⟩ := Prod.mk.inj (Except.ok.inj happend)
      rfl
  | _ => rfl

theorem Logs.start (h : node.Logs batches) (hphase : node.phase = .down) :
    Logs { node with phase := .opening, db := {} } batches := by
  rw [Logs, hphase] at h
  obtain ⟨hidle, hholds⟩ := h
  exact ⟨{ hidle with }, hholds, rfl⟩

theorem Logs.replay (hL : L.Spec) (h : node.Logs batches) (hphase : node.phase = .opening)
    {directory : String} {db : Database Key Value} {file : L.File}
    (hopen : node.db.openDir L directory node.file = .ok (db, file)) :
    Logs { node with phase := .preparing, db := db, file := some file } batches := by
  rw [Logs, hphase] at h
  obtain ⟨hidle, hholds, hdb⟩ := h
  refine ⟨{ hidle with }, hidle.replay hL hholds hdb hopen, ?_⟩
  obtain ⟨file', hok, -⟩ := openDir_eq_ok hL hholds directory
  rw [hdb, hok] at hopen
  obtain ⟨rfl, -⟩ := Prod.mk.inj (Except.ok.inj hopen)
  rfl

theorem Logs.opened (h : node.Logs batches) (hphase : node.phase = .preparing) :
    Logs { node with phase := .up } batches := by
  rw [Logs, hphase] at h
  obtain ⟨hidle, hconsistent, hdir⟩ := h
  refine ⟨⟨batches, { hconsistent with }, ?_⟩, hdir⟩
  show batches = batches ++ node.returned
  rw [hidle.returned, List.append_nil]

/-- A piece of a call in which no `Write` returns. -/
theorem Logs.called (hL : L.Spec) (h : node.Logs batches) (hphase : node.phase = .up)
    (hcalled : Called node node') (hreturned : node'.returned = node.returned) :
    node'.Logs batches := by
  obtain ⟨⟨recovered, hconsistent, rfl⟩, hdir⟩ := h.of_up hphase
  rw [← hreturned]
  exact logs_of_up (hcalled.frame.1.trans hphase) (hconsistent.called hL hcalled)
    (hcalled.dir ▸ hdir)

/-- A `Write` returns. -/
theorem Logs.finish (h : node.Logs batches) (hphase : node.phase = .up)
    {batch : WriteBatch Key Value} (hmutex : node.writeMutex = some (.appended batch)) :
    Logs { node with
      db := node.db.finishWrite batch
      writeMutex := none
      returned := node.returned ++ [batch] } (batches ++ [batch]) := by
  obtain ⟨⟨recovered, hconsistent, rfl⟩, hdir⟩ := h.of_up hphase
  rw [List.append_assoc]
  exact logs_of_up hphase (hconsistent.finish hmutex) hdir

/-- A crash leaves the batches, and at most one more. -/
theorem Logs.crash (hL : L.Spec) (h : node.Logs batches) (written : ℕ) :
    ∃ extra : Option (WriteBatch Key Value),
      (∀ batch ∈ extra, batch ∈ node.waiting ++ (node.writeMutex.map Writer.batch).toList) ∧
        Logs (L := L) {
          file := node.fileAfterCrash written
          incarnations := node.incarnations ++ [⟨node.returned,
            node.waiting ++ (node.writeMutex.map Writer.batch).toList⟩] }
          (batches ++ extra.toList) := by
  have hcrash : ∃ extra : Option (WriteBatch Key Value),
      (∀ batch ∈ extra, batch ∈ node.waiting ++ (node.writeMutex.map Writer.batch).toList) ∧
        Holds L (node.fileAfterCrash written) (batches ++ extra.toList) := by
    cases hphase : node.phase with
    | down =>
      rw [Logs, hphase] at h
      obtain ⟨hidle, hholds⟩ := h
      have hfile := hidle.holds_fileAfterCrash hholds written
      rwa [hidle.returned, List.append_nil] at hfile
    | opening =>
      rw [Logs, hphase] at h
      obtain ⟨hidle, hholds, -⟩ := h
      have hfile := hidle.holds_fileAfterCrash hholds written
      rwa [hidle.returned, List.append_nil] at hfile
    | preparing =>
      rw [Logs, hphase] at h
      obtain ⟨hidle, hconsistent, -⟩ := h
      have hfile := hconsistent.holds_fileAfterCrash hL written
      rwa [hidle.returned, List.append_nil] at hfile
    | up =>
      obtain ⟨⟨recovered, hconsistent, rfl⟩, -⟩ := h.of_up hphase
      exact hconsistent.holds_fileAfterCrash hL written
  obtain ⟨extra, hextra, hholds⟩ := hcrash
  exact ⟨extra, hextra, ⟨rfl, rfl, rfl, rfl⟩, hholds⟩

/-! ## Calls do not fail -/

/-- A node that is up accepts a batch. -/
theorem Logs.put_eq_ok (h : node.Logs batches) (hphase : node.phase = .up) (key : Key)
    (value : Value) : node.execute (.put key value)
      = .ok { node with waiting := node.waiting ++ [⟨[.put key value]⟩] } := by
  obtain ⟨-, hdir⟩ := h.of_up hphase
  simp only [execute, hphase, call, doWrite, Database.ensureOpened, hdir]
  rfl

/-- The batch that waits gets the mutex. -/
theorem lock_eq_ok (hphase : node.phase = .up) (hmutex : node.writeMutex = none)
    {batch : WriteBatch Key Value} (hwaiting : node.waiting = [batch]) :
    node.execute (.lock 0)
      = .ok { node with writeMutex := some (.appending batch), waiting := [] } := by
  simp only [execute, hphase, call, hmutex, hwaiting]
  rfl

/-- Its record reaches the disk. -/
theorem Logs.append_eq_ok (h : node.Logs batches) (hphase : node.phase = .up)
    {batch : WriteBatch Key Value} (hmutex : node.writeMutex = some (.appending batch)) :
    ∃ node', node.execute .append = .ok node' := by
  obtain ⟨⟨recovered, hconsistent, rfl⟩, -⟩ := h.of_up hphase
  obtain ⟨file, hfile, hwal, -⟩ := hconsistent.file
  simp only [execute, hphase, call, hfile, hmutex, Database.appendToWAL, hwal]
  exact ⟨_, rfl⟩

theorem finish_eq_ok (hphase : node.phase = .up) {batch : WriteBatch Key Value}
    (hmutex : node.writeMutex = some (.appended batch)) :
    ∃ node', node.execute .finish = .ok node' := by
  simp only [execute, hphase, call, hmutex]
  exact ⟨_, rfl⟩

end Whirl.Db.Node
