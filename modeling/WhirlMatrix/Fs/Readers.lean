/-
# Readers see what was appended

Runs of the file system in which files are created, opened, appended to, read,
closed and unlinked, by any number of descriptors, and in which the process may
crash.  Without `Truncate` a file object only grows, so that a reader has always seen
a prefix of what was appended to the object that it opened, wherever the path of
that object leads by now.
-/
import WhirlMatrix.Library.Runs
import WhirlMatrix.Fs.FileSystem

namespace Whirl.Fs

/-! ## Runs with a record of reads and appends -/

/-- A system call other than `Truncate`, or the crash of the process. -/
inductive Call where
  | create (filePath : Path)
  | openFile (filePath : Path) (mode : FileMode)
  | read (fd : Fd) (bufferSize : ℕ)
  | append (fd : Fd) (data : Bytes)
  | close (fd : Fd)
  | unlink (filePath : Path)
  | reset
  deriving DecidableEq, Repr

/-- The file system, with what was read through each descriptor since it was opened, the
object that its path named then, and what was appended to each object. -/
structure Observed where
  fs : FileSystem := {}
  returned : Fd → Bytes := fun _ => []
  openedOn : Fd → Option FileRef := fun _ => none
  appended : FileRef → Bytes := fun _ => []

namespace Observed

/-- One call. -/
def execute (s : Observed) : Call → Outcome Observed
  | .create filePath => .ok { s with fs := (s.fs.create filePath).2 }
  | .openFile filePath mode =>
    match s.fs.openFile filePath mode with
    | (.error _, fs) => .ok { s with fs := fs }
    | (.ok fd, fs) => .ok { s with
        fs := fs
        returned := Function.update s.returned fd []
        openedOn := Function.update s.openedOn fd fs.files[filePath]? }
  | .read fd bufferSize => do
    let (bytes, fs) ← s.fs.read fd bufferSize
    return { s with
      fs := fs
      returned := Function.update s.returned fd (s.returned fd ++ bytes) }
  | .append fd data => do
    let fs ← s.fs.append fd data
    let openedFile ← s.fs.getOpenedFile fd
    return { s with
      fs := fs
      appended := Function.update s.appended openedFile.file
        (s.appended openedFile.file ++ data) }
  | .close fd => do
    let fs ← s.fs.close fd
    return { s with fs := fs }
  | .unlink filePath => .ok { s with fs := s.fs.unlink filePath }
  | .reset => .ok { s with fs := s.fs.reset }

/-! ## The invariant -/

/-- What holds of one open descriptor. -/
structure Follows (s : Observed) (fd : Fd) (openedFile : OpenedFile) : Prop where
  le : fd ≤ s.fs.nextFd
  openedOn : s.openedOn fd = some openedFile.file
  created : openedFile.file < s.fs.created
  offset : openedFile.mode = .read → openedFile.offset ≤ (s.appended openedFile.file).length
  returned : openedFile.mode = .read →
    s.returned fd = (s.appended openedFile.file).take openedFile.offset

/-- Objects hold what was appended to them, and descriptors follow their objects. -/
structure Consistent (s : Observed) : Prop where
  data : ∀ file, (s.fs.objects file).data = s.appended file
  untouched : ∀ file, s.fs.created ≤ file → s.appended file = []
  paths : ∀ (filePath : Path) (file : FileRef), s.fs.files[filePath]? = some file →
    file < s.fs.created
  opened : ∀ (fd : Fd) (openedFile : OpenedFile), s.fs.openedFiles[fd]? = some openedFile →
    s.Follows fd openedFile

variable {s s' : Observed}

theorem consistent_start : ({} : Observed).Consistent where
  data _ := rfl
  untouched _ _ := rfl
  paths _ _ h := absurd h (by simp)
  opened _ _ h := absurd h (by simp)

/-- A descriptor follows its object when only other things change. -/
theorem Follows.congr {fd : Fd} {openedFile : OpenedFile} (h : s.Follows fd openedFile)
    (hnext : s.fs.nextFd ≤ s'.fs.nextFd) (hcreated : s.fs.created ≤ s'.fs.created)
    (hreturned : s'.returned fd = s.returned fd) (hopened : s'.openedOn fd = s.openedOn fd)
    (happended : s'.appended = s.appended) : s'.Follows fd openedFile where
  le := h.le.trans hnext
  openedOn := hopened.trans h.openedOn
  created := Nat.lt_of_lt_of_le h.created hcreated
  offset hmode := by
    rw [happended]
    exact h.offset hmode
  returned hmode := by
    rw [hreturned, happended]
    exact h.returned hmode

/-- A new file is empty, and nothing was appended to it. -/
theorem Consistent.withNewFile (h : s.Consistent) (filePath : Path) :
    Consistent { s with fs := s.fs.withNewFile filePath } := by
  refine ⟨fun file => ?_, fun file hfile => ?_, fun filePath' file hfile => ?_,
    fun fd openedFile hopened => ?_⟩
  · show (Function.update s.fs.objects s.fs.created {} file).data = s.appended file
    rcases eq_or_ne file s.fs.created with rfl | hne
    · rw [Function.update_self, h.untouched _ (Nat.le_refl _)]
    · rw [Function.update_of_ne hne]
      exact h.data file
  · exact h.untouched file (Nat.le_of_succ_le hfile)
  · change (s.fs.files.insertIfNew filePath s.fs.created)[filePath']? = _ at hfile
    rw [Std.ExtTreeMap.getElem?_insertIfNew] at hfile
    split at hfile
    · obtain rfl := Option.some.inj hfile
      exact Nat.lt_succ_self _
    · exact Nat.lt_succ_of_lt (h.paths filePath' file hfile)
  · exact (h.opened fd openedFile hopened).congr (Nat.le_refl _) (Nat.le_succ _) rfl rfl rfl

/-- The descriptor that `Open` is about to return is not open. -/
theorem Consistent.not_opened (h : s.Consistent) : s.fs.openedFiles[s.fs.nextFd + 1]? = none := by
  by_contra hne
  obtain ⟨openedFile, hopened⟩ := Option.ne_none_iff_exists'.mp hne
  exact absurd (h.opened _ _ hopened).le (Nat.not_succ_le_self _)

/-- A new descriptor follows the object of its path, from the beginning for a reader. -/
theorem Consistent.withDescriptor (h : s.Consistent) {filePath : Path} {mode : FileMode}
    {file : FileRef} (hfile : s.fs.files[filePath]? = some file) :
    Consistent { s with
      fs := s.fs.withDescriptor filePath mode file
      returned := Function.update s.returned (s.fs.nextFd + 1) []
      openedOn := Function.update s.openedOn (s.fs.nextFd + 1) s.fs.files[filePath]? } := by
  refine ⟨h.data, h.untouched, h.paths, fun fd openedFile hfd => ?_⟩
  change (s.fs.openedFiles.insertIfNew (s.fs.nextFd + 1) _)[fd]? = _ at hfd
  rw [Std.ExtTreeMap.getElem?_insertIfNew] at hfd
  by_cases hsame : s.fs.nextFd + 1 = fd
  · subst hsame
    have hfresh : s.fs.nextFd + 1 ∉ s.fs.openedFiles := by
      rw [Std.ExtTreeMap.mem_iff_isSome_getElem?, h.not_opened]
      decide
    rw [if_pos ⟨compare_eq_iff_eq.mpr rfl, hfresh⟩] at hfd
    obtain rfl := Option.some.inj hfd
    refine ⟨Nat.le_refl _, ?_, h.paths filePath file hfile, fun hmode => ?_, fun hmode => ?_⟩
    · exact (Function.update_self ..).trans hfile
    · obtain rfl : mode = .read := hmode
      exact Nat.zero_le _
    · obtain rfl : mode = .read := hmode
      exact Function.update_self ..
  · rw [if_neg fun hcmp => hsame (compare_eq_iff_eq.mp hcmp.1)] at hfd
    refine (h.opened fd openedFile hfd).congr (Nat.le_succ _) (Nat.le_refl _) ?_ ?_ rfl
    · exact Function.update_of_ne (Ne.symm hsame) ..
    · exact Function.update_of_ne (Ne.symm hsame) ..

/-! ## Every call keeps the invariant -/

/-- `Create` makes at most a new, empty object. -/
theorem Consistent.create (h : s.Consistent) (filePath : Path) :
    Consistent { s with fs := (s.fs.create filePath).2 } := by
  rcases s.fs.create_spec filePath with hsame | hnew
  · rw [hsame]
    exact h
  · rw [hnew]
    exact h.withNewFile filePath

/-- `Open` registers a descriptor at the object of the path. -/
theorem Consistent.openFile (h : s.Consistent) {filePath : Path} {mode : FileMode}
    (hs : s.execute (.openFile filePath mode) = .ok s') : s'.Consistent := by
  simp only [Observed.execute] at hs
  rcases s.fs.openFile_spec filePath mode with hopen | ⟨file, hfile, hopen⟩ | ⟨hnone, hopen⟩
  · rw [hopen] at hs
    obtain rfl := Except.ok.inj hs
    exact h
  · rw [hopen] at hs
    obtain rfl := Except.ok.inj hs
    exact h.withDescriptor hfile
  · rw [hopen] at hs
    obtain rfl := Except.ok.inj hs
    exact (h.withNewFile filePath).withDescriptor (FileSystem.files_withNewFile hnone)

/-- `Read` moves the descriptor on by what it returns. -/
theorem Consistent.read (h : s.Consistent) {fd : Fd} {bufferSize : ℕ}
    (hs : s.execute (.read fd bufferSize) = .ok s') : s'.Consistent := by
  obtain ⟨⟨bytes, fs⟩, hread, hs⟩ := Outcome.bind_eq_ok.mp hs
  obtain rfl := Outcome.pure_eq_ok.mp hs
  obtain ⟨openedFile, hopened, hmode, hbytes, rfl⟩ := FileSystem.read_eq_ok hread
  have hfollows := h.opened fd openedFile hopened
  refine ⟨h.data, h.untouched, h.paths, fun fd' openedFile' hopened' => ?_⟩
  show Follows _ _ _
  change (s.fs.openedFiles.insert fd _)[fd']? = _ at hopened'
  rw [Std.ExtTreeMap.getElem?_insert] at hopened'
  by_cases hsame : fd = fd'
  · subst hsame
    rw [if_pos (compare_eq_iff_eq.mpr rfl)] at hopened'
    obtain rfl := Option.some.inj hopened'
    have hnext := (s.fs.objects openedFile.file).take_append_pRead openedFile.offset bufferSize
    rw [h.data, ← hbytes] at hnext
    refine ⟨hfollows.le, hfollows.openedOn, hfollows.created, fun _ => ?_, fun _ => ?_⟩
    · -- the bytes lie inside the file
      have hlen := congrArg List.length hnext
      have hoffset := hfollows.offset hmode
      simp only [List.length_append, List.length_take] at hlen
      show openedFile.offset + bytes.length ≤ (s.appended openedFile.file).length
      omega
    · show Function.update s.returned fd (s.returned fd ++ bytes) fd = _
      rw [Function.update_self, hfollows.returned hmode]
      exact hnext
  · rw [if_neg fun hcmp => hsame (compare_eq_iff_eq.mp hcmp)] at hopened'
    refine (h.opened fd' openedFile' hopened').congr (Nat.le_refl _) (Nat.le_refl _) ?_ rfl rfl
    exact Function.update_of_ne (Ne.symm hsame) ..

/-- `Append` lets one object grow; what readers of it have seen stays a prefix. -/
theorem Consistent.append (h : s.Consistent) {fd : Fd} {data : Bytes}
    (hs : s.execute (.append fd data) = .ok s') : s'.Consistent := by
  obtain ⟨fs, happend, hs⟩ := Outcome.bind_eq_ok.mp hs
  obtain ⟨openedFile, hopened, hs⟩ := Outcome.bind_eq_ok.mp hs
  obtain rfl := Outcome.pure_eq_ok.mp hs
  obtain ⟨openedFile', hopened', -, rfl⟩ := FileSystem.append_eq_ok happend
  rw [FileSystem.getOpenedFile_eq_ok] at hopened
  obtain rfl := Option.some.inj (hopened.symm.trans hopened')
  have hcreated := (h.opened fd openedFile hopened).created
  -- the record of an object only grows
  have hgrows : ∀ file, ∃ more, Function.update s.appended openedFile.file
      (s.appended openedFile.file ++ data) file = s.appended file ++ more := by
    intro file
    rcases eq_or_ne file openedFile.file with rfl | hne
    · exact ⟨data, Function.update_self ..⟩
    · exact ⟨[], by rw [Function.update_of_ne hne, List.append_nil]⟩
  refine ⟨fun file => ?_, fun file hfile => ?_, h.paths, fun fd' openedFile' hopened'' => ?_⟩
  · show (Function.update s.fs.objects _ _ file).data = Function.update s.appended _ _ file
    rcases eq_or_ne file openedFile.file with rfl | hne
    · rw [Function.update_self, Function.update_self, ← h.data]
      rfl
    · rw [Function.update_of_ne hne, Function.update_of_ne hne]
      exact h.data file
  · have hne : file ≠ openedFile.file := Nat.ne_of_gt (Nat.lt_of_lt_of_le hcreated hfile)
    exact (Function.update_of_ne hne ..).trans (h.untouched file hfile)
  · have hfollows := h.opened fd' openedFile' hopened''
    obtain ⟨more, hmore⟩ := hgrows openedFile'.file
    refine ⟨hfollows.le, hfollows.openedOn, hfollows.created, fun hmode => ?_, fun hmode => ?_⟩
    · show _ ≤ (Function.update s.appended _ _ _).length
      have hoffset := hfollows.offset hmode
      rw [hmore, List.length_append]
      omega
    · show s.returned fd' = (Function.update s.appended _ _ _).take _
      rw [hmore, List.take_append_of_le_length (hfollows.offset hmode)]
      exact hfollows.returned hmode

/-- Every call keeps the invariant. -/
theorem Consistent.execute {call : Call} (h : s.Consistent) (hs : s.execute call = .ok s') :
    s'.Consistent := by
  cases call with
  | create filePath =>
    obtain rfl := Except.ok.inj hs
    exact h.create filePath
  | openFile filePath mode => exact h.openFile hs
  | read fd bufferSize => exact h.read hs
  | append fd data => exact h.append hs
  | close fd =>
    obtain ⟨fs, hclose, hs⟩ := Outcome.bind_eq_ok.mp hs
    obtain rfl := Outcome.pure_eq_ok.mp hs
    obtain rfl := FileSystem.close_eq_ok hclose
    refine ⟨h.data, h.untouched, h.paths, fun fd' openedFile hopened => ?_⟩
    change (s.fs.openedFiles.erase fd)[fd']? = _ at hopened
    rw [Std.ExtTreeMap.getElem?_erase] at hopened
    split at hopened
    · exact absurd hopened (by simp)
    · exact (h.opened fd' openedFile hopened).congr (Nat.le_refl _) (Nat.le_refl _) rfl rfl rfl
  | unlink filePath =>
    obtain rfl := Except.ok.inj hs
    refine ⟨h.data, h.untouched, fun filePath' file hfile => ?_, fun fd openedFile hopened => ?_⟩
    · change (s.fs.files.erase filePath)[filePath']? = _ at hfile
      rw [Std.ExtTreeMap.getElem?_erase] at hfile
      split at hfile
      · exact absurd hfile (by simp)
      · exact h.paths filePath' file hfile
    · exact (h.opened fd openedFile hopened).congr (Nat.le_refl _) (Nat.le_refl _) rfl rfl rfl
  | reset =>
    obtain rfl := Except.ok.inj hs
    refine ⟨h.data, h.untouched, h.paths, fun fd openedFile hopened => ?_⟩
    change (∅ : Std.ExtTreeMap Fd OpenedFile compare)[fd]? = _ at hopened
    exact absurd hopened (by simp)

theorem consistent_of_reaches (h : Runs.Reaches execute (fun _ _ => True) {} s) : s.Consistent :=
  h.invariant (I := Consistent) consistent_start fun _ _ _ hI _ hs => hI.execute hs

/-- **Readers see exactly what was appended.**  In every state of every run: what the reads of
a descriptor returned is the part before its offset of what was appended to the object
that it was opened on; a read into a buffer returns nothing only at the end of that object;
and `Open` returns no descriptor that is open. -/
theorem reads_of_reaches (h : Runs.Reaches execute (fun _ _ => True) {} s) :
    (∀ (fd : Fd) (openedFile : OpenedFile), s.fs.openedFiles[fd]? = some openedFile →
      openedFile.mode = .read →
        s.openedOn fd = some openedFile.file ∧
        openedFile.offset ≤ (s.appended openedFile.file).length ∧
        s.returned fd = (s.appended openedFile.file).take openedFile.offset) ∧
    (∀ (fd : Fd) (bufferSize : ℕ) (fs : FileSystem), 0 < bufferSize →
      s.fs.read fd bufferSize = .ok ([], fs) →
        ∃ openedFile, s.fs.openedFiles[fd]? = some openedFile ∧
          openedFile.offset = (s.appended openedFile.file).length) ∧
    ∀ (filePath : Path) (mode : FileMode) (fd : Fd) (fs : FileSystem),
      s.fs.openFile filePath mode = (.ok fd, fs) → s.fs.openedFiles[fd]? = none := by
  have hI := consistent_of_reaches h
  refine ⟨fun fd openedFile hopened hmode => ?_, fun fd bufferSize fs hpos hread => ?_,
    fun filePath mode fd fs hopen => ?_⟩
  · have hfollows := hI.opened fd openedFile hopened
    exact ⟨hfollows.openedOn, hfollows.offset hmode, hfollows.returned hmode⟩
  · obtain ⟨openedFile, hopened, hmode, hbytes, -⟩ := FileSystem.read_eq_ok hread
    have hend := (File.pRead_eq_nil_iff hpos).mp hbytes.symm
    unfold File.size at hend
    rw [hI.data] at hend
    exact ⟨openedFile, hopened, Nat.le_antisymm ((hI.opened fd openedFile hopened).offset hmode) hend⟩
  · rcases s.fs.openFile_spec filePath mode with hspec | ⟨file, -, hspec⟩ | ⟨-, hspec⟩
    · exact absurd (Prod.mk.inj (hopen.symm.trans hspec)).1 (by simp)
    · obtain rfl := Except.ok.inj (Prod.mk.inj (hopen.symm.trans hspec)).1
      exact hI.not_opened
    · obtain rfl := Except.ok.inj (Prod.mk.inj (hopen.symm.trans hspec)).1
      exact hI.not_opened

/-- A call gives out one descriptor at most. -/
theorem nextFd_le_of_execute {call : Call} (h : s.execute call = .ok s') :
    s'.fs.nextFd ≤ s.fs.nextFd + 1 := by
  cases call with
  | create filePath =>
    obtain rfl := Except.ok.inj h
    show (s.fs.create filePath).2.nextFd ≤ _
    rcases s.fs.create_spec filePath with hspec | hspec
    · rw [hspec]
      exact Nat.le_succ _
    · rw [hspec]
      exact Nat.le_succ _
  | openFile filePath mode =>
    simp only [execute] at h
    rcases s.fs.openFile_spec filePath mode with hspec | ⟨file, -, hspec⟩ | ⟨-, hspec⟩
    · rw [hspec] at h
      obtain rfl := Except.ok.inj h
      exact Nat.le_succ _
    · rw [hspec] at h
      obtain rfl := Except.ok.inj h
      exact Nat.le_refl _
    · rw [hspec] at h
      obtain rfl := Except.ok.inj h
      exact Nat.le_refl _
  | read fd bufferSize =>
    obtain ⟨⟨bytes, fs⟩, hread, h⟩ := Outcome.bind_eq_ok.mp h
    obtain rfl := Outcome.pure_eq_ok.mp h
    obtain ⟨openedFile, -, -, -, rfl⟩ := FileSystem.read_eq_ok hread
    exact Nat.le_succ _
  | append fd data =>
    obtain ⟨fs, happend, h⟩ := Outcome.bind_eq_ok.mp h
    obtain ⟨openedFile, -, h⟩ := Outcome.bind_eq_ok.mp h
    obtain rfl := Outcome.pure_eq_ok.mp h
    obtain ⟨openedFile', -, -, rfl⟩ := FileSystem.append_eq_ok happend
    exact Nat.le_succ _
  | close fd =>
    obtain ⟨fs, hclose, h⟩ := Outcome.bind_eq_ok.mp h
    obtain rfl := Outcome.pure_eq_ok.mp h
    obtain rfl := FileSystem.close_eq_ok hclose
    exact Nat.le_succ _
  | unlink filePath =>
    obtain rfl := Except.ok.inj h
    exact Nat.le_succ _
  | reset =>
    obtain rfl := Except.ok.inj h
    exact Nat.zero_le _

/-- Descriptors are exact in runs that are short for the integer type of `Fd`. -/
theorem nextFd_mod_of_reachesIn {n width : ℕ}
    (hrun : Runs.ReachesIn execute (fun _ _ => True) n {} s) (hfew : n < 2 ^ width) :
    s.fs.nextFd % 2 ^ width = s.fs.nextFd := by
  apply hrun.counter_mod (f := fun s => s.fs.nextFd)
  · exact fun _ _ _ _ h => nextFd_le_of_execute h
  · exact (Nat.zero_add n).symm ▸ hfew

/-- A writer and a reader of a file whose path is unlinked and used again in between. -/
theorem reads_of_reaches_unlinked :
    ∃ s, Runs.Reaches execute (fun _ _ => True) {} s ∧
      ∃ openedFile, s.fs.openedFiles[2]? = some openedFile ∧ openedFile.mode = .read ∧
        s.returned 2 = [1, 2, 3, 4] ∧
        s.returned 2 = (s.appended openedFile.file).take openedFile.offset := by
  have hreach : Runs.Reaches execute (fun _ _ => True) {} {} := Runs.Reaches.refl
  have hreach := hreach.tail (.openFile "a" .append) trivial rfl
  have hreach := hreach.tail (.append 1 [1, 2, 3]) trivial rfl
  have hreach := hreach.tail (.openFile "a" .read) trivial rfl
  have hreach := hreach.tail (.read 2 2) trivial rfl
  have hreach := hreach.tail (.unlink "a") trivial rfl
  have hreach := hreach.tail (.create "a") trivial rfl
  have hreach := hreach.tail (.append 1 [4]) trivial rfl
  have hreach := hreach.tail (.read 2 9) trivial rfl
  obtain ⟨hreaders, -, -⟩ := reads_of_reaches hreach
  exact ⟨_, hreach, _, rfl, rfl, rfl, (hreaders 2 _ rfl rfl).2.2⟩

end Observed

end Whirl.Fs
