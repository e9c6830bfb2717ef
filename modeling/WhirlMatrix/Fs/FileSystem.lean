/-
# The file system of a server

`File` of `fs/file.hpp` and `FileSystem` of `fs/fs.hpp`.  A `shared_ptr<File>` is the
number of the file object, and `objects` holds the contents of every object that was
ever created: an object lives on while a path or a descriptor points to it, and a
pointer to it never points to another one.  The type of descriptors (`persist::fs::Fd`)
is not part of the sources; they are natural numbers here.
-/
import WhirlMatrix.Time
import Mathlib.Data.Finset.Basic
import Mathlib.Logic.Function.Basic

namespace Whirl.Fs

/-! ## Files -/

/-- `File`. -/
structure File where
  data : Bytes := []
  deriving DecidableEq, Repr

namespace File

/-- `Size`. -/
def size (file : File) : ℕ := file.data.length

/-- `Truncate`: `resize` cuts the file or fills it up with zeros. -/
def truncate (file : File) (newSize : ℕ) : File where
  data := file.data.take newSize ++ List.replicate (newSize - file.size) 0

/-- `Append`. -/
def append (file : File) (view : Bytes) : File where
  data := file.data ++ view

/-- `Tail`. -/
def tail (file : File) (offset : ℕ) : Bytes :=
  if offset ≥ file.size then [] else file.data.drop offset

/-- `MemoryReader::Read` copies as many bytes as there are, at most the size of the buffer. -/
def memoryReaderRead (source : Bytes) (bufferSize : ℕ) : Bytes := source.take bufferSize

/-- `PRead`: the bytes that are written to the buffer. -/
def pRead (file : File) (offset bufferSize : ℕ) : Bytes :=
  memoryReaderRead (file.tail offset) bufferSize

theorem tail_eq_drop (file : File) (offset : ℕ) : file.tail offset = file.data.drop offset := by
  unfold tail
  split
  · rename_i hge
    exact (List.drop_of_length_le hge).symm
  · rfl

/-- What is read at an offset continues what lies before it. -/
theorem take_append_pRead (file : File) (offset bufferSize : ℕ) :
    file.data.take offset ++ file.pRead offset bufferSize
      = file.data.take (offset + (file.pRead offset bufferSize).length) := by
  unfold pRead memoryReaderRead
  rw [tail_eq_drop, List.length_take, List.length_drop, List.take_add]
  congr 1
  rw [List.take_eq_take_iff, List.length_drop]
  omega

/-- Nothing is read only at the end of the file, or into an empty buffer. -/
theorem pRead_eq_nil_iff {file : File} {offset bufferSize : ℕ} (h : 0 < bufferSize) :
    file.pRead offset bufferSize = [] ↔ file.size ≤ offset := by
  unfold pRead memoryReaderRead size
  rw [tail_eq_drop, List.take_eq_nil_iff, List.drop_eq_nil_iff]
  constructor
  · rintro (hzero | hle)
    · omega
    · exact hle
  · exact Or.inr

end File

/-! ## The file system -/

/-- `Path`. -/
abbrev Path := String

/-- `persist::fs::Fd`. -/
abbrev Fd := ℕ

/-- `FileRef`. -/
abbrev FileRef := ℕ

/-- `persist::fs::FileMode`. -/
inductive FileMode where
  | read
  | append
  deriving DecidableEq, Repr

/-- The error codes of the file system. -/
inductive Errc where
  | noSuchFileOrDirectory
  deriving DecidableEq, Repr

/-- `FileSystem::OpenedFile`. -/
structure OpenedFile where
  fd : Fd
  path : Path
  mode : FileMode
  offset : ℕ
  file : FileRef
  deriving DecidableEq, Repr

/-- `FileSystem`, with the file objects and the number of those created so far.  `next_fd_` is exact
here as long as the integer type of `Fd` is wide enough for the calls of `Open`. -/
structure FileSystem where
  objects : FileRef → File := fun _ => {}
  created : ℕ := 0
  files : Std.ExtTreeMap Path FileRef compare := ∅
  openedFiles : Std.ExtTreeMap Fd OpenedFile compare := ∅
  nextFd : Fd := 0

namespace FileSystem

/-- `RaiseError`. -/
def raiseError {α : Type} (message : String) : Outcome α :=
  .error (.panic ("Filesystem error: " ++ message))

/-- `CreateFile`. -/
def createFile (fs : FileSystem) : FileRef × FileSystem :=
  (fs.created, { fs with
    objects := Function.update fs.objects fs.created {}
    created := fs.created + 1 })

/-- `FindOrCreateFile`. -/
def findOrCreateFile (fs : FileSystem) (filePath : Path) (openMode : FileMode) :
    Option FileRef × FileSystem :=
  match fs.files[filePath]? with
  | some file => (some file, fs)
  | none =>
    -- file does not exist
    match openMode with
    | .append =>
      let (f, fs) := fs.createFile
      (some f, { fs with files := fs.files.insertIfNew filePath f })
    | .read => (none, fs)

/-- `FindExistingFile`. -/
def findExistingFile (fs : FileSystem) (filePath : Path) : Outcome FileRef :=
  match fs.files[filePath]? with
  | none => raiseError "File not found"
  | some file => .ok file

/-- `InitOffset`. -/
def initOffset (fs : FileSystem) (f : FileRef) : FileMode → ℕ
  | .read => 0
  | .append => (fs.objects f).size

/-- `GetOpenedFile`. -/
def getOpenedFile (fs : FileSystem) (fd : Fd) : Outcome OpenedFile :=
  match fs.openedFiles[fd]? with
  | none => raiseError "Fd not found"
  | some openedFile => .ok openedFile

/-- `CheckMode`. -/
def checkMode (openedFile : OpenedFile) (expected : FileMode) : Outcome Unit :=
  if openedFile.mode ≠ expected then raiseError "Unexpected file mode" else .ok ()

/-- `Exists`. -/
def fileExists (fs : FileSystem) (filePath : Path) : Bool := fs.files.contains filePath

/-- `Open`. -/
def openFile (fs : FileSystem) (filePath : Path) (mode : FileMode) :
    Except Errc Fd × FileSystem :=
  match fs.findOrCreateFile filePath mode with
  | (none, fs) => (.error .noSuchFileOrDirectory, fs)
  | (some file, fs) =>
    let fd := fs.nextFd + 1
    let offset := fs.initOffset file mode
    (.ok fd, { fs with
      nextFd := fd
      openedFiles := fs.openedFiles.insertIfNew fd ⟨fd, filePath, mode, offset, file⟩ })

/-- `Read` into a buffer of the given size: the bytes that are read. -/
def read (fs : FileSystem) (fd : Fd) (bufferSize : ℕ) : Outcome (Bytes × FileSystem) := do
  let openedFile ← fs.getOpenedFile fd
  checkMode openedFile .read
  let bytes := (fs.objects openedFile.file).pRead openedFile.offset bufferSize
  return (bytes, { fs with
    openedFiles := fs.openedFiles.insert fd
      { openedFile with offset := openedFile.offset + bytes.length } })

/-- `Append`. -/
def append (fs : FileSystem) (fd : Fd) (data : Bytes) : Outcome FileSystem := do
  let openedFile ← fs.getOpenedFile fd
  checkMode openedFile .append
  let file := fs.objects openedFile.file
  return { fs with objects := Function.update fs.objects openedFile.file (file.append data) }

/-- `Close`. -/
def close (fs : FileSystem) (fd : Fd) : Outcome FileSystem :=
  match fs.openedFiles[fd]? with
  | some _ => .ok { fs with openedFiles := fs.openedFiles.erase fd }
  | none => raiseError "File not found by fd"

/-- `Create`: whether the file is new. -/
def create (fs : FileSystem) (filePath : Path) : Bool × FileSystem :=
  if fs.files.contains filePath then
    (false, fs)
  else
    let (f, fs) := fs.createFile
    (true, { fs with files := fs.files.insertIfNew filePath f })

/-- `Truncate`. -/
def truncate (fs : FileSystem) (filePath : Path) (newSize : ℕ) : Outcome FileSystem := do
  let f ← fs.findExistingFile filePath
  return { fs with objects := Function.update fs.objects f ((fs.objects f).truncate newSize) }

/-- `Unlink`. -/
def unlink (fs : FileSystem) (filePath : Path) : FileSystem :=
  { fs with files := fs.files.erase filePath }

/-- `Reset`, on a crash. -/
def reset (fs : FileSystem) : FileSystem :=
  { fs with openedFiles := ∅, nextFd := 0 }

/-! ## What the operations do -/

variable {fs fs' : FileSystem} {fd : Fd}

theorem getOpenedFile_eq_ok {openedFile : OpenedFile} :
    fs.getOpenedFile fd = .ok openedFile ↔ fs.openedFiles[fd]? = some openedFile := by
  unfold getOpenedFile raiseError
  cases fs.openedFiles[fd]? <;> simp

theorem checkMode_eq_ok {openedFile : OpenedFile} {expected : FileMode} {u : Unit} :
    checkMode openedFile expected = .ok u ↔ openedFile.mode = expected := by
  unfold checkMode raiseError
  split <;> simp_all

/-- What `Read` does: a descriptor for reading moves on by what is read. -/
theorem read_eq_ok {bufferSize : ℕ} {bytes : Bytes} (h : fs.read fd bufferSize = .ok (bytes, fs')) :
    ∃ openedFile, fs.openedFiles[fd]? = some openedFile ∧ openedFile.mode = .read ∧
      bytes = (fs.objects openedFile.file).pRead openedFile.offset bufferSize ∧
      fs' = { fs with
        openedFiles := fs.openedFiles.insert fd
          { openedFile with offset := openedFile.offset + bytes.length } } := by
  obtain ⟨openedFile, hopened, h⟩ := Outcome.bind_eq_ok.mp h
  obtain ⟨_, hmode, h⟩ := Outcome.bind_eq_ok.mp h
  obtain ⟨rfl, rfl⟩ := Prod.mk.inj (Outcome.pure_eq_ok.mp h)
  exact ⟨openedFile, getOpenedFile_eq_ok.mp hopened, checkMode_eq_ok.mp hmode, rfl, rfl⟩

/-- What `Append` does: the file of a descriptor for appending grows. -/
theorem append_eq_ok {data : Bytes} (h : fs.append fd data = .ok fs') :
    ∃ openedFile, fs.openedFiles[fd]? = some openedFile ∧ openedFile.mode = .append ∧
      fs' = { fs with
        objects := Function.update fs.objects openedFile.file
          ((fs.objects openedFile.file).append data) } := by
  obtain ⟨openedFile, hopened, h⟩ := Outcome.bind_eq_ok.mp h
  obtain ⟨_, hmode, h⟩ := Outcome.bind_eq_ok.mp h
  obtain rfl := Outcome.pure_eq_ok.mp h
  exact ⟨openedFile, getOpenedFile_eq_ok.mp hopened, checkMode_eq_ok.mp hmode, rfl⟩

theorem close_eq_ok (h : fs.close fd = .ok fs') :
    fs' = { fs with openedFiles := fs.openedFiles.erase fd } := by
  unfold close raiseError at h
  split at h
  · exact (Except.ok.inj h).symm
  · exact absurd h (by simp)

/-- The file system with a new, empty file at a path. -/
def withNewFile (fs : FileSystem) (filePath : Path) : FileSystem :=
  { fs with
    objects := Function.update fs.objects fs.created {}
    created := fs.created + 1
    files := fs.files.insertIfNew filePath fs.created }

/-- A new file has its path. -/
theorem files_withNewFile {filePath : Path} (h : fs.files[filePath]? = none) :
    (fs.withNewFile filePath).files[filePath]? = some fs.created := by
  have hfresh : filePath ∉ fs.files := by
    rw [Std.ExtTreeMap.mem_iff_isSome_getElem?, h]
    decide
  show (fs.files.insertIfNew filePath fs.created)[filePath]? = _
  rw [Std.ExtTreeMap.getElem?_insertIfNew, if_pos ⟨Std.ReflCmp.compare_self, hfresh⟩]

/-- `Create` leaves a path that exists and makes a new file otherwise. -/
theorem create_spec (fs : FileSystem) (filePath : Path) :
    (fs.create filePath).2 = fs ∨ (fs.create filePath).2 = fs.withNewFile filePath := by
  unfold create
  split
  · exact Or.inl rfl
  · exact Or.inr rfl

/-- The file system with a descriptor for a file. -/
def withDescriptor (fs : FileSystem) (filePath : Path) (mode : FileMode) (file : FileRef) :
    FileSystem :=
  { fs with
    nextFd := fs.nextFd + 1
    openedFiles := fs.openedFiles.insertIfNew (fs.nextFd + 1)
      ⟨fs.nextFd + 1, filePath, mode, fs.initOffset file mode, file⟩ }

/-- What `Open` does: it fails, or registers the next descriptor at the file of the path, which
is a new one when there was none. -/
theorem openFile_spec (fs : FileSystem) (filePath : Path) (mode : FileMode) :
    fs.openFile filePath mode = (.error .noSuchFileOrDirectory, fs) ∨
      (∃ file, fs.files[filePath]? = some file ∧ fs.openFile filePath mode
        = (.ok (fs.nextFd + 1), fs.withDescriptor filePath mode file)) ∨
      (fs.files[filePath]? = none ∧ fs.openFile filePath mode
        = (.ok (fs.nextFd + 1),
          (fs.withNewFile filePath).withDescriptor filePath mode fs.created)) := by
  unfold openFile findOrCreateFile
  cases hfile : fs.files[filePath]? with
  | some file => exact Or.inr (Or.inl ⟨file, rfl, rfl⟩)
  | none =>
    cases mode with
    | read => exact Or.inl rfl
    | append => exact Or.inr (Or.inr ⟨rfl, rfl⟩)

end FileSystem

end Whirl.Fs
