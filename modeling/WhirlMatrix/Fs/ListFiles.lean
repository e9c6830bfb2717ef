/-
# Listing files

The directory iterator of `FileSystem`, and the two loops over it: `FS::ListFiles`
(`server/runtime/filesystem.hpp`), which the node calls, and `Server::ListFiles`
(`server/server.cpp`), which faults call.  The second one never moves its iterator, so it
returns only if there is no file at all.  The first argument of a loop bounds the number of
tests of its condition.
-/
import WhirlMatrix.Fs.FileSystem

namespace Whirl.Fs

/-! ## The iterator -/

/-- `FileSystem::DirIterator`: the entries from `it_` up to `end_`. -/
structure DirIterator where
  entries : List (Path × FileRef)
  deriving DecidableEq, Repr

namespace DirIterator

/-- `operator*`; undefined at the end. -/
def deref (iter : DirIterator) : Outcome Path :=
  match iter.entries with
  | [] => .error .undefined
  | entry :: _ => .ok entry.1

/-- `IsValid`. -/
def isValid (iter : DirIterator) : Bool := !iter.entries.isEmpty

/-- `operator++`. -/
def next (iter : DirIterator) : DirIterator where
  entries := iter.entries.tail

end DirIterator

/-- `ListAllFiles`. -/
def FileSystem.listAllFiles (fs : FileSystem) : DirIterator where
  entries := fs.files.toList

/-- `starts_with`. -/
def startsWith (path view : String) : Bool := view.toList.isPrefixOf path.toList

/-! ## The two listings -/

/-- The loop of `FS::ListFiles`. -/
def FS.listLoop (view : String) : ℕ → DirIterator → List Path → Outcome (List Path)
  | 0, _, _ => .error .diverges
  | tests + 1, iter, listed =>
    if iter.isValid then do
      let path ← iter.deref
      let listed := if startsWith path view then listed ++ [path] else listed
      FS.listLoop view tests iter.next listed
    else
      .ok listed

/-- `FS::ListFiles`. -/
def FS.listFiles (fs : FileSystem) (view : String) (tests : ℕ) : Outcome (List Path) :=
  FS.listLoop view tests fs.listAllFiles []

/-- The loop of `Server::ListFiles`. -/
def Server.listLoop (view : String) : ℕ → DirIterator → List Path → Outcome (List Path)
  | 0, _, _ => .error .diverges
  | tests + 1, iter, listed =>
    if iter.isValid then do
      let path ← iter.deref
      let listed := if startsWith path view then listed ++ [path] else listed
      -- the iterator stays where it is
      Server.listLoop view tests iter listed
    else
      .ok listed

/-- `Server::ListFiles`. -/
def Server.listFiles (fs : FileSystem) (view : String) (tests : ℕ) : Outcome (List Path) :=
  Server.listLoop view tests fs.listAllFiles []

/-! ## What a listing is -/

/-- The paths of all files that start with some text, in ascending order. -/
structure IsListing (fs : FileSystem) (view : String) (listed : List Path) : Prop where
  mem_iff : ∀ path, path ∈ listed ↔ path ∈ fs.files ∧ startsWith path view = true
  ascending : listed.Pairwise fun path path' => compare path path' = .lt

/-- The order of paths is strict, so each path is listed once. -/
theorem IsListing.nodup {fs : FileSystem} {view : String} {listed : List Path}
    (h : IsListing fs view listed) : listed.Nodup :=
  h.ascending.imp fun {path path'} hlt heq => by
    subst heq
    have hself : compare path path = .eq := Std.ReflCmp.compare_self
    rw [hself] at hlt
    cases hlt

/-- The paths in the file system that start with some text. -/
def listing (fs : FileSystem) (view : String) : List Path :=
  fs.files.keys.filter fun path => startsWith path view

theorem isListing_listing (fs : FileSystem) (view : String) :
    IsListing fs view (listing fs view) where
  mem_iff path := by
    rw [listing, List.mem_filter, Std.ExtTreeMap.mem_keys]
  ascending := Std.ExtTreeMap.ordered_keys.filter _

/-! ## When the loops return -/

/-- Induction on the entries that are left: each of them takes one test. -/
theorem FS.listLoop_eq_ok (view : String) (entries : List (Path × FileRef)) (listed : List Path) :
    FS.listLoop view (entries.length + 1) ⟨entries⟩ listed
      = .ok (listed ++ (entries.map Prod.fst).filter fun path => startsWith path view) := by
  induction entries generalizing listed with
  | nil => simp [FS.listLoop, DirIterator.isValid]
  | cons entry entries ih =>
    show FS.listLoop view (entries.length + 1) ⟨entries⟩
      (if startsWith entry.1 view then listed ++ [entry.1] else listed) = _
    rw [ih, List.map_cons]
    by_cases hstarts : startsWith entry.1 view = true
    · rw [if_pos hstarts, List.filter_cons, if_pos hstarts, List.append_assoc]
      rfl
    · rw [if_neg hstarts, List.filter_cons, if_neg hstarts]

/-- **`FS::ListFiles` lists the files.** -/
theorem FS.listFiles_eq_ok (fs : FileSystem) (view : String) :
    FS.listFiles fs view (fs.files.toList.length + 1) = .ok (listing fs view) := by
  rw [FS.listFiles, FileSystem.listAllFiles, FS.listLoop_eq_ok, List.nil_append,
    Std.ExtTreeMap.map_fst_toList_eq_keys]
  rfl

/-- An iterator that is valid stays so, and the loop of `Server::ListFiles` goes on. -/
theorem Server.listLoop_of_isValid (view : String) (tests : ℕ) {iter : DirIterator}
    (h : iter.isValid = true) (listed : List Path) :
    Server.listLoop view tests iter listed = .error .diverges := by
  obtain ⟨entries⟩ := iter
  cases entries with
  | nil => cases h
  | cons entry entries =>
    induction tests generalizing listed with
    | zero => rfl
    | succ tests ih => exact ih _

theorem isValid_listAllFiles (fs : FileSystem) :
    fs.listAllFiles.isValid = true ↔ fs.files ≠ ∅ := by
  rw [DirIterator.isValid, FileSystem.listAllFiles, Bool.not_eq_true', ← Bool.not_eq_true,
    List.isEmpty_iff, Std.ExtTreeMap.toList_eq_nil_iff]

/-- Both listings return the same list of files, and it is the right one. -/
def ListsAlike (fs : FileSystem) (view : String) : Prop :=
  ∃ listed, (∃ tests, Server.listFiles fs view tests = .ok listed) ∧
    (∃ tests, FS.listFiles fs view tests = .ok listed) ∧ IsListing fs view listed

/-- **The listing for faults returns only if there are no files.**  That of the system
returns always, and lists every path that starts with the given text. -/
theorem listsAlike_iff (fs : FileSystem) (view : String) :
    (ListsAlike fs view ↔ fs.files = ∅) ∧
      ∃ listed, (∃ tests, FS.listFiles fs view tests = .ok listed) ∧ IsListing fs view listed := by
  have hsystem : ∃ tests, FS.listFiles fs view tests = .ok (listing fs view) :=
    ⟨_, FS.listFiles_eq_ok fs view⟩
  refine ⟨?_, _, hsystem, isListing_listing fs view⟩
  constructor
  · rintro ⟨listed, ⟨tests, hserver⟩, -⟩
    by_contra hfiles
    rw [Server.listFiles,
      Server.listLoop_of_isValid view tests ((isValid_listAllFiles fs).mpr hfiles)] at hserver
    cases hserver
  · intro hempty
    refine ⟨_, ⟨1, ?_⟩, hsystem, isListing_listing fs view⟩
    have hlisting : listing fs view = [] := by
      rw [listing, Std.ExtTreeMap.keys_eq_nil_iff.mpr hempty, List.filter_nil]
    have hinvalid : fs.listAllFiles.isValid = false := by
      rw [← Bool.not_eq_true, isValid_listAllFiles]
      exact not_not_intro hempty
    rw [Server.listFiles, Server.listLoop, hinvalid, hlisting]
    rfl

/-- The file system after a file was created. -/
def oneFile : FileSystem := (({} : FileSystem).create "/chunks/1").2

/-- With one file the listing for faults does not return. -/
theorem not_listsAlike_oneFile : ¬ ListsAlike oneFile "/chunks/" := by
  rintro ⟨listed, ⟨tests, hserver⟩, -⟩
  have hvalid : oneFile.listAllFiles.isValid = true := by decide
  rw [Server.listFiles, Server.listLoop_of_isValid _ tests hvalid] at hserver
  cases hserver

end Whirl.Fs
