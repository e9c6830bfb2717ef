/-
# Joining and splitting paths

`PathAppend` and `PathSplit` of `fs/fs.cpp`, which the node calls through `FS`
(`server/runtime/filesystem.hpp`).  Joining puts a slash between the two parts unless the
base ends with one; splitting cuts at the last slash.  So the base `a/` is split off as
`a`, to which the same is joined.
-/
import WhirlMatrix.Strings
import WhirlMatrix.Fs.FileSystem

namespace Whirl.Fs

open StdString Separators

/-! ## The two functions -/

/-- `PathAppend`. -/
def FileSystem.pathAppend (basePath : Path) (name : String) : Path :=
  if endsWith basePath '/' then basePath ++ name else basePath ++ "/" ++ name

/-- `PathSplit`: the parent and the name. -/
def FileSystem.pathSplit (path : Path) : Outcome (Path × String) :=
  match findLastOf path '/' with
  | some splitPos => do
    let parent ← substr path 0 splitPos
    let name ← substr path (splitPos + 1) path.length
    return (parent, name)
  | none => .ok (path, "")

/-- `FS::PathAppend`. -/
def FS.pathAppend (base : Path) (name : String) : Path := FileSystem.pathAppend base name

/-- `FS::PathSplit`. -/
def FS.pathSplit (path : Path) : Outcome (Path × String) := FileSystem.pathSplit path

/-! ## What they do -/

variable {base path : Path} {before after : List Char}

/-- A path is cut at its last slash. -/
theorem FileSystem.pathSplit_eq (h : path.toList = before ++ '/' :: after) (hafter : '/' ∉ after) :
    pathSplit path = .ok (String.ofList before, String.ofList after) := by
  have hlast : findLastOf path '/' = some before.length := by
    rw [findLastOf, h]
    exact lastIdxOf?_append_cons before hafter
  rw [pathSplit, hlast]
  show (substr path 0 before.length >>= _) = _
  rw [substr_before h, Outcome.ok_bind, substr_after h]
  rfl

/-- A base that ends with a slash is joined as it is. -/
theorem FileSystem.toList_pathAppend_slash (h : base.toList = before ++ ['/']) (name : String) :
    (pathAppend base name).toList = before ++ '/' :: name.toList := by
  rw [pathAppend, if_pos (endsWith_iff.mpr ⟨before, h⟩), String.toList_append, h]
  simp

/-- Any other base gets a slash. -/
theorem FileSystem.toList_pathAppend (h : ¬ endsWith base '/' = true) (name : String) :
    (pathAppend base name).toList = base.toList ++ '/' :: name.toList := by
  rw [pathAppend, if_neg h, String.toList_append, String.toList_append]
  simp

/-- A base and the base with a slash stand for the same directory, unless that has a slash
at its end already. -/
theorem FileSystem.pathAppend_ofList (h : base.toList = before ++ ['/'])
    (hbefore : ¬ ∃ rest, before = rest ++ ['/']) (name : String) :
    pathAppend (String.ofList before) name = pathAppend base name := by
  have hnot : ¬ endsWith (String.ofList before) '/' = true := by
    rwa [endsWith_iff, String.toList_ofList]
  rw [← String.toList_inj, toList_pathAppend hnot, toList_pathAppend_slash h, String.toList_ofList]

/-! ## Mutually inverse -/

/-- The last slash of a path comes right after another one. -/
def LastSlashDoubled (path : Path) : Prop :=
  ∃ before after, path.toList = before ++ '/' :: '/' :: after ∧ '/' ∉ after

/-- **Splitting and joining are mutually inverse.**  What was joined to a base is split off
again, and the rest stands for the same directory as the base; and the two parts of a path
are joined to the path. -/
theorem FS.pathSplit_pathAppend_and_pathAppend_pathSplit :
    (∀ (base : Path) (name : String), ¬ ['/', '/'] <:+ base.toList → '/' ∉ name.toList →
      ∃ parent, FS.pathSplit (FS.pathAppend base name) = .ok (parent, name) ∧
        ∀ other, FS.pathAppend parent other = FS.pathAppend base other) ∧
      ∀ path : Path, '/' ∈ path.toList → ¬ LastSlashDoubled path →
        ∃ parent name, FS.pathSplit path = .ok (parent, name) ∧
          FS.pathAppend parent name = path := by
  constructor
  · intro base name hbase hname
    by_cases hends : endsWith base '/' = true
    · obtain ⟨before, hbefore⟩ := endsWith_iff.mp hends
      refine ⟨String.ofList before, ?_, ?_⟩
      · show FileSystem.pathSplit (FileSystem.pathAppend base name) = _
        rw [FileSystem.pathSplit_eq (FileSystem.toList_pathAppend_slash hbefore name) hname,
          String.ofList_toList]
      · apply FileSystem.pathAppend_ofList hbefore
        rintro ⟨rest, rfl⟩
        exact hbase ⟨rest, by rw [hbefore, List.append_assoc]; rfl⟩
    · refine ⟨base, ?_, fun _ => rfl⟩
      show FileSystem.pathSplit (FileSystem.pathAppend base name) = _
      rw [FileSystem.pathSplit_eq (FileSystem.toList_pathAppend hends name) hname,
        String.ofList_toList, String.ofList_toList]
  · intro path hslash hdoubled
    obtain ⟨before, after, hpath, hafter⟩ := exists_append_cons hslash
    refine ⟨_, _, FileSystem.pathSplit_eq hpath hafter, ?_⟩
    show FileSystem.pathAppend (String.ofList before) (String.ofList after) = path
    have hnot : ¬ endsWith (String.ofList before) '/' = true := by
      rw [endsWith_iff, String.toList_ofList]
      rintro ⟨rest, rfl⟩
      exact hdoubled ⟨rest, after, by rw [hpath, List.append_assoc]; rfl, hafter⟩
    rw [← String.toList_inj, FileSystem.toList_pathAppend hnot, String.toList_ofList,
      String.toList_ofList, hpath]

/-- A file of a directory that is written with a slash, and the root. -/
theorem FS.pathSplit_pathAppend_and_pathAppend_pathSplit_chunks :
    (∃ parent, FS.pathSplit (FS.pathAppend "chunks/" "1") = .ok (parent, "1") ∧
      ∀ other, FS.pathAppend parent other = FS.pathAppend "chunks/" other) ∧
      ∃ parent name, FS.pathSplit "/chunks" = .ok (parent, name) ∧
        FS.pathAppend parent name = "/chunks" := by
  obtain ⟨hsplit, hjoin⟩ := FS.pathSplit_pathAppend_and_pathAppend_pathSplit
  refine ⟨hsplit "chunks/" "1" (by decide) (by decide), hjoin "/chunks" (by decide) ?_⟩
  rintro ⟨before, after, hpath, -⟩
  have hcount := congrArg (List.count '/') hpath
  simp at hcount
  omega

end Whirl.Fs
