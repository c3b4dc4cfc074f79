import Mathlib.Data.List.AList
import Ryklys.Runs
import Ryklys.Strings

/-!
# StreamPocket's cleanup thread

The thread of `stream-pocket/main.cpp` that removes old stream directories, and
the PUT handler on the main thread, as steps on the directories below
`StorageConfig::BaseDir()`. There is no lock between the two. Of a file only
its last write time matters here.
-/

namespace Ryklys

/-- The last write times of the files of a directory. -/
abbrev DirFiles := AList fun _ : Bytes => Nat

abbrev StreamDirs := AList fun _ : Bytes => DirFiles

inductive CleanupPc where
  | sleeping
  -- between two directories of a pass that started at `now`
  | scanning (now : Nat)
  -- with the newest write time it found in the directory, if any
  | listed (now : Nat) (dir : Bytes) (newest : Option Nat)
  deriving DecidableEq, Repr

inductive PutPc where
  | idle
  | created (dir name : Bytes)
  | opened (dir name : Bytes)
  deriving DecidableEq, Repr

structure PocketThreads where
  -- nanoseconds of the file clock
  clock : Nat := 0
  dirs : StreamDirs := ∅
  cleanup : CleanupPc := .sleeping
  put : PutPc := .idle
  -- when the last PUT of a file was answered with 200
  answered : Bytes → Bytes → Option Nat := fun _ _ => none
  -- a PUT found no directory to open its file in
  swept : Bool := false

inductive PocketOp where
  | tick (n : Nat)
  | wake
  | list (dir : Bytes)
  | remove
  -- the pass is through, or an exception ends it
  | passEnds
  | createDirectories (dir name : Bytes)
  -- whether `open` succeeds where there is a directory
  | openFile (opens : Bool)
  | write

def maxAge : Nat := 6 * 60 * 60 * 10 ^ 9

def newer : Option Nat → Nat → Option Nat
  | none, mod => some mod
  | some newest, mod => if newest < mod then some mod else some newest

/-- The loop over the files; `none` is `file_time_type::min()`. -/
def newestWrite (files : DirFiles) : Option Nat := files.entries.foldl (fun newest file => newer newest file.2) none

/-- The directory was empty, or its newest file is too old. -/
def stale (now : Nat) : Option Nat → Bool
  | none => true
  | some newest => decide (newest + maxAge < now)

def PutPc.dir : PutPc → Option Bytes
  | idle => none
  | created dir _ => some dir
  | opened dir _ => some dir

namespace PocketThreads

variable (s : PocketThreads)

def file (dir name : Bytes) : Option Nat := (s.dirs.lookup dir).bind fun files => files.lookup name

/-- The file is created or written now, if its directory is there. -/
def touch (dir name : Bytes) : StreamDirs :=
  match s.dirs.lookup dir with
  | some files => s.dirs.insert dir (files.insert name s.clock)
  | none => s.dirs

def step : PocketOp → PocketThreads
  | .tick n => { s with clock := s.clock + n }
  | .wake => if s.cleanup = .sleeping then { s with cleanup := .scanning s.clock } else s
  | .list dir =>
    match s.cleanup, s.dirs.lookup dir with
    | .scanning now, some files => { s with cleanup := .listed now dir (newestWrite files) }
    | _, _ => s
  | .remove =>
    match s.cleanup with
    | .listed now dir newest =>
      { s with cleanup := .scanning now, dirs := if stale now newest then s.dirs.erase dir else s.dirs }
    | _ => s
  | .passEnds => { s with cleanup := .sleeping }
  | .createDirectories dir name =>
    if s.put = .idle then
      { s with
        put := .created dir name
        dirs := if (s.dirs.lookup dir).isSome then s.dirs else s.dirs.insert dir ∅ }
    else s
  | .openFile opens =>
    match s.put with
    | .created dir name =>
      if (s.dirs.lookup dir).isSome then
        if opens then { s with put := .opened dir name, dirs := s.touch dir name } else { s with put := .idle }
      else { s with put := .idle, swept := true }
    | _ => s
  | .write =>
    match s.put with
    | .opened dir name =>
      { s with
        put := .idle
        -- a file that was removed meanwhile has no name any more
        dirs := if (s.file dir name).isSome then s.touch dir name else s.dirs
        answered := Function.update s.answered dir (Function.update (s.answered dir) name (some s.clock)) }
    | _ => s

/-- What was answered less than six hours ago is stored, and no PUT lost its
directory. -/
structure KeepsFresh : Prop where
  stored : ∀ dir name t, s.answered dir name = some t → s.clock < t + maxAge → (s.file dir name).isSome
  served : s.swept = false

/-- A directory that is removed is as it was listed, and no PUT is at work in it. -/
def Undisturbed : PocketOp → Prop
  | .remove =>
    match s.cleanup with
    | .listed now dir newest =>
      match s.dirs.lookup dir with
      | some files => stale now newest = true → newestWrite files = newest ∧ s.put.dir ≠ some dir
      | none => True
    | _ => True
  | _ => True

instance (o : PocketOp) : Decidable (s.Undisturbed o) := by
  unfold Undisturbed
  split
  · split
    · split <;> infer_instance
    · infer_instance
  · infer_instance

end PocketThreads

end Ryklys
