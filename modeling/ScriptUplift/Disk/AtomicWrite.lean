import ScriptUplift.Disk.Basic
import ScriptUplift.Fault

namespace ScriptUplift

/-!
# Atomic writes

A file is replaced through a temporary file in the same directory and a rename,
so that a reader sees either the old content or the new one.  A write that fails
leaves no temporary file behind.
-/

/-- A write whose temporary file is complete. -/
structure PendingWrite where
  disk : Disk
  /-- The path of the file that is replaced. -/
  target : String
  /-- The path of the temporary file. -/
  temporary : String
  content : Content
  mode : Nat
  deriving Repr

namespace Disk

/-- The temporary path with a number for a file in a directory. -/
def temporaryPath
    (directory name : String)
    (number : Nat) :
    String :=
  (if directory = "/" then "" else directory) ++ "/." ++ name ++ ".tmp-" ++ toString number

/-- The number of entries of the directory at a path. -/
def entryCount
    (disk : Disk)
    (directory : String) :
    Nat :=
  match disk.find directory with
  | .ok node => node.entries.length
  | .error _ => 0

/-- A temporary path that is not in use: a directory has fewer entries than numbers are tried. -/
def freshTemporaryPath
    (disk : Disk)
    (directory name : String) :
    String :=
  temporaryPath directory name
    (((List.range (disk.entryCount directory + 1)).find? fun number =>
      !disk.taken (temporaryPath directory name number)).getD 0)

/-- The permissions a replaced file keeps. -/
def modeFor
    (disk : Disk)
    (path : String) :
    Nat :=
  ((disk.file? path).map Prod.snd).getD defaultMode

/-- Write the temporary file of a replacement. -/
def beginWrite
    (disk : Disk)
    (path : String)
    (content : Content) :
    Except DiskFault PendingWrite :=
  let mode := disk.modeFor path
  let temporary := disk.freshTemporaryPath (Path.parent path) (Path.base path)
  match disk.placeOf temporary with
  | .error cause => .error ⟨"open", temporary, cause⟩
  | .ok place =>
      .ok { disk := disk.put place (.file content mode)
            target := path
            temporary, content, mode }

end Disk

namespace PendingWrite

/-- Give a write up: the temporary file is removed. -/
def abandon
    (pending : PendingWrite) :
    Disk :=
  match pending.disk.placeOf pending.temporary with
  | .ok place => pending.disk.remove place
  | .error _ => pending.disk

/--
Finish a write: the temporary file takes the place of the old one, which can be a link,
unless that is a directory.
-/
def commit
    (pending : PendingWrite) :
    Except DiskFault Disk :=
  let refuse := fun cause : DiskCause =>
    Except.error ⟨"rename", pending.temporary ++ " " ++ pending.target, cause⟩
  match pending.disk.placeOf pending.target with
  | .error cause => refuse cause
  | .ok place =>
      match pending.disk.root.get? place with
      | some (.directory _) => refuse .occupied
      | _ => .ok (pending.abandon.put place (.file pending.content pending.mode))

end PendingWrite

/-- Replace the file at a path. -/
def Disk.replace
    (disk : Disk)
    (path : String)
    (content : Content) :
    Disk × Option Fault :=
  match disk.beginWrite path content with
  | .error fault =>
      (disk, some (.during "failed to create temp file" (.plain fault.message)))
  | .ok pending =>
      match pending.commit with
      | .ok written => (written, none)
      | .error fault =>
          (pending.abandon, some (.during ("failed to replace " ++ path) (.plain fault.message)))

end ScriptUplift
