import ScriptUplift.Disk.Walker
import ScriptUplift.Fault

namespace ScriptUplift

/-!
# Backups

A backup copies the tree below a root into a new directory, which may lie below
the root itself and is not copied.  Directories that a walk passes over are left
out, and so is everything that is neither a directory nor a regular file.
-/

/-- Something to be made in a backup. -/
inductive BackupItem
  | directory (trail : List String)
  | file (trail : List String) (content : Content) (mode : Nat)
  deriving Repr

namespace Backup

/-- Whether a backup leaves a directory out. -/
def leavesOut
    (walker : Option Walker)
    (isMarked : List String → Bool)
    (name : String)
    (trail : List String) :
    Bool :=
  walker.any fun walker => walker.skips isMarked name trail

mutual

/-- What a backup makes of a node; the directory of the backup itself is left out. -/
def itemsBelow
    (walker : Option Walker)
    (isMarked : List String → Bool)
    (target : Option (List String))
    (name : String)
    (trail : List String) :
    Node → List BackupItem
  | .file content mode =>
      [.file trail content mode]
  | .link _ =>
      []
  | .directory entries =>
      if target = some trail || leavesOut walker isMarked name trail then
        []
      else
        .directory trail :: itemsOf walker isMarked target trail entries

/-- What a backup makes of the entries of a directory. -/
def itemsOf
    (walker : Option Walker)
    (isMarked : List String → Bool)
    (target : Option (List String))
    (trail : List String) :
    List (String × Node) → List BackupItem
  | [] =>
      []
  | (name, node) :: rest =>
      itemsBelow walker isMarked target name (trail ++ [name]) node ++
        itemsOf walker isMarked target trail rest

end

/-- Make one item below the directory of the backup. -/
def make
    (target : Place)
    (disk : Disk) :
    BackupItem → Disk
  | .directory trail =>
      if (disk.root.get? (target ++ trail)).isSome then disk
      else disk.put (target ++ trail) (.directory [])
  | .file trail content mode =>
      disk.put (target ++ trail) (.file content (Disk.maskedMode mode))

/-- Whether an item is a file. -/
def isFile : BackupItem → Bool
  | .file .. => true
  | .directory _ => false

/-- The names that lead from a root to a place below it. -/
def trailBelow?
    (root target : Place) :
    Option (List String) :=
  if root.isPrefixOf target then some (target.drop root.length) else none

/-- Copy the entries a root had before the directory of the backup was made. -/
def copy
    (walker : Option Walker)
    (root target : Place)
    (names : List String)
    (disk : Disk) :
    Nat × Disk :=
  let entries := ((disk.root.get? (disk.seat root)).map Node.entries).getD []
  let items := itemsOf walker (Walker.marked disk root) (trailBelow? root target) []
    (entries.filter fun entry => names.contains entry.1)
  (items.countP isFile, items.foldl (make (disk.seat target)) disk)

/-- The fault of a backup. -/
def failed
    (fault : DiskFault) :
    Fault :=
  .during "backup failed" (.plain fault.message)

end Backup

/-- Copy the tree below a place into a new directory; the answer counts the copied files. -/
def Disk.backup
    (disk : Disk)
    (root target : Place)
    (walker : Option Walker) :
    Disk × Except Fault Nat :=
  if disk.exists? target.path then
    (disk, .error (.plain ("backup destination already exists: " ++ target.path)))
  else
    match disk.findEntry root.path with
    | .error cause =>
        (disk, .error (Backup.failed ⟨"lstat", root.path, cause⟩))
    | .ok (.file content mode) =>
        match disk.write target.path content mode with
        | .ok written => (written, .ok 1)
        | .error fault => (disk, .error (Backup.failed fault))
    | .ok (.link _) =>
        (disk, .ok 0)
    | .ok (.directory entries) =>
        match disk.makeDirectories target.path with
        | .error fault => (disk, .error (Backup.failed fault))
        | .ok ready =>
            let (count, copied) := Backup.copy walker root target (entries.map Prod.fst) ready
            (copied, .ok count)

end ScriptUplift
