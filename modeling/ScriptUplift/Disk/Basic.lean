import ScriptUplift.Disk.Node

namespace ScriptUplift

/-!
# The disk

The disk is the tree below the root directory together with the working
directory.  A path is followed name by name, as far as there are directories to
follow it through, and the links on the way are followed in turn; what goes wrong is
told with the path as it was given.
-/

/-- Why the disk refuses an operation. -/
inductive DiskCause
  | missing
  | notDirectory
  | isDirectory
  | occupied
  | tooManyLinks
  deriving Repr, DecidableEq

/-- The text of a cause. -/
def DiskCause.message : DiskCause → String
  | .missing => "no such file or directory"
  | .notDirectory => "not a directory"
  | .isDirectory => "is a directory"
  | .occupied => "file exists"
  | .tooManyLinks => "too many levels of symbolic links"

/-- An operation that failed. -/
structure DiskFault where
  operation : String
  /-- The path, or the paths, the operation was about. -/
  subject : String
  cause : DiskCause
  deriving Repr, DecidableEq

/-- The text of a failed operation. -/
def DiskFault.message
    (fault : DiskFault) :
    String :=
  fault.operation ++ " " ++ fault.subject ++ ": " ++ fault.cause.message

/-- The tree of files and the directory that relative paths start from. -/
structure Disk where
  root : Node := .directory []
  workDir : Place := []
  deriving Repr

namespace Disk

/-- The permissions of a new file. -/
def defaultMode : Nat :=
  0o644

/-- The permissions that are left of the requested ones. -/
def maskedMode
    (mode : Nat) :
    Nat :=
  mode &&& 0o755

/-- The number of different permissions. -/
def modeCount : Nat :=
  0o1000

/-- The number of links that one path may lead through. -/
def linkLimit : Nat :=
  40

/-- The place one name leads to from a directory. -/
def stepTo
    (here : Place)
    (name : String) :
    Place :=
  if name = "" || name = "." then here
  else if name = ".." then here.dropLast
  else here ++ [name]

/--
Follow names from a place; only a directory can be followed through.  A link is
followed by `jump`, which is told the directory of the link, its target and the names
that come after it; a link at the end is left alone unless the path is to be followed
to its end.
-/
def followNames
    (root : Node)
    (toEnd : Bool)
    (jump : Place → String → List String → Except DiskCause Place) :
    Place → List String → Except DiskCause Place
  | here, [] =>
      .ok here
  | here, name :: rest =>
      match root.get? here with
      | none =>
          .error .missing
      | some (.directory _) =>
          match root.get? (stepTo here name) with
          | some (.link target) =>
              if rest.isEmpty && !toEnd then .ok (stepTo here name) else jump here target rest
          | _ =>
              followNames root toEnd jump (stepTo here name) rest
      | some _ =>
          .error .notDirectory

/-- Follow names from a place through a limited number of links. -/
def follow
    (root : Node)
    (toEnd : Bool) :
    Nat → Place → List String → Except DiskCause Place
  | 0 =>
      followNames root toEnd fun _ _ _ => .error .tooManyLinks
  | links + 1 =>
      followNames root toEnd fun here target rest =>
        follow root toEnd links (if Path.isAbsolute target then [] else here)
          (Path.names target ++ rest)

/-- The place a path leads to, whether something is there or not. -/
def resolve
    (disk : Disk)
    (toEnd : Bool)
    (path : String) :
    Except DiskCause Place :=
  if path = "" then .error .missing
  else
    follow disk.root toEnd linkLimit (if Path.isAbsolute path then [] else disk.workDir)
      (Path.names path)

/-- The place of the entry at a path, which can be a link. -/
def placeOf
    (disk : Disk)
    (path : String) :
    Except DiskCause Place :=
  disk.resolve false path

/-- The place a path leads to when a link at its end is followed, too. -/
def targetOf
    (disk : Disk)
    (path : String) :
    Except DiskCause Place :=
  disk.resolve true path

/-- The node at a place that a path leads to. -/
def nodeAt
    (disk : Disk) :
    Except DiskCause Place → Except DiskCause Node
  | .error cause =>
      .error cause
  | .ok place =>
      match disk.root.get? place with
      | some node => .ok node
      | none => .error .missing

/-- The node a path leads to. -/
def find
    (disk : Disk)
    (path : String) :
    Except DiskCause Node :=
  disk.nodeAt (disk.targetOf path)

/-- The entry at a path, which can be a link. -/
def findEntry
    (disk : Disk)
    (path : String) :
    Except DiskCause Node :=
  disk.nodeAt (disk.placeOf path)

/-- The place of the entry that names lead to; without directories on the way, these names. -/
def seat
    (disk : Disk)
    (place : Place) :
    Place :=
  match disk.placeOf place.path with
  | .ok reached => reached
  | .error _ => place

/-- Whether a path leads to something. -/
def exists?
    (disk : Disk)
    (path : String) :
    Bool :=
  match disk.find path with
  | .ok _ => true
  | .error _ => false

/-- Whether there is an entry at a path, also a link that leads nowhere. -/
def taken
    (disk : Disk)
    (path : String) :
    Bool :=
  match disk.findEntry path with
  | .ok _ => true
  | .error _ => false

/-- Whether a directory is at a path. -/
def isDirectory
    (disk : Disk)
    (path : String) :
    Bool :=
  match disk.find path with
  | .ok node => node.isDirectory
  | .error _ => false

/-- The file at a path. -/
def file?
    (disk : Disk)
    (path : String) :
    Option (Content × Nat) :=
  match disk.find path with
  | .ok (.file content mode) => some (content, mode)
  | _ => none

/-- Put a node at a place. -/
def put
    (disk : Disk)
    (place : Place)
    (node : Node) :
    Disk :=
  { disk with root := Node.put node disk.root place }

/-- Remove what is at a place. -/
def remove
    (disk : Disk)
    (place : Place) :
    Disk :=
  { disk with root := disk.root.remove place }

/-- Read the file at a path. -/
def read
    (disk : Disk)
    (path : String) :
    Except DiskFault Content :=
  match disk.find path with
  | .error cause => .error ⟨"open", path, cause⟩
  | .ok (.file content _) => .ok content
  | .ok _ => .error ⟨"read", path, .isDirectory⟩

/-- Write the file a path leads to; an existing one keeps its permissions. -/
def write
    (disk : Disk)
    (path : String)
    (content : Content)
    (mode : Nat) :
    Except DiskFault Disk :=
  match disk.targetOf path with
  | .error cause => .error ⟨"open", path, cause⟩
  | .ok place =>
      match disk.root.get? place with
      | some (.file _ held) => .ok (disk.put place (.file content held))
      | some _ => .error ⟨"open", path, .isDirectory⟩
      | none => .ok (disk.put place (.file content (maskedMode mode)))

/-- Set the permissions of what a path leads to; those of a directory are not kept. -/
def chmod
    (disk : Disk)
    (path : String)
    (mode : Int) :
    Except DiskFault Disk :=
  match disk.targetOf path with
  | .error cause => .error ⟨"chmod", path, cause⟩
  | .ok place =>
      match disk.root.get? place with
      | none => .error ⟨"chmod", path, .missing⟩
      | some (.file content _) =>
          .ok (disk.put place (.file content (mode % modeCount).toNat))
      | some _ => .ok disk

/--
Go along names as far as they lead to directories: the place at which the rest of the
names is to be made, or the names up to the first one at which there can be no directory.
-/
def passage
    (disk : Disk) :
    Place → Place → List String → Except (Place × DiskCause) Place
  | _, here, [] =>
      .ok here
  | seen, here, name :: rest =>
      match disk.root.get? (here ++ [name]) with
      | none =>
          .ok (here ++ name :: rest)
      | some (.directory _) =>
          passage disk (seen ++ [name]) (here ++ [name]) rest
      | some (.file ..) =>
          .error (seen ++ [name], .notDirectory)
      | some (.link _) =>
          match disk.targetOf (Place.path (seen ++ [name])) with
          | .error _ => .error (seen ++ [name], .occupied)
          | .ok there =>
              match disk.root.get? there with
              | some (.directory _) => passage disk (seen ++ [name]) there rest
              | some _ => .error (seen ++ [name], .notDirectory)
              | none => .error (seen ++ [name], .occupied)

/-- Make the directory at a path and the ones on the way to it. -/
def makeDirectories
    (disk : Disk)
    (path : String) :
    Except DiskFault Disk :=
  match disk.passage [] [] (Path.place disk.workDir path) with
  | .error (blocked, cause) =>
      .error ⟨"mkdir",
        if Path.isAbsolute path then Place.path blocked else Path.relative disk.workDir blocked,
        cause⟩
  | .ok place =>
      if (disk.root.get? place).isSome then .ok disk
      else .ok (disk.put place (.directory []))

end Disk

/-- Why a script cannot be read. -/
inductive ReadFault
  | disk (fault : DiskFault)
  | notText (path : String)
  deriving Repr, DecidableEq

/-- The text about a script that cannot be read. -/
def ReadFault.message : ReadFault → String
  | .disk fault => fault.message
  | .notText path => "failed to decode " ++ path ++ ": not valid UTF-8"

/-- Read a script: a file in any other encoding is refused rather than changed byte by byte. -/
def Disk.readText
    (disk : Disk)
    (path : String) :
    Except ReadFault Text :=
  match disk.read path with
  | .error fault => .error (.disk fault)
  | .ok (.text text) => .ok text
  | .ok _ => .error (.notText path)

end ScriptUplift
