import ScriptUplift.Disk.Basic
import ScriptUplift.Glob
import ScriptUplift.IgnoreRule

namespace ScriptUplift

/-!
# Finding scripts

A walk visits the tree below a root in the order of names.  It passes over the
directories that are excluded, marked or ignored, and keeps the files that are
included, not excluded and not ignored.  A link is listed like a file and is not
followed.
-/

/-- Which files a walk finds. -/
structure Walker where
  /-- Globs of paths below the root. -/
  includes : List String
  /-- Globs of directory names. -/
  excludeDirs : List String
  /-- Globs of file names. -/
  excludeFiles : List String
  ignoreRules : List IgnoreRule := []
  deriving Repr

/-- A file that a walk found. -/
structure FoundFile where
  place : Place
  /-- The path below the root. -/
  relative : String
  size : Nat
  deriving Repr, DecidableEq

namespace Walker

/-- The name of the file that marks a directory to be passed over. -/
def ignoreMarker : String :=
  ".gdignore"

/-- The globs of files to include when none are given. -/
def defaultIncludes : List String :=
  ["**/*.gd"]

/-- A walker of globs; without any to include it looks for scripts. -/
def ofGlobs
    (includes excludeDirs excludeFiles : List String) :
    Walker where
  includes := if includes.isEmpty then defaultIncludes else includes
  excludeDirs := excludeDirs
  excludeFiles := excludeFiles

/-- Whether one of the globs describes a name. -/
def anyDescribes
    (globs : List String)
    (name : String) :
    Bool :=
  globs.any fun glob => Glob.describes glob.toList name.toList

/-- Whether the ignore rules leave a path out. -/
def ignores
    (walker : Walker)
    (path : String) :
    Bool :=
  IgnoreRule.ignores walker.ignoreRules path.toList

/-- The path that names lead to below the root. -/
def relativePath
    (trail : List String) :
    String :=
  if trail.isEmpty then "." else "/".intercalate trail

/-- Whether the names below a root lead to a directory with a marker. -/
def marked
    (disk : Disk)
    (root : Place)
    (trail : List String) :
    Bool :=
  disk.exists? (Place.path (root ++ trail ++ [ignoreMarker]))

/-- Whether a directory is passed over, where it is told which directories are marked. -/
def skips
    (walker : Walker)
    (isMarked : List String → Bool)
    (name : String)
    (trail : List String) :
    Bool :=
  anyDescribes walker.excludeDirs name ||
    isMarked trail ||
    walker.ignores (relativePath trail ++ "/")

/-- Whether a file is kept. -/
def keeps
    (walker : Walker)
    (trail : List String) :
    Bool :=
  let path := relativePath trail
  anyDescribes walker.includes path &&
    !anyDescribes walker.excludeFiles (Path.base path) &&
    !walker.ignores path

mutual

/-- The kept files of a node that is not the root of a walk; a link holds its target. -/
def filesBelow
    (walker : Walker)
    (isMarked : List String → Bool)
    (name : String)
    (trail : List String) :
    Node → List (List String × Content)
  | .file content _ =>
      if walker.keeps trail then [(trail, content)] else []
  | .link target =>
      if walker.keeps trail then [(trail, .text target.toList)] else []
  | .directory entries =>
      if walker.skips isMarked name trail then [] else walker.filesOf isMarked trail entries

/-- The kept files of the entries of a directory. -/
def filesOf
    (walker : Walker)
    (isMarked : List String → Bool)
    (trail : List String) :
    List (String × Node) → List (List String × Content)
  | [] =>
      []
  | (name, node) :: rest =>
      walker.filesBelow isMarked name (trail ++ [name]) node ++
        walker.filesOf isMarked trail rest

end

/-- The kept files of a root, which is never passed over. -/
def filesAt
    (walker : Walker)
    (isMarked : List String → Bool) :
    Node → List (List String × Content)
  | .file content _ =>
      if walker.keeps [] then [([], content)] else []
  | .link target =>
      if walker.keeps [] then [([], .text target.toList)] else []
  | .directory entries =>
      walker.filesOf isMarked [] entries

/-- Walk the tree below a path. -/
def walk
    (walker : Walker)
    (disk : Disk)
    (path : String) :
    Except DiskFault (List FoundFile) :=
  let root := Path.place disk.workDir path
  match disk.findEntry (Place.path root) with
  | .error cause =>
      .error ⟨"lstat", Place.path root, cause⟩
  | .ok node =>
      .ok ((walker.filesAt (marked disk root) node).map fun (trail, content) =>
        { place := root ++ trail
          relative := relativePath trail
          size := content.size })

/-- The lines of an ignore file; a line that is no text has no rule. -/
def ignoreLines : Content → List Text
  | .text text =>
      Text.splitAt '\n' text
  | .binary bytes =>
      (bytes.splitOn 0x0A).filterMap fun line =>
        (String.fromUTF8? ⟨line.toArray⟩).map String.toList
  | .database _ =>
      []

/-- Read the rules of the ignore files of a directory; missing files are passed over. -/
def useIgnoreFiles
    (walker : Walker)
    (disk : Disk)
    (directory : String) :
    List String → Except DiskFault Walker
  | [] =>
      .ok walker
  | name :: rest =>
      match disk.read (Path.join directory name) with
      | .ok content =>
          useIgnoreFiles
            { walker with
              ignoreRules := walker.ignoreRules ++ IgnoreRule.ofLines (ignoreLines content) }
            disk directory rest
      | .error fault =>
          if fault.cause = .missing then useIgnoreFiles walker disk directory rest
          else .error fault

end Walker

end ScriptUplift
