import ScriptUplift.Command.Run
import ScriptUplift.State.Image
import Std.Time.DateTime.Timestamp

namespace ScriptUplift

/-!
# The program

The trees that a command can reach are read from the real disk, the command is
run on them, and the files it changed are written back.
-/

namespace Workspace

/-- What the bytes of a file stand for. -/
def contentOf
    (bytes : ByteArray) :
    Content :=
  match Content.ofBytes bytes.toList with
  | .text text =>
      match Database.ofImage? text with
      | some database => .database database
      | none => .text text
  | content => content

/-- The bytes of a content. -/
def bytesOf : Content → ByteArray
  | .text text => (String.ofList text).toUTF8
  | .binary bytes => ⟨bytes.toArray⟩
  | .database database => database.image.toUTF8

/-- The paths that a request is about. -/
def pathsOf : Request → List String
  | .help => []
  | .perform options (.migrate _ files) => options.configFile :: options.directory :: files
  | .perform options (.check _ files) => options.configFile :: options.directory :: files
  | .perform options _ => [options.configFile, options.directory]

/-- The files that a run made or changed. -/
def changes
    (before after : Disk) :
    List (Place × Content) :=
  let held := before.root.files []
  (after.root.files []).filter fun file => !held.contains file

/--
Read what is at a path of the real disk.  A link in a directory leads to the path it is
resolved to; one that leads nowhere is not there.
-/
partial def load
    (path : String) :
    IO Node := do
  let resolved ← IO.FS.realPath path
  if ← resolved.isDir then
    let found := (← resolved.readDir).toList.mergeSort fun first second =>
      first.fileName ≤ second.fileName
    let entries ← found.filterMapM fun entry => do
      if (← entry.path.symlinkMetadata).type == .symlink then
        try
          return some (entry.fileName, Node.link (← IO.FS.realPath entry.path).toString)
        catch _ =>
          return none
      else
        return some (entry.fileName, ← load (Path.join path entry.fileName))
    return .directory entries
  else
    return .file (contentOf (← IO.FS.readBinFile path)) Disk.defaultMode

/-- The paths that the links below a node lead to. -/
partial def linksOf : Node → List String
  | .file .. => []
  | .link target => [target]
  | .directory entries => entries.flatMap fun entry => linksOf entry.2

/--
Add what is at a path of the real disk, and what its links lead to; what cannot be read
is not there.
-/
partial def add
    (disk : Disk)
    (path : String) :
    IO Disk := do
  if path = "" then
    return disk
  try
    let node ← load path
    let added := disk.put (Path.place disk.workDir path) node
    (linksOf node).foldlM (fun disk target =>
      if disk.exists? target then return disk else add disk target) added
  catch _ =>
    return disk

/-- Write a file to the real disk, in the place of a link that was there. -/
def write
    (before : Disk)
    (place : Place)
    (content : Content) :
    IO Unit := do
  IO.FS.createDirAll (Place.path place.dropLast)
  if let some (.link _) := before.root.get? place then
    IO.FS.removeFile place.path
  IO.FS.writeBinFile place.path (bytesOf content)

end Workspace

end ScriptUplift

open ScriptUplift in
/-- Run the program on the real disk. -/
def main
    (arguments : List String) :
    IO UInt32 := do
  let workDir := Path.cleanNames (← IO.currentDir).toString
  let now := (← Std.Time.Timestamp.now).toNanosecondsSinceUnixEpoch.val
  let paths :=
    match CommandLine.read arguments with
    | .ok request => Place.path workDir :: Workspace.pathsOf request
    | .error _ => []
  let disk ← paths.foldlM Workspace.add { workDir := workDir }
  let outcome := runProgram arguments now disk
  for (place, content) in Workspace.changes disk outcome.disk do
    Workspace.write disk place content
  IO.print outcome.output
  let stamp := Clock.logStamp (now.fdiv Clock.second)
  for event in outcome.log do
    IO.eprintln (stamp ++ " " ++ event.line)
  IO.eprint outcome.errorText
  return UInt32.ofNat outcome.code.number
