import ScriptUplift.Disk.Path
import ScriptUplift.State.Database

namespace ScriptUplift

/-!
# Files, links and directories

A directory holds named files, symbolic links and directories, in the order of their
names.  A file holds a text, bytes that are no text, or a state database; a link
holds the path it leads to.
-/

/-- What a file holds. -/
inductive Content
  | text (text : Text)
  /-- Bytes that are not valid UTF-8. -/
  | binary (bytes : List UInt8)
  | database (database : Database)
  deriving Repr, DecidableEq

namespace Content

/-- The content that bytes stand for. -/
def ofBytes
    (bytes : List UInt8) :
    Content :=
  match String.fromUTF8? ⟨bytes.toArray⟩ with
  | some decoded => .text decoded.toList
  | none => .binary bytes

/-- The number of bytes; that of a database is not told. -/
def size : Content → Nat
  | .text held => Text.byteSize held
  | .binary bytes => bytes.length
  | .database _ => 0

end Content

/-- A file, a symbolic link or a directory. -/
inductive Node
  | file (content : Content) (mode : Nat)
  | link (target : String)
  | directory (entries : List (String × Node))
  deriving Repr

namespace Node

/-- The entries of a directory; nothing else has any. -/
def entries : Node → List (String × Node)
  | .directory entries => entries
  | _ => []

/-- Whether a node is a directory. -/
def isDirectory : Node → Bool
  | .directory _ => true
  | _ => false

/-- The node below another one; no link is followed. -/
def get? :
    Node → Place → Option Node
  | node, [] =>
      some node
  | .file .., _ :: _ =>
      none
  | .link _, _ :: _ =>
      none
  | .directory entries, name :: rest =>
      match entries.lookup name with
      | some child => child.get? rest
      | none => none

/--
Put a node below another one.  Directories on the way are made; nothing is put
below a file or a link.
-/
def put
    (new : Node) :
    Node → Place → Node
  | _, [] =>
      new
  | .file content mode, _ :: _ =>
      .file content mode
  | .link target, _ :: _ =>
      .link target
  | .directory entries, name :: rest =>
      .directory (Entries.insert name
        (put new ((entries.lookup name).getD (.directory [])) rest) entries)

/-- Remove the node below another one. -/
def remove :
    Node → Place → Node
  | node, [] =>
      node
  | .file content mode, _ :: _ =>
      .file content mode
  | .link target, _ :: _ =>
      .link target
  | .directory entries, [name] =>
      .directory (Entries.erase name entries)
  | .directory entries, name :: rest =>
      match entries.lookup name with
      | some child => .directory (Entries.insert name (child.remove rest) entries)
      | none => .directory entries

mutual

/-- The files below a node with the names that lead to them; no link is followed. -/
def files
    (trail : List String) :
    Node → List (Place × Content)
  | .file content _ =>
      [(trail, content)]
  | .link _ =>
      []
  | .directory entries =>
      filesOf trail entries

/-- The files of the entries of a directory. -/
def filesOf
    (trail : List String) :
    List (String × Node) → List (Place × Content)
  | [] =>
      []
  | (name, node) :: rest =>
      files (trail ++ [name]) node ++ filesOf trail rest

end

end Node

end ScriptUplift
