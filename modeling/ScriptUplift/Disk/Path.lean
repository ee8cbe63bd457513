import ScriptUplift.Text.Basic

namespace ScriptUplift

/-!
# Paths

A path is a text of names with slashes between them.  Cleaning, joining and
relating paths looks at the text alone and never at the disk.  A place is the
list of names from the root of the disk.
-/

/-- The names that lead from the root of the disk to a file or directory. -/
abbrev Place := List String

/-- The path of a place. -/
def Place.path
    (place : Place) :
    String :=
  "/" ++ "/".intercalate place

namespace Path

/-- The names between the slashes of a path, empty ones included. -/
def names
    (path : String) :
    List String :=
  (Text.splitAt '/' path.toList).map String.ofList

/-- Whether a path starts at the root of the disk. -/
def isAbsolute
    (path : String) :
    Bool :=
  path.toList.head? == some '/'

/--
Take one more name, given the ones before, last first: two dots cancel a name, and
at the root they mean nothing.
-/
def cleanStep
    (absolute : Bool)
    (taken : List String)
    (name : String) :
    List String :=
  if name = "" || name = "." then
    taken
  else if name = ".." then
    match taken with
    | [] => if absolute then [] else [".."]
    | last :: rest => if last = ".." then ".." :: taken else rest
  else
    name :: taken

/-- The names of a path that are left after cancelling. -/
def cleanNames
    (path : String) :
    List String :=
  ((names path).foldl (cleanStep (isAbsolute path)) []).reverse

/-- The shortest text of a path. -/
def clean
    (path : String) :
    String :=
  if isAbsolute path then
    Place.path (cleanNames path)
  else
    match cleanNames path with
    | [] => "."
    | kept => "/".intercalate kept

/-- Put a path below another one; an empty one is left out. -/
def join
    (base path : String) :
    String :=
  if base = "" && path = "" then ""
  else if base = "" then clean path
  else if path = "" then clean base
  else clean (base ++ "/" ++ path)

/-- The place of a path, seen from a working directory. -/
def place
    (workDir : Place)
    (path : String) :
    Place :=
  if isAbsolute path then cleanNames path
  else cleanNames (join (Place.path workDir) path)

/-- The last name of a path. -/
def base
    (path : String) :
    String :=
  match (names path).reverse.dropWhile (· == "") with
  | [] => if path = "" then "." else "/"
  | last :: _ => last

/-- The path without its last name. -/
def parent
    (path : String) :
    String :=
  match (names path).reverse with
  | _ :: [] => "."
  | _ :: rest => clean ("/".intercalate rest.reverse ++ "/")
  | [] => "."

/-- The names that are left after dropping the common start of two lists. -/
def dropCommon :
    List String → List String → List String × List String
  | first :: firsts, second :: seconds =>
      if first = second then dropCommon firsts seconds
      else (first :: firsts, second :: seconds)
  | firsts, seconds =>
      (firsts, seconds)

/-- The path that leads from one place to another. -/
def relative
    (root target : Place) :
    String :=
  match dropCommon root target with
  | ([], []) => "."
  | (up, down) => "/".intercalate (up.map (fun _ => "..") ++ down)

end Path

end ScriptUplift
