import ScriptedViews.Text.Blank
import ScriptedViews.Uri

set_option autoImplicit false

/-! # Files below a directory

A tree of files and directories, and how a URI finds a file in it. A view is only ever served from
below the base directory: a path that exists must lie below the base once every `..` is taken, and
one that cannot be followed may not contain `..` at all. -/

namespace ScriptedViews

/-- The names on the way to a place, from the top of the tree. -/
abbrev FilePath := List String

/-- What stands at a place. -/
inductive FileEntry where
  | directory
  | file (data : ByteArray)

/-- The places below the top of a tree of files. The top is a directory. -/
abbrev FileTree := List (FilePath × FileEntry)

namespace FileTree

/-- What stands at a place, if anything does. -/
def entry? (tree : FileTree) (path : FilePath) : Option FileEntry :=
  if path = [] then some .directory else tree.lookup path

/-- Whether a directory stands at a place. -/
def isDirectory (tree : FileTree) (path : FilePath) : Bool :=
  match tree.entry? path with
  | some .directory => true
  | _ => false

/-- Put something at a place. -/
def put (tree : FileTree) (path : FilePath) (entry : FileEntry) : FileTree :=
  (path, entry) :: tree.filter fun e => e.1 ≠ path

/-- Make a directory, with those above it that are not there yet. -/
def makeDirectory (tree : FileTree) (path : FilePath) : FileTree :=
  (List.range path.length).foldl (fun (t : FileTree) i =>
    let above := path.take (i + 1)
    if (t.entry? above).isSome then t else t.put above .directory) tree

/-- Remove what stands at a place, with everything below it. -/
def remove (tree : FileTree) (path : FilePath) : FileTree :=
  tree.filter fun e => !path.isPrefixOf e.1

/-- Follow segments of a path from a place that exists. Each step starts in a directory; `..` goes
    up, and from the top stays there; an empty segment or `.` stays. -/
def follow (tree : FileTree) (place : FilePath) : List String → Option FilePath
  | [] => some place
  | segment :: rest =>
    if !tree.isDirectory place then none
    else if segment = "" ∨ segment = "." then follow tree place rest
    else if segment = ".." then follow tree place.dropLast rest
    else if (tree.entry? (place ++ [segment])).isSome then follow tree (place ++ [segment]) rest
    else none

/-- The bytes of the file at a place, if a file stands there. -/
def read? (tree : FileTree) (path : FilePath) : Option ByteArray :=
  match tree.entry? path with
  | some (.file data) => some data
  | _ => none

end FileTree

/-- The segments of a path between its slashes. -/
def pathSegments (cs : List Char) : List String :=
  (Text.splitOn '/' cs).map String.ofList

/-- A directory that views are served from. -/
structure ViewDirectory where
  /-- The segments that lead to it. -/
  base : List String
  /-- The place it was at when serving began; none if there was no such place then. -/
  place : Option FilePath
deriving DecidableEq, Repr, Inhabited

namespace ViewDirectory

/-- Serve views from the directory that `base` leads to. -/
def start (tree : FileTree) (base : String) : ViewDirectory :=
  let segments := pathSegments base.toList
  ⟨segments, tree.follow [] segments⟩

/-- Where a URI leads. -/
inductive Target where
  /-- Out of the directory, or nowhere by the look of it. -/
  | outside
  /-- To a place, if there is one. -/
  | inside (place : Option FilePath)
deriving DecidableEq, Repr

/-- Where a URI leads in the directory. -/
def target (d : ViewDirectory) (tree : FileTree) (uri : String) : Target :=
  match (Uri.slashed uri.toList).dropWhile (· = '/') with
  | [] => .outside
  | relative =>
    let segments := pathSegments relative
    let place := tree.follow [] (d.base ++ segments)
    match place, d.place with
    | some p, some base => if base.isPrefixOf p then .inside (some p) else .outside
    | _, _ => if segments.contains ".." then .outside else .inside place

/-- The bytes of the file that a URI leads to. -/
def read? (d : ViewDirectory) (tree : FileTree) (uri : String) : Option ByteArray :=
  match d.target tree uri with
  | .outside => none
  | .inside place => place.bind tree.read?

end ViewDirectory

end ScriptedViews
