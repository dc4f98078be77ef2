import Std.Data.TreeMap
import NestedMachine.Host.Refusal
import NestedMachine.Memory.Bytes

/-!
# File trees

A file tree says what stands at each place of a file system, seen from a working
directory.  A place is reached from the working directory, from one of the
directories above it, or from the root.  A path is walked name by name: each name
but the last has to lead to a directory, and two dots lead one directory up.  A
path that ends in a slash asks for a directory, and no file is created there.

A tree can be complete, so that nothing stands where nothing is recorded.  In a
tree that is not complete a walk can meet a place about which nothing is known
yet; it stops there and names the place.
-/

namespace NestedMachine

set_option autoImplicit false

/-! ## Places -/

/-- Where a walk can get to: the names below the root, or below the directory that lies `up` levels
above the working directory.  The innermost name comes first. -/
structure Place where
  absolute : Bool
  up : Nat
  names : List String
  deriving DecidableEq, Repr

namespace Place

/-- The working directory. -/
def working : Place := ⟨false, 0, []⟩

/-- The root. -/
def root : Place := ⟨true, 0, []⟩

/-- The directory above a place. -/
def above (place : Place) : Place :=
  match place.names with
  | _ :: rest => { place with names := rest }
  | [] => if place.absolute then place else { place with up := place.up + 1 }

/-- The place of a name in a directory. -/
def child (place : Place) (name : String) : Place := { place with names := name :: place.names }

/-- A path that leads to the place. -/
def path (place : Place) : String :=
  let front := if place.absolute then ["" ] else List.replicate place.up ".."
  let path := "/".intercalate (front ++ place.names.reverse)
  if path = "" then (if place.absolute then "/" else ".") else path

end Place

/-! ## Trees -/

/-- What stands at a place. -/
inductive Node where
  | file (contents : Bytes)
  | directory
  /-- Nothing; a file can be created here. -/
  | nothing
  deriving DecidableEq, Repr

/-- What is known of a file system. -/
structure FileTree where
  nodes : Std.TreeMap String Node
  /-- Nothing stands where nothing is recorded. -/
  complete : Bool

/-- What a path is walked for. -/
inductive Purpose where
  /-- For what stands at its end. -/
  | finding
  /-- For a file at its end, which is created if nothing stands there. -/
  | creating
  deriving DecidableEq, Repr

/-- Where a walk ends. -/
inductive WalkResult where
  /-- At a place where the node stands. -/
  | found (place : Place) (node : Node)
  | refused (cause : SystemRefusal)
  /-- At a place about which nothing is known. -/
  | unknown (place : Place)
  deriving DecidableEq, Repr

namespace FileTree

/-- A complete tree with nothing in it. -/
def empty : FileTree := ⟨∅, true⟩

/-- The tree of which nothing is known yet. -/
def unexplored : FileTree := ⟨∅, false⟩

/-- Record what stands at a place. -/
def record (tree : FileTree) (place : Place) (node : Node) : FileTree :=
  { tree with nodes := tree.nodes.insert place.path node }

/-- What stands at a place, if it is known.  A place without names is a directory. -/
def node? (tree : FileTree) (place : Place) : Option Node :=
  match place.names with
  | [] => some .directory
  | _ :: _ =>
      match tree.nodes[place.path]? with
      | some node => some node
      | none => if tree.complete then some .nothing else none

/-- The longest name that a directory can hold, in bytes. -/
def maxNameSize : Nat := 255

/-- Walk from a place along names.  With `closed` the path ends in a slash, so that even its last
name has to lead to a directory; where a file could be created, such a name is refused before
anyone looks what stands there. -/
def walkFrom (tree : FileTree) (purpose : Purpose) (closed : Bool) :
    Place → Node → List String → WalkResult
  | place, node, [] =>
      match closed, node with
      | true, .file _ => .refused .notADirectory
      | _, _ => .found place node
  | place, node, name :: rest =>
      match node with
      | .file _ => .refused .notADirectory
      | .nothing => .refused .noSuchFile
      | .directory =>
          if name = "." then tree.walkFrom purpose closed place .directory rest
          else if name = ".." then tree.walkFrom purpose closed place.above .directory rest
          else if purpose = .creating ∧ closed ∧ rest.isEmpty then .refused .isADirectory
          else if maxNameSize < name.utf8ByteSize then .refused .nameTooLong
          else
            match tree.node? (place.child name) with
            | none => .unknown (place.child name)
            | some node => tree.walkFrom purpose closed (place.child name) node rest

/-- The longest path, in bytes. -/
def maxPathSize : Nat := 4095

/-- The names of a path; several slashes part two names like a single one. -/
def namesOf (path : String) : List String := (path.splitOn "/").filter (· ≠ "")

/-- Walk along a path. -/
def walk (tree : FileTree) (purpose : Purpose) (path : String) : WalkResult :=
  if path = "" then .refused .noSuchFile
  else if maxPathSize < path.utf8ByteSize then .refused .nameTooLong
  else
    let start := if path.startsWith "/" then Place.root else Place.working
    tree.walkFrom purpose (path.endsWith "/") start .directory (namesOf path)

/-- Put a file at a path and make the directories that lead to it. -/
def putFile (tree : FileTree) (path : String) (contents : Bytes) : FileTree :=
  let start := if path.startsWith "/" then Place.root else Place.working
  let names := (namesOf path).filter (· ≠ ".")
  let rec place (tree : FileTree) (here : Place) : List String → FileTree
    | [] => tree
    | [name] => tree.record (here.child name) (.file contents)
    | name :: rest => place (tree.record (here.child name) .directory) (here.child name) rest
  place tree start names

/-- The contents of the file at a path. -/
def contents? (tree : FileTree) (path : String) : Option Bytes :=
  match tree.walk .finding path with
  | .found _ (.file contents) => some contents
  | _ => none

/-- The files that have other contents than before, with the paths that lead to them. -/
def changesSince (tree before : FileTree) : List (String × Bytes) :=
  tree.nodes.toList.filterMap fun (path, node) =>
    match node with
    | .file contents =>
        if before.nodes[path]? = some node then none else some (path, contents)
    | _ => none

end FileTree

end NestedMachine
