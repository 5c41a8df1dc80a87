import LittleComputer.Image

/-!
# Files and paths

The files and directories around a working directory, and what reading a path there gives. A
tree is made path by path; a path names what it leads to, so two paths may name one file. A
path is followed name by name: a missing name ends the walk before a later fault can show, a
file cannot be walked through, and at the end of the walk there must be a file. Above the
directory that holds the working directory nothing is known.
-/

namespace LittleComputer

namespace FileTree

inductive Node where
  | directory
  | file (contents : Array Byte)
  deriving DecidableEq, Repr

/-- A directory that a walk can be in. -/
inductive Place where
  /-- Reached by these names, the last one first, from the directory that holds the working
  directory. -/
  | under (names : List String)
  /-- Any other directory. -/
  | outside
  deriving DecidableEq, Repr

def Place.parent : Place → Place
  | under (_ :: names) => under names
  | under [] | outside => outside

end FileTree

/-- The files and directories below the directory that holds the working directory. -/
structure FileTree where
  /-- The name of the working directory in the directory that holds it. -/
  name : String
  /-- What there is, by the names on the way to it, the last one first; of two entries for the
  same names the first one counts. -/
  entries : List (List String × FileTree.Node)

namespace FileTree

def empty (name : String) : FileTree := ⟨name, [([name], .directory)]⟩

/-- What the tree has at the end of some names. -/
def node? (tree : FileTree) (names : List String) : Option Node := tree.entries.lookup names

/-- Put something at the end of some names, in place of what was there. -/
def put (tree : FileTree) (names : List String) (node : Node) : FileTree :=
  { tree with entries := (names, node) :: tree.entries }

/-- Where a path begins: at the working directory, unless it begins with a slash. -/
def origin (tree : FileTree) (path : String) : Place :=
  if path.startsWith "/" then .outside else .under [tree.name]

/-! ## Making a tree -/

/-- Enter a directory by its name, and make it where there is nothing. -/
def enter (tree : FileTree) (place : Place) (name : String) : FileTree × Place :=
  if name = "" ∨ name = "." then (tree, place)
  else if name = ".." then (tree, place.parent)
  else
    match place with
    | .outside => (tree, .outside)
    | .under names =>
      let names := name :: names
      (if (tree.node? names).isSome then tree else tree.put names .directory, .under names)

/-- Enter directories one after the other. -/
def enterAll (tree : FileTree) (place : Place) : List String → FileTree × Place
  | [] => (tree, place)
  | name :: rest =>
    let (tree, place) := tree.enter place name
    tree.enterAll place rest

/-- Make the directory at a path, and each directory on the way to it. -/
def makeDirectory (tree : FileTree) (path : String) : FileTree :=
  (tree.enterAll (tree.origin path) (path.splitOn "/")).1

/-- Make the file at a path, and each directory on the way to it. -/
def makeFile (tree : FileTree) (path : String) (contents : Array Byte) : FileTree :=
  let names := path.splitOn "/"
  match tree.enterAll (tree.origin path) names.dropLast, names.getLast? with
  | (tree, .under names), some name => tree.put (name :: names) (.file contents)
  | (tree, _), _ => tree

/-! ## Reading -/

/-- The longest name of a file, in bytes. -/
def maxName : Nat := 255

/-- The longest path, in bytes. -/
def maxPath : Nat := 4095

inductive Reached where
  | directory (place : Place)
  | file (contents : Array Byte)
  deriving DecidableEq, Repr

/-- What a name means in a directory. -/
def lookup (tree : FileTree) (name : String) : Place → Except FileError Reached
  | .outside => .error .notFound
  | .under names =>
    match tree.node? (name :: names) with
    | some .directory => .ok (.directory (.under (name :: names)))
    | some (.file contents) => .ok (.file contents)
    | none => .error .notFound

/-- Follow one name of a path. -/
def follow (tree : FileTree) (reached : Reached) (name : String) : Except FileError Reached :=
  match reached with
  | .file _ => .error (.io .notADirectory)
  | .directory place =>
    if name = "" ∨ name = "." then .ok reached
    else if name = ".." then .ok (.directory place.parent)
    else if maxName < name.utf8ByteSize then .error (.io .nameTooLong)
    else tree.lookup name place

def read (tree : FileTree) (path : String) : Except FileError (Array Byte) :=
  if path.toList.contains '\x00' then .error (.io .zeroInPath)
  else if path.isEmpty then .error .notFound
  else if maxPath < path.utf8ByteSize then .error (.io .nameTooLong)
  else
    match (path.splitOn "/").foldlM tree.follow (.directory (tree.origin path)) with
    | .ok (.file contents) => .ok contents
    | .ok (.directory _) => .error (.io .isADirectory)
    | .error failure => .error failure

end FileTree

end LittleComputer
