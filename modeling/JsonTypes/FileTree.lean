/-
Trees of files, and paths into them.

* `FileTree`: a file with its content, or a directory of named trees.
* `FileTree.ofFiles`: the smallest tree with given files.
* `FileTree.descendants`: everything inside a tree, in name order, a directory
  before what it holds.
* `FileSystem`: the directory from which paths start, with the directories around
  it; `FileSystem.locate`: what stands at a path.
* `FileFault`: why a file cannot be read.
-/
import JsonTypes.Table
import JsonTypes.Text.Pieces

namespace JsonTypes

universe u

/-- A file with its content, or a directory of named trees. -/
inductive FileTree (α : Type u) where
  | file (content : α)
  | directory (entries : Table (FileTree α))

/-- Why a file cannot be read. -/
inductive FileFault where
  | notFound
  | notDirectory
  | isDirectory
  | nameTooLong
  /-- The character zero in a path, which ends paths. -/
  | zeroCharacter
  | notText
  /-- Anything else, in the words of the system. -/
  | other (message : String)
deriving DecidableEq, Repr

/-- The message of a fault. -/
def FileFault.message : FileFault → String
  | notFound => "No such file or directory (os error 2)"
  | notDirectory => "Not a directory (os error 20)"
  | isDirectory => "Is a directory (os error 21)"
  | nameTooLong => "File name too long (os error 36)"
  | zeroCharacter => "file name contained an unexpected NUL byte"
  | notText => "stream did not contain valid UTF-8"
  | other message => message

namespace FileTree

variable {α : Type u}

/-- The directory without entries. -/
def bare : FileTree α := .directory .empty

/-- Whether a tree is a directory. -/
def isDirectory : FileTree α → Bool
  | .directory _ => true
  | .file _ => false

/-! ### Paths -/

/-- The number of bytes that a name may have. -/
def nameLimit : Nat := 255

/-- The number of bytes that a path may have. -/
def pathLimit : Nat := 4095

/-- What a list of steps leads to from a tree, with the directories around the
tree, innermost first. Around the outermost directory there is the directory
itself. -/
def follow (around : List (FileTree α)) : FileTree α → List String →
    Except FileFault (FileTree α)
  | tree, [] => .ok tree
  | .file _, _ :: _ => .error .notDirectory
  | .directory entries, step :: rest =>
    if step = "" ∨ step = "." then follow around (.directory entries) rest
    else if step = ".." then
      match around with
      | parent :: further => follow further parent rest
      | [] => follow [] (.directory entries) rest
    else if nameLimit < step.utf8ByteSize then .error .nameTooLong
    else
      match entries.find? step with
      | some tree => follow (.directory entries :: around) tree rest
      | none => .error .notFound

/-- What keeps a path from being looked up. -/
def pathFault? (path : String) : Option FileFault :=
  if path.toList.contains '\x00' then some .zeroCharacter
  else if pathLimit < path.utf8ByteSize then some .nameTooLong
  else none

/-! ### Building -/

/-- The tree with a file at the end of a list of steps. -/
def insert (content : α) : List String → FileTree α → FileTree α
  | [], _ => .file content
  | step :: rest, .directory entries =>
    .directory (entries.put step (insert content rest ((entries.find? step).getD bare)))
  | step :: rest, .file _ => .directory (Table.empty.put step (insert content rest bare))

/-- The smallest tree with the given files, each under its path. -/
def ofFiles (files : List (String × α)) : FileTree α :=
  files.foldl (fun tree (path, content) => tree.insert content (stringPieces '/' path)) bare

/-! ### Contents -/

/-- The path of an entry of a directory, given the path of the directory. -/
def inside (path name : String) : String :=
  if path.endsWith "/" then path ++ name else path ++ "/" ++ name

/-- The names of the entries of a directory, in order. -/
def sortedNames (entries : Table (FileTree α)) : List String :=
  entries.names.toList.mergeSort fun a b => a ≤ b

/-- Something inside a tree. -/
structure Descendant where
  name : String
  path : String
  isDirectory : Bool

/-- Everything inside a tree in name order, a directory before what it holds.
`pathOf` makes the path of an entry from its name. -/
def descendants (pathOf : String → String) : FileTree α → List Descendant
  | .file _ => []
  | .directory ⟨names, entry⟩ =>
    let held := List.ofFn fun i =>
      let name := names.toList[i]
      let path := pathOf name
      (name, ⟨name, path, (entry i).isDirectory⟩ :: (entry i).descendants (inside path))
    ((held.mergeSort fun a b => a.1 ≤ b.1).map Prod.snd).flatten

end FileTree

/-- The directory from which paths start, with the directories around it. -/
structure FileSystem (α : Type u) where
  /-- Innermost first. -/
  around : List (FileTree α)
  home : FileTree α

namespace FileSystem

variable {α : Type u}

/-- A directory in a system of which nothing else is known. -/
def alone (home : FileTree α) : FileSystem α := ⟨[.bare], home⟩

/-- The outermost directory. -/
def root (system : FileSystem α) : FileTree α := system.around.getLast?.getD system.home

/-- What stands at a path. A path with a slash in front starts at the outermost
directory. -/
def locate (system : FileSystem α) (path : String) : Except FileFault (FileTree α) :=
  match FileTree.pathFault? path with
  | some fault => .error fault
  | none =>
    match stringPieces '/' path with
    | [] | [""] => .error .notFound
    | "" :: steps => system.root.follow [] steps
    | steps => system.home.follow system.around steps

/-- The content of the file at a path. -/
def read (system : FileSystem α) (path : String) : Except FileFault α :=
  match system.locate path with
  | .ok (.file content) => .ok content
  | .ok (.directory _) => .error .isDirectory
  | .error fault => .error fault

end FileSystem

end JsonTypes
