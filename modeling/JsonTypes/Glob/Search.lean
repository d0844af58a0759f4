/-
Patterns for paths, and the search for what they match.

* `Glob`, `Glob.ofText`: one pattern for each component of a path.
* `Glob.isPattern`: whether a text is taken as a pattern or as a path.
* `Glob.search`: the paths that a pattern matches in a file system, in name order.
  What lies in the directory where the search starts is found under its bare name.
-/
import JsonTypes.FileTree
import JsonTypes.Glob.Pattern

namespace JsonTypes

/-- A pattern for paths. -/
structure Glob where
  /-- Whether the paths start at the outermost directory. -/
  rooted : Bool
  components : List NamePattern
  /-- Whether a slash ends the pattern. -/
  directoriesOnly : Bool
deriving DecidableEq, Repr

namespace Glob

/-- Whether a text has one of the characters of patterns. A brace is one of them
although it stands for itself. -/
def isPattern (text : String) : Bool :=
  text.toList.any fun c => c == '*' || c == '?' || c == '[' || c == '\x7b'

/-- The texts of the components of a pattern. A slash in front belongs to none of
them, a slash at the end ends the last one. -/
def componentTexts (text : String) : List String :=
  let all := stringPieces '/' text
  let ended := if all.getLast? = some "" then all.dropLast else all
  if text.startsWith "/" then ended.drop 1 else ended

/-- The pattern of a text. The text is read as a whole before it is read by
components. -/
def ofText (text : String) : Except PatternError Glob := do
  let _ ← NamePattern.ofText text
  let components ← (componentTexts text).mapM NamePattern.ofText
  pure ⟨text.startsWith "/", components, text.endsWith "/"⟩

/-- The path of the directory where the search starts. -/
def start (glob : Glob) : String := if glob.rooted then "/" else "."

/-! ### Search -/

section Search

variable {α : Type} (system : FileSystem α)

/-- Whether something stands at a path. -/
def present (path : String) : Bool :=
  match system.locate path with
  | .ok _ => true
  | .error _ => false

/-- The entries of the directory at a path. -/
def entriesAt? (path : String) : Option (Table (FileTree α)) :=
  match system.locate path with
  | .ok (.directory entries) => some entries
  | _ => none

/-- Whether a path is a way to write the directory from which paths start. -/
def isHome (path : String) : Bool :=
  !path.startsWith "/" && (stringPieces '/' path).all fun step => step == "." || step == ""

/-- The path of an entry of the directory at a path. -/
def entryPath (path name : String) : String :=
  if isHome path then name else FileTree.inside path name

/-- Everything below the directory at a path. -/
def descendantsAt (path : String) : List FileTree.Descendant :=
  match system.locate path with
  | .ok tree => tree.descendants (entryPath path)
  | .error _ => []

/-- The two entries that lead to a directory itself and to the one around it. -/
def dotEntries : List String := ["..", "."]

/-- Where the components after the first one are looked for: at a name that
stands for itself, or at all entries with a name that matches. A pattern that
starts with a dot matches the two dot entries as well. -/
def oneStep (pattern : NamePattern) (path : String) : List String :=
  match pattern.literal? with
  | some name =>
    let next := entryPath path name
    if dotEntries.contains name then if (entriesAt? system path).isSome then [next] else []
    else if present system next then [next] else []
  | none =>
    match entriesAt? system path with
    | none => []
    | some entries =>
      let dots := if pattern.startsWithDot then dotEntries.filter pattern.accepts else []
      let names := (FileTree.sortedNames entries).filter pattern.accepts
      dots.map (FileTree.inside path) ++ names.map (entryPath path)

/-- The paths that some components match, starting at a path. -/
def searchFrom : List NamePattern → String → List String
  | [], path => [path]
  | [pattern], path =>
    if pattern.isRecursive then
      ((descendantsAt system path).filter (·.isDirectory)).map (·.path)
    else oneStep system pattern path
  | pattern :: next :: rest, path =>
    if pattern.isRecursive then
      if next.isRecursive then searchFrom (next :: rest) path
      else
        ((descendantsAt system path).filter fun d => next.accepts d.name).flatMap fun d =>
          searchFrom rest d.path
    else (oneStep system pattern path).flatMap (searchFrom (next :: rest))

/-- The paths that a pattern matches. -/
def search (glob : Glob) : List String :=
  (searchFrom system glob.components glob.start).filter fun path =>
    !glob.directoriesOnly || (entriesAt? system path).isSome

end Search

end Glob

end JsonTypes
