import DryMake.FileSystem

/-!
A tree of files and directories below the working directory, and how a path is walked in it. Every
segment of a path is taken in a directory, also the empty one after a trailing slash, so that
nothing is found beyond a file. Above the working directory, and at the root, there are directories
in which the tree knows no names.
-/

namespace DryMake

inductive FileTree.Entry where
  | directory
  | file (bytes : ByteArray)

/-- Entries by the names that lead to them from the working directory. -/
structure FileTree where
  entries : List (List String × FileTree.Entry)

namespace FileTree

def empty : FileTree where
  entries := []

def entry? (tree : FileTree) (names : List String) : Option Entry :=
  match names with
  | [] => some .directory
  | _ => tree.entries.lookup names

/-- The tree with a directory at the end of a list of names, unless something is there already. -/
def makeDirectory (tree : FileTree) (names : List String) : FileTree :=
  match tree.entry? names with
  | some _ => tree
  | none => { entries := tree.entries ++ [(names, .directory)] }

def insert (tree : FileTree) (path : Path) (entry : Entry) : FileTree :=
  let names := path.components.filter (· != ".")
  let parents := (List.range names.length).map fun count => names.take count
  let tree := parents.foldl makeDirectory tree
  { entries := (names, entry) :: tree.entries }

inductive Place where
  | within (names : List String)
  /-- In a directory that is not below the working directory. -/
  | outside
deriving DecidableEq, Repr

def advance (tree : FileTree) (place : Place) (segment : String) : Option Place :=
  match place with
  | .outside =>
      if segment = "" ∨ segment = "." ∨ segment = ".." then some .outside else none
  | .within names =>
      match tree.entry? names with
      | some .directory =>
          if segment = "" ∨ segment = "." then some place
          else if segment = ".." then
            if names = [] then some .outside else some (.within names.dropLast)
          else if (tree.entry? (names ++ [segment])).isSome then
            some (.within (names ++ [segment]))
          else none
      | _ => none

def walk (tree : FileTree) (path : Path) : Option Place :=
  if path.text = "" then none
  else
    path.segments.foldlM tree.advance (if path.isAbsolute then .outside else .within [])

def contents? (tree : FileTree) : Place → Option Contents
  | .outside => some .directory
  | .within names =>
      (tree.entry? names).map fun
        | .directory => .directory
        | .file bytes =>
            match String.fromUTF8? bytes with
            | some text => .text text
            | none => .binary

def files (tree : FileTree) : FileSystem :=
  .ofLookup fun path => (tree.walk path).bind tree.contents?

end FileTree

end DryMake
