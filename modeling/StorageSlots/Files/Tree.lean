import StorageSlots.Files.System

/-!
Trees of files, and the file system that a tree makes up.

Paths are taken relative to the root of the tree. A part of a path that is empty or a single dot
stays where it is and two dots go up, both of them from a directory only. What lies outside the tree
is empty.
-/

namespace StorageSlots

inductive FileTree where
  | file (content : ByteArray)
  | directory (entries : List (String × FileTree))

namespace FileTree

def empty : FileTree :=
  directory []

def kind : FileTree → FileKind
  | file _ => .file
  | directory _ => .directory

/-- Replaces what stands under a name, or adds it at the end. -/
def update (name : String) (change : FileTree → FileTree) :
    List (String × FileTree) → List (String × FileTree)
  | [] => [(name, change empty)]
  | (other, tree) :: entries =>
    if other = name then (other, change tree) :: entries
    else (other, tree) :: update name change entries

/-- Puts a tree at a path given by its names, along with the directories that lead there. A
directory that is there already keeps its entries. -/
def put (tree : FileTree) : List String → FileTree → FileTree
  | [], old =>
    match tree, old with
    | directory [], directory entries => directory entries
    | _, _ => tree
  | name :: names, directory entries => directory (update name (put tree names) entries)
  | name :: names, file _ => directory (update name (put tree names) [])

/-- Goes down a path, given by its parts, from a tree with the directories above it. -/
def walk (above : List FileTree) : FileTree → List String → Except ReadFault FileTree
  | tree, [] => .ok tree
  | file _, _ :: _ => .error .notDirectory
  | directory entries, part :: parts =>
    if part = "" ∨ part = "." then walk above (directory entries) parts
    else if part = ".." then
      match above with
      | [] => walk [] empty parts
      | tree :: above => walk above tree parts
    else if nameLimit < part.utf8ByteSize then .error .nameTooLong
    else
      match entries.lookup part with
      | some tree => walk (directory entries :: above) tree parts
      | none => .error .notFound

/-- What stands at a path. An absolute path leads out of the tree. -/
def find (root : FileTree) (path : String) : Except ReadFault FileTree :=
  if path.toList.contains '\x00' then .error .nulByte
  else if path = "" then .error .notFound
  else if pathLimit ≤ path.utf8ByteSize then .error .nameTooLong
  else if path.startsWith "/" then walk [] empty (path.splitOn "/")
  else walk [] root (path.splitOn "/")

def read (root : FileTree) (path : String) : Except ReadFault String :=
  match root.find path with
  | .error fault => .error fault
  | .ok (directory _) => .error .isDirectory
  | .ok (file content) =>
    match String.fromUTF8? content with
    | some text => .ok text
    | none => .error .notText

def kind? (root : FileTree) (path : String) : Option FileKind :=
  (root.find path).toOption.map kind

def entryNames (root : FileTree) (path : String) : List String :=
  match root.find path with
  | .ok (directory entries) => entries.map Prod.fst
  | _ => []

def fileSystem (root : FileTree) : FileSystem Id where
  kind? := root.kind?
  entries := root.entryNames
  read := root.read

end FileTree

end StorageSlots
