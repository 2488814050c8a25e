import MethodFlow.Project

/-!
Directories and the sources below them.
-/
namespace MethodFlow

inductive FileTree where
  | file (bytes : List UInt8)
  /-- A link to nothing: it is listed and cannot be read. -/
  | broken
  | folder (entries : List (String × FileTree))

namespace FileTree

def empty : FileTree :=
  .folder []

def insertEntry (name : String) (change : FileTree → FileTree) :
    List (String × FileTree) → List (String × FileTree)
  | [] => [(name, change empty)]
  | entry :: entries =>
    if entry.1 = name then (name, change entry.2) :: entries
    else entry :: insertEntry name change entries

def insert : (tree : FileTree) → (names : List String) → (added : FileTree) → FileTree
  | .folder entries, [], .folder [] => .folder entries
  | _, [], added => added
  | .folder entries, name :: names, added =>
    .folder (insertEntry name (fun tree => insert tree names added) entries)
  | tree, _ :: _, _ => tree

/-- Puts something at the place that names lead to from a folder, given by the names down to it, the
nearest first. Two dots lead back up, and the folder they stand behind is made all the same. -/
def insertFrom (tree : FileTree) : (here names : List String) → (added : FileTree) → FileTree
  | here, [], added => tree.insert here.reverse added
  | here, name :: names, added =>
    if name = ".." then insertFrom (tree.insert here.reverse empty) (here.drop 1) names added
    else insertFrom tree (name :: here) names added

def names (path : String) : List String :=
  ((Text.pieces (· == '/') path.toList).map String.ofList).filter fun name =>
    name != "" && name != "."

/-- Follows names down from a folder, where `above` are the folders around it, the nearest first.
Nothing is above the root: two dots stay there. -/
def descend? : (above : List FileTree) → FileTree → List String → Option FileTree
  | _, tree, [] => some tree
  | above, .folder entries, name :: names =>
    if name = ".." then
      match above with
      | outer :: above => descend? above outer names
      | [] => descend? [] (.folder entries) names
    else
      match entries.lookup name with
      | some tree => descend? (.folder entries :: above) tree names
      | none => none
  | _, _, _ :: _ => none

def entries? : FileTree → Option (List (String × FileTree))
  | .folder entries => some entries
  | _ => none

def join (path name : String) : String :=
  if path.toList.getLast? == some '/' then path ++ name else path ++ "/" ++ name

def sourceSuffixes : List String :=
  [".java", ".kt", ".kts"]

def isSourceName (name : String) : Bool :=
  sourceSuffixes.any fun suffix => suffix.toList.isSuffixOf name.toList

def normalizeLineEnds : List Char → List Char
  | [] => []
  | '\r' :: '\n' :: text => '\n' :: normalizeLineEnds text
  | '\r' :: text => '\n' :: normalizeLineEnds text
  | c :: text => c :: normalizeLineEnds text

def textOf (bytes : List UInt8) : String :=
  String.ofList (normalizeLineEnds (Text.Utf8.decode bytes))

inductive Visit where
  | source (source : Source)
  | unreadable (path : String)

structure EntryVisits where
  name : String
  isFolder : Bool
  visits : List Visit

/-- Files come before folders, and either in the order of their names. -/
def inOrder (entries : List EntryVisits) : List Visit :=
  let sorted := entries.mergeSort fun a b => decide (a.name ≤ b.name)
  (sorted.filter fun entry => !entry.isFolder).flatMap EntryVisits.visits ++
    (sorted.filter fun entry => entry.isFolder).flatMap EntryVisits.visits

mutual

def visitEntry (path name : String) : FileTree → EntryVisits
  | .file bytes =>
    ⟨name, false, if isSourceName name then [.source ⟨path, textOf bytes, none⟩] else []⟩
  | .broken => ⟨name, false, if isSourceName name then [.unreadable path] else []⟩
  | .folder entries => ⟨name, true, inOrder (visitEntries path entries)⟩

def visitEntries (path : String) : List (String × FileTree) → List EntryVisits
  | [] => []
  | (name, tree) :: entries => visitEntry (join path name) name tree :: visitEntries path entries

end

def walk (path : String) (entries : List (String × FileTree)) : List Visit :=
  inOrder (visitEntries path entries)

def Visit.readable? : Visit → Option Source
  | .source readable => some readable
  | .unreadable _ => none

def sources (visits : List Visit) : List Source :=
  visits.filterMap Visit.readable?

end FileTree

structure FileSystem where
  root : FileTree
  /-- The names that lead from the root to the working directory. -/
  workingDirectory : List String

namespace FileSystem

def origin (files : FileSystem) (path : String) : List String :=
  if path.toList.head? == some '/' then [] else files.workingDirectory

def add (files : FileSystem) (path : String) (added : FileTree) : FileSystem :=
  let here := (files.origin path).reverse
  { files with root := files.root.insertFrom here (FileTree.names path) added }

/-- The folder at a path. An empty path leads nowhere. -/
def folder? (files : FileSystem) (path : String) : Option (List (String × FileTree)) :=
  if path.isEmpty then none
  else (FileTree.descend? [] files.root (files.origin path ++ FileTree.names path)).bind
    FileTree.entries?

end FileSystem
end MethodFlow
