import Midl.Source

/-!
# Files and directories

A `FileTree` is a system of files with a working directory. Paths and names are bytes, which need
not be a text. A path is followed name by name, from the root if it begins with a slash and else
from the working directory: an empty name and a single dot stay where they are, two dots go up, and
every name but the last has to lead to a directory. Above the root is the root again.
-/

namespace Midl

/-- A path, as the system has it. -/
abbrev Path := List UInt8

/-- A name on a path. -/
abbrev Name := List UInt8

/-- Reasons why a file cannot be read or written. -/
inductive FileError where
  | notFound
  | notDirectory
  | isDirectory
  | nameTooLong
  /-- Any other reason, in the words of the system. -/
  | other (message : String)
deriving DecidableEq

/-- The wording of a reason. -/
def FileError.message : FileError → String
  | notFound => "No such file or directory (os error 2)"
  | notDirectory => "Not a directory (os error 20)"
  | isDirectory => "Is a directory (os error 21)"
  | nameTooLong => "File name too long (os error 36)"
  | other message => message

/-- Files, directories and the directory one works in. A place is given by the names that lead there
from the root. -/
structure FileTree where
  /-- The files with their contents. -/
  files : List (List Name × List UInt8) := []
  /-- The directories that are there even if nothing is in them. -/
  directories : List (List Name) := []
  /-- The working directory, which is there as well. -/
  home : List Name := []

namespace FileTree

/-! ## Places -/

/-- The content of the file at a place. -/
def content? (tree : FileTree) (place : List Name) : Option (List UInt8) :=
  (tree.files.find? fun file => file.1 = place).map Prod.snd

/-- Whether there is a directory at a place: one that is listed, or that something lies in. -/
def isDirectory (tree : FileTree) (place : List Name) : Bool :=
  (tree.home :: tree.directories).any place.isPrefixOf
    || tree.files.any fun file => place.isPrefixOf file.1 && place ≠ file.1

/-- The names that lead to a place from the working directory, if it is below that. -/
def below? (tree : FileTree) (place : List Name) : Option (List Name) :=
  if tree.home.isPrefixOf place then some (place.drop tree.home.length) else none

/-! ## Paths -/

/-- The number of bytes that a name can have. -/
def longestName : Nat := 255

/-- The number of bytes that a path can have. -/
def longestPath : Nat := 4095

/-- The names on a path. -/
def names (path : Path) : List Name := path.splitOn '/'.toUInt8

/-- The name that stays where it is. -/
def here : Name := ['.'.toUInt8]

/-- The name that goes up. -/
def up : Name := ['.'.toUInt8, '.'.toUInt8]

/-- The directory that a path starts from. -/
def start (tree : FileTree) (path : Path) : List Name :=
  if (names path).head? = some [] then [] else tree.home

/-- Refuses a name that no file can have. -/
def checkName (name : Name) : Except FileError Unit :=
  if longestName < name.length then .error .nameTooLong else .ok ()

/-- Refuses a path that cannot be followed, whatever files there are. -/
def checkPath (path : Path) : Except FileError Unit :=
  if path = [] then .error .notFound
  else if longestPath < path.length then .error .nameTooLong
  else .ok ()

/-- Whether a name can only lead to a directory. -/
def isStep (name : Name) : Bool := name = [] || name = here || name = up

/-- The directory that a name leads to. -/
def enter (tree : FileTree) (place : List Name) (name : Name) :
    Except FileError (List Name) :=
  if name = up then .ok place.dropLast
  else if isStep name then .ok place
  else do
    checkName name
    let next := place ++ [name]
    if tree.isDirectory next then .ok next
    else if (tree.content? next).isSome then .error .notDirectory
    else .error .notFound

/-- The directory that names lead to from a place. -/
def walk (tree : FileTree) (place : List Name) (names : List Name) :
    Except FileError (List Name) :=
  names.foldlM tree.enter place

/-! ## Reading and writing -/

/-- What is read from a directory: it can be opened, and fails when it is read. -/
def unreadable : Source := ⟨[], .failure FileError.isDirectory.message⟩

/-- Opens the file that a path leads to. -/
def read (tree : FileTree) (path : Path) : Except FileError Source := do
  checkPath path
  let names := names path
  let last := names.getLastD []
  if isStep last then
    let _ ← tree.walk (tree.start path) names
    return unreadable
  else
    let parent ← tree.walk (tree.start path) names.dropLast
    checkName last
    let place := parent ++ [last]
    match tree.content? place with
    | some bytes => return .ofBytes bytes
    | none => if tree.isDirectory place then return unreadable else .error .notFound

/-- Gives a file at a place a content, whether it was there before or not. -/
def put (tree : FileTree) (place : List Name) (bytes : List UInt8) : FileTree :=
  { tree with files := (place, bytes) :: tree.files.filter fun file => file.1 ≠ place }

/-- Writes the file that a path leads to. The directory it is in has to be there. A path that ends
in a slash cannot be that of a file. -/
def write (tree : FileTree) (path : Path) (bytes : List UInt8) : Except FileError FileTree := do
  checkPath path
  let names := names path
  let named := (names.reverse.dropWhile (· = [])).reverse
  let last := named.getLastD []
  let parent ← tree.walk (tree.start path) named.dropLast
  if isStep last || named.length < names.length then .error .isDirectory
  else
    checkName last
    let place := parent ++ [last]
    if tree.isDirectory place then .error .isDirectory else return tree.put place bytes

/-- The files of a tree whose content is not what it was in an earlier tree. -/
def changedSince (earlier tree : FileTree) : List (List Name × List UInt8) :=
  tree.files.filter fun (place, bytes) => earlier.content? place ≠ some bytes

/-- What was put at a place is there. -/
theorem content?_put_self (tree : FileTree) (place : List Name) (bytes : List UInt8) :
    (tree.put place bytes).content? place = some bytes := by
  simp [content?, put]

/-- At other places nothing changes. -/
theorem content?_put_of_ne (tree : FileTree) {place other : List Name} (bytes : List UInt8)
    (h : other ≠ place) : (tree.put place bytes).content? other = tree.content? other := by
  rw [content?, put, List.find?_cons_of_neg (by simpa using Ne.symm h), List.find?_filter, content?]
  congr 2
  funext file
  by_cases hf : file.1 = other <;> simp [hf, h]

end FileTree

end Midl
