import RegisterMachine.FileSystem
import RegisterMachine.Text

/-!
# File trees

File systems given by the directories and files that there are, below a working directory and from the
root of the system. A path is followed name by name: `.` stays, `..` goes up, and any other name must be
in the directory that was reached. A path that ends in a slash must lead to a directory.

A path begins at the working directory, or at the root of the system if it begins with a slash. Nothing is
known of the directories that `..` leads to from the working directory, so every name is missing there.
-/

namespace RegisterMachine

/-- Why a path could not be read. -/
inductive FileFault where
  /-- there is nothing of that name -/
  | notFound
  /-- the path goes on below a file -/
  | notADirectory
  /-- the path leads to a directory -/
  | isADirectory
  /-- the path or a name in it is too long -/
  | nameTooLong
  /-- there is a null character in the path -/
  | nullInName
deriving DecidableEq, Repr

/-- The text of a fault. -/
def FileFault.message : FileFault → String
  | notFound => "No such file or directory (os error 2)"
  | notADirectory => "Not a directory (os error 20)"
  | isADirectory => "Is a directory (os error 21)"
  | nameTooLong => "File name too long (os error 36)"
  | nullInName => "file name contained an unexpected NUL byte"

/-- A name in a directory. -/
abbrev FileName := List Char

/-- Files and directories below a common one, each with the names that lead to it. The directories on the
way to an entry need not be listed. -/
structure FileBranch where
  directories : List (List FileName) := []
  files : List (List FileName × List UInt8) := []
deriving DecidableEq, Repr

/-- The files and directories of a file system. -/
structure FileTree where
  /-- those below the working directory -/
  working : FileBranch := {}
  /-- those below the root of the system -/
  system : FileBranch := {}
deriving DecidableEq, Repr

/-- What a path leads to. -/
inductive FileNode where
  | file (content : List UInt8)
  | directory
deriving DecidableEq, Repr

/-- A directory that is reached on the way along a path. -/
inductive FilePlace where
  /-- the directory below the working directory that these names lead to -/
  | below (names : List FileName)
  /-- the directory of the system that these names lead to -/
  | system (names : List FileName)
  /-- a directory above the working directory -/
  | above
deriving DecidableEq, Repr

namespace FilePlace

/-- The directory that this one is in. -/
def parent : FilePlace → FilePlace
  | below [] => above
  | below names => below names.dropLast
  | system names => system names.dropLast
  | above => above

/-- The directory of a given name in this one. -/
def child (name : FileName) : FilePlace → FilePlace
  | below names => below (names ++ [name])
  | system names => system (names ++ [name])
  | above => above

end FilePlace

namespace FileBranch

/-- The names in a path, those of no length left out. -/
def names (path : List Char) : List FileName :=
  (Text.fields '/' path).filter (· ≠ [])

/-- The branch with the given directories and files. -/
def ofPaths (directories : List String) (files : List (String × List UInt8)) : FileBranch where
  directories := directories.map fun path => (names path.toList).filter (· ≠ ['.'])
  files := files.map fun (path, content) => ((names path.toList).filter (· ≠ ['.']), content)

/-- There is an entry further down. -/
def isOnTheWay (t : FileBranch) (names : List FileName) : Bool :=
  (t.directories ++ t.files.map Prod.fst).any fun names' => names.isPrefixOf names'

/-- What a list of names leads to, if there is such an entry. -/
def node? (t : FileBranch) (names : List FileName) : Option FileNode :=
  match t.files.find? (·.1 = names) with
  | some (_, content) => some (.file content)
  | none => if t.isOnTheWay names then some .directory else none

end FileBranch

namespace FileTree

/-- The greatest number of bytes in a name. -/
def maxNameBytes : Nat := 255

/-- The greatest number of bytes in a path. -/
def maxPathBytes : Nat := 4095

/-- The names to follow for a path; a slash at the end asks for the directory itself. -/
def route (path : List Char) : List FileName :=
  if path.getLast? = some '/' then FileBranch.names path ++ [['.']] else FileBranch.names path

/-- The entry of a name in a directory. -/
def entry (t : FileTree) (place : FilePlace) (name : FileName) : Except FileFault FileNode :=
  if maxNameBytes < (String.ofList name).utf8ByteSize then .error .nameTooLong
  else
    match place with
    | .above => .error .notFound
    | .below names => (t.working.node? (names ++ [name])).elim (.error .notFound) .ok
    | .system names => (t.system.node? (names ++ [name])).elim (.error .notFound) .ok

/-- Follows names from a directory on. -/
def follow (t : FileTree) (place : FilePlace) : List FileName → Except FileFault FileNode
  | [] => .ok .directory
  | name :: rest =>
    if name = ['.'] then t.follow place rest
    else if name = ['.', '.'] then t.follow place.parent rest
    else
      match t.entry place name with
      | .error fault => .error fault
      | .ok .directory => t.follow (place.child name) rest
      | .ok (.file content) => if rest = [] then .ok (.file content) else .error .notADirectory

/-- The content of the file that a path leads to. -/
def read (t : FileTree) (path : String) : Except FileFault (List UInt8) :=
  let cs := path.toList
  if '\x00' ∈ cs then .error .nullInName
  else if cs = [] then .error .notFound
  else if maxPathBytes < path.utf8ByteSize then .error .nameTooLong
  else
    match t.follow (if cs.head? = some '/' then .system [] else .below []) (route cs) with
    | .ok (.file content) => .ok content
    | .ok .directory => .error .isADirectory
    | .error fault => .error fault

end FileTree

namespace FileSystem

/-- The file system with the files and directories of a tree. -/
def ofTree (t : FileTree) : FileSystem where
  read path := (t.read path).mapError fun fault => { text := fault.message }

/-- The file system with the given directories and files below the working directory, and no others. -/
def ofPaths (directories : List String) (files : List (String × List UInt8)) : FileSystem :=
  ofTree { working := .ofPaths directories files }

end FileSystem

end RegisterMachine
