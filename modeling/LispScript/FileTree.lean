import LispScript.Path
import LispScript.Table

/-!
# Files and folders

The files and folders that the program works on, each under the names that lead to it from the
root. A path is followed name by name: what is not the last name has to be a folder, and double
dots lead back to the folder above. There are no links, so each file and each folder has one place
only. Each file has a time of its last change; files that the program writes get times of their own,
later than all before.
-/

namespace LispScript

/-- What a file holds. -/
inductive Content
  | text (s : String)
  /-- Bytes that are not text in UTF-8. -/
  | bytes (data : List UInt8)
deriving Repr, DecidableEq

/-- The content that bytes are. -/
def Content.ofBytes (data : ByteArray) : Content :=
  match String.fromUTF8? data with
  | some s => .text s
  | none => .bytes data.toList

/-- The text of a file, if it is one. -/
def Content.text? : Content → Option String
  | .text s => some s
  | .bytes _ => none

/-- A file or a folder. Links are left out. -/
inductive Entry
  | folder
  /-- A file with the time of its last change in nanoseconds. -/
  | file (content : Content) (modified : Int)
deriving Repr, DecidableEq

/-- The names that lead to a file or folder from the root. -/
abbrev Place := List String

/-- Files and folders, and where the program works among them. -/
structure FileTree where
  entries : List (Place × Entry)
  /-- The working folder. -/
  here : Place
  /-- The time of the next change. -/
  clock : Int
deriving Repr, DecidableEq

/-- Why a step on a path fails. -/
inductive FileError.Cause
  | noEntry
  | notFolder
  | exists
  | isFolder
deriving Repr, DecidableEq

/-- A failed step on a path. -/
inductive FileError
  | onPath (cause : FileError.Cause) (path : Path)
  /-- No path holds a zero character. -/
  | zeroCharacter
deriving Repr, DecidableEq

/-- The error in words, with its number. -/
def FileError.message : FileError → String
  | .onPath cause path =>
    (match cause with
      | .noEntry => "[Errno 2] No such file or directory: "
      | .exists => "[Errno 17] File exists: "
      | .notFolder => "[Errno 20] Not a directory: "
      | .isFolder => "[Errno 21] Is a directory: ") ++ Text.quoted path.text
  | .zeroCharacter => "embedded null byte"

/-- Steps on files. A step that fails still leaves the files as far as it got. -/
abbrev FileM := ExceptT FileError (StateM FileTree)

namespace FileTree

/-- What stands at a place. The root is a folder. -/
def entry? (tree : FileTree) (place : Place) : Option Entry :=
  if place = [] then some .folder else tree.entries.lookup place

/-- Follows names from a place. The last name need not exist. -/
def follow (tree : FileTree) (place : Place) : List String → Except FileError.Cause Place
  | [] => .ok place
  | name :: names =>
    match tree.entry? place with
    | none => .error .noEntry
    | some (.file _ _) => .error .notFolder
    | some .folder => tree.follow (if name = ".." then place.dropLast else place ++ [name]) names

/-- The place that a path leads to. -/
def place (tree : FileTree) (p : Path) : Except FileError Place :=
  if p.names.any (·.toList.contains '\x00') then .error .zeroCharacter
  else
    let start := if p.root = .workingFolder then tree.here else []
    match tree.follow start p.names with
    | .ok place => .ok place
    | .error cause => .error (.onPath cause p)

/-- What a path leads to. -/
def find? (tree : FileTree) (p : Path) : Option Entry :=
  match tree.place p with
  | .ok place => tree.entry? place
  | .error _ => none

/-- Whether a path leads to a file or folder. -/
def isEntry (tree : FileTree) (p : Path) : Bool :=
  (tree.find? p).isSome

/-- Whether a path leads to a folder. -/
def isFolder (tree : FileTree) (p : Path) : Bool :=
  tree.find? p == some .folder

/-- The content of the file that a path leads to, if it leads to one. -/
def content? (tree : FileTree) (p : Path) : Option Content :=
  match tree.find? p with
  | some (.file content _) => some content
  | _ => none

/-- Puts an entry at a place. -/
def put (tree : FileTree) (place : Place) (entry : Entry) : FileTree :=
  { tree with entries := Table.assign place entry tree.entries }

/-- Takes away what stands at a place and below it. -/
def erase (tree : FileTree) (place : Place) : FileTree :=
  { tree with entries := tree.entries.filter fun (other, _) => !place.isPrefixOf other }

/-- Makes a folder. Only its last name may be missing, and it has to be. -/
def makeFolder (p : Path) : FileM Unit := do
  let tree ← get
  match tree.place p with
  | .error e => throw e
  | .ok place =>
    if (tree.entry? place).isSome then throw (.onPath .exists p)
    else set (tree.put place .folder)

/-- Makes a folder unless there is one. -/
def ensureFolder (p : Path) : FileM Unit := fun tree =>
  match makeFolder p tree with
  | (.error (.onPath .exists q), tree) =>
    if tree.isFolder p then (.ok (), tree) else (.error (.onPath .exists q), tree)
  | result => result

/-- Makes a folder and the folders that lead to it, as far as they are missing. The number is the
number of names that may be missing. -/
def ensureFolders (p : Path) : Nat → FileM Unit
  | 0 => ensureFolder p
  | missing + 1 => fun tree =>
    match ensureFolder p tree with
    | (.error (.onPath .noEntry q), tree) =>
      if p.parent = p then (.error (.onPath .noEntry q), tree)
      else (do ensureFolders p.parent missing; ensureFolder p : FileM Unit) tree
    | result => result

/-- Makes a folder and the folders that lead to it. -/
def makeFolders (p : Path) : FileM Unit :=
  ensureFolders p p.names.length

/-- Writes a file at a time. -/
def writeAt (p : Path) (content : Content) (modified : Int) : FileM Unit := do
  let tree ← get
  match tree.place p with
  | .error e => throw e
  | .ok place =>
    if tree.entry? place = some .folder then throw (.onPath .isFolder p)
    else set (tree.put place (.file content modified))

/-- Writes a text to a file, now. -/
def writeText (p : Path) (text : String) : FileM Unit := do
  writeAt p (.text text) (← get).clock
  modify fun tree => { tree with clock := tree.clock + 1 }

end FileTree

end LispScript
