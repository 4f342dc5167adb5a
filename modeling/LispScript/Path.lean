import LispScript.Text.Lines
import LispScript.Text.Order
import LispScript.Text.Quoted

/-!
# Paths

A path names a file or folder by the names of the folders that lead to it, from the root or from
the working folder. Repeated slashes, single dots and a slash at the end say nothing and are
dropped; double dots stay, since what they lead to depends on the files.
-/

namespace LispScript

/-- Where a path starts. Exactly two slashes at the start are a root of their own. -/
inductive Path.Root
  | workingFolder
  | single
  | double
deriving Repr, DecidableEq

/-- A path: where it starts, and the names that lead on from there. -/
structure Path where
  root : Path.Root
  names : List String
deriving Repr, DecidableEq

/-- Why a path with another suffix cannot be made. -/
inductive Path.SuffixError
  | invalidSuffix (suffix : String)
  | emptyName (path : Path)
deriving Repr, DecidableEq

namespace Path

/-- The slashes that a root is written with. -/
def Root.text : Root → String
  | .workingFolder => ""
  | .single => "/"
  | .double => "//"

/-- The root that a text starts with. -/
def Root.ofChars (cs : List Char) : Root :=
  match (cs.takeWhile (· == '/')).length with
  | 0 => .workingFolder
  | 2 => .double
  | _ => .single

/-- The path that a text spells. -/
def ofString (s : String) : Path :=
  let pieces := (Text.cutAt '/' s.toList).map String.ofList
  { root := .ofChars s.toList, names := pieces.filter fun piece => piece ≠ "" ∧ piece ≠ "." }

/-- The root and the names with slashes between them. It is empty for the working folder. -/
def joined (p : Path) : String :=
  p.root.text ++ Text.joinWith "/" p.names

/-- The path as text. -/
def text (p : Path) : String :=
  if p.joined = "" then "." else p.joined

/-- The last name, which is empty where there is none. -/
def name (p : Path) : String :=
  p.names.getLast?.getD ""

/-- The path of the folder that holds the file or folder. A root is its own. -/
def parent (p : Path) : Path :=
  { p with names := p.names.dropLast }

/-- The path `q` seen from `p`. -/
def join (p q : Path) : Path :=
  match q.root with
  | .workingFolder => { p with names := p.names ++ q.names }
  | _ => q

/-- Splits a name before its last dot, unless that is its first or last character. -/
def splitSuffix (name : String) : String × String :=
  let cs := name.toList
  let tail := (cs.reverse.takeWhile (· != '.')).reverse
  let stem := (cs.reverse.dropWhile (· != '.')).reverse.dropLast
  if tail.length < cs.length ∧ stem ≠ [] ∧ tail ≠ [] then
    (String.ofList stem, String.ofList ('.' :: tail))
  else (name, "")

/-- The suffix of the last name, with its dot. -/
def suffix (p : Path) : String :=
  (splitSuffix p.name).2

/-- A suffix starts with a dot, has more than that, and no slash. The empty one is allowed. -/
def isSuffix (suffix : String) : Bool :=
  let cs := suffix.toList
  !cs.contains '/' && (cs.isEmpty || (cs.head? == some '.' && cs.length != 1))

/-- The last name with another suffix. -/
def nameWithSuffix (p : Path) (suffix : String) : Except SuffixError String :=
  if !isSuffix suffix then .error (.invalidSuffix suffix)
  else if p.name = "" then .error (.emptyName p)
  else .ok ((splitSuffix p.name).1 ++ suffix)

/-- The error in words. -/
def SuffixError.message : SuffixError → String
  | .invalidSuffix suffix => "Invalid suffix " ++ Text.quoted suffix
  | .emptyName path => "PosixPath(" ++ Text.quoted path.text ++ ") has an empty name"

/-- The root, where there is one, and the names. Paths are in the order of these lists. -/
def segments (p : Path) : List String :=
  match p.root with
  | .workingFolder => p.names
  | root => root.text :: p.names

/-- Whether `p` comes before `q` or is the same, by their segments from left to right. -/
def le (p q : Path) : Bool :=
  Text.listNotAfter p.segments q.segments

/-- The names that lead from `base` to `p`, if `p` lies below it. -/
def below? (p base : Path) : Option (List String) :=
  if p.root = base.root ∧ base.names.isPrefixOf p.names then some (p.names.drop base.names.length)
  else none

/-- The words for a path that does not lie below another. -/
def notBelowMessage (p base : Path) : String :=
  Text.quoted p.text ++ " is not in the subpath of " ++ Text.quoted base.joined ++
    " OR one path is relative and the other is absolute."

/-- A name that starts with a dot is hidden. The two names of folders made of dots are not. -/
def isHiddenName (name : String) : Bool :=
  name.toList.head? == some '.' && name != "." && name != ".."

/-- Whether any of the names is hidden. -/
def isHidden (names : List String) : Bool :=
  names.any isHiddenName

/-- Whether the suffix of a path is one of those given. -/
def hasExtension (p : Path) (extensions : List String) : Bool :=
  extensions.contains p.suffix

/-- The path of the script of a source: in a folder beside it, with the suffix of the script. -/
def output (p : Path) (outDir target : String) : Except SuffixError Path := do
  let name ← p.nameWithSuffix target
  return (p.parent.join (.ofString outDir)).join (.ofString name)

end Path

end LispScript
