import LispScript.FileTree
import LispScript.Settings
import LispScript.Compilation

/-!
# Compiling files

The script of a source file goes to a folder beside it. A text that is no program has a script too,
the comment that reports the failure, so the script always tells about the latest source. Files are
compiled one after the other in one session, and a file that cannot be compiled does not keep
the others from it.
-/

namespace LispScript

/-- Files, the session that compiles them, and what was logged so far. -/
structure Workspace where
  tree : FileTree
  macros : MacroTable
  log : List Log.Entry
deriving Repr, DecidableEq

/-- How sources are compiled: with which limits on nesting, where the scripts go and what stands
above them. -/
structure Target where
  limits : Limits
  /-- The folder beside a source. -/
  folder : String
  extension : String
  header : String
deriving Repr, DecidableEq

/-- A text that is given and not empty, or else the default. -/
def givenOr (given : Option String) (default : String) : String :=
  (given.filter (· ≠ "")).getD default

/-- The target by what is given and, where nothing is, by the environment. An empty header is
given; an empty folder is not. -/
def Target.of (limits : Limits) (env : Environment) (folder header : Option String) : Target :=
  { limits
    folder := givenOr folder env.outDir
    extension := env.targetExtension
    header := header.getD env.header }

/-- Code below a header, with an empty line between them. There is none below an empty header. -/
def withHeader (header code : String) : String :=
  if header = "" then code else header ++ "\n\n" ++ code

/-- A file that is to be compiled. -/
inductive Request
  | missing
  /-- A path as someone wrote it. -/
  | given (text : String)
  | found (path : Path)
deriving Repr, DecidableEq

/-- The path of a request. -/
def Request.path? : Request → Option Path
  | .missing => none
  | .given text => some (.ofString text)
  | .found path => some path

/-- A request in messages. -/
def Request.label : Request → String
  | .missing => "None"
  | .given text => text
  | .found path => path.text

/-- Why a file is not compiled. -/
inductive BatchError
  | missingPath
  | notFile (path : Path)
  | notText
  | badName (e : Path.SuffixError)
  | file (e : FileError)
deriving Repr, DecidableEq

/-- The error in words. -/
def BatchError.message : BatchError → String
  | .missingPath => "Path was None."
  | .notFile path => "Not a file: " ++ path.text
  | .notText => "not UTF-8 text"
  | .badName e => e.message
  | .file e => e.message

/-- Whether an error lies in the files rather than in what is made of them. -/
def BatchError.isFileFault : BatchError → Bool
  | .missingPath | .notFile _ | .file (.onPath _ _) => true
  | .notText | .badName _ | .file .zeroCharacter => false

/-- The log entry for a request that failed. -/
def BatchError.entry (e : BatchError) (request : Request) : Log.Entry :=
  if e.isFileFault then ⟨.error, "Failed to process " ++ request.label ++ ": " ++ e.message⟩
  else ⟨.error, "Failed to translate " ++ request.label⟩

/-- Adds entries to the log. -/
def Workspace.note (entries : List Log.Entry) : StateM Workspace Unit :=
  modify fun w => { w with log := w.log ++ entries }

/-- Compiles a source text in the session of a workspace. -/
def Workspace.compile (limits : Limits) (source : String) : StateM Workspace Compilation := do
  let w ← get
  let (compiled, macros) := LispScript.compile limits source w.macros
  set { w with macros }
  Workspace.note compiled.log
  return compiled

/-- The text of a file as a source, its line ends made uniform. -/
def Content.source? (content : Content) : Option String :=
  content.text?.map fun s => String.ofList (Text.unifyNewlines s.toList)

/-- Steps on a workspace that may fail. -/
abbrev BatchM := ExceptT BatchError (StateM Workspace)

/-- A step on the files of a workspace. -/
def onFiles {α : Type} (step : FileM α) : BatchM α := fun w =>
  let (result, tree) := step w.tree
  (result.mapError .file, { w with tree })

/-- Compiles one file and writes its script. -/
def compileFile (target : Target) (request : Request) : BatchM Path := do
  let some path := request.path? | throw .missingPath
  let some content := (← get).tree.content? path | throw (.notFile path)
  let some source := content.source? | throw .notText
  let out ← match path.output target.folder target.extension with
    | .ok out => pure out
    | .error e => throw (.badName e)
  onFiles (FileTree.makeFolders out.parent)
  let compiled ← Workspace.compile target.limits source
  onFiles (FileTree.writeText out (withHeader target.header compiled.text))
  Workspace.note [⟨.info, "Saved " ++ out.text⟩]
  return out

/-- Compiles files in order and gives the paths of the scripts that were written. -/
def compileFiles (target : Target) : List Request → StateM Workspace (List Path)
  | [] => return []
  | request :: requests => do
    match ← (compileFile target request).run with
    | .ok out =>
      let rest ← compileFiles target requests
      return out :: rest
    | .error e =>
      Workspace.note [e.entry request]
      compileFiles target requests

end LispScript
