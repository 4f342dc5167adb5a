import LispScript.Arguments
import LispScript.Watcher

/-!
# The command

The command compiles one file to the standard output, all sources once, or all sources whenever
they change.
-/

namespace LispScript

/-- The name of the command. -/
def commandName : String := "unity-lisp"

/-- What is shown of arguments that are wrong. -/
def UsageError.report (e : UsageError) : String :=
  commandName ++ ": error: " ++ e.message

/-- The entries that are shown: all, or all but the least important. -/
def Log.shown (verbose : Bool) (entries : List Entry) : List Entry :=
  entries.filter fun e => verbose || e.level != .debug

/-- What a run of the command leaves behind. -/
structure Outcome where
  exit : Nat
  /-- What it prints. -/
  output : String
  /-- The time it waited for, wait by wait. -/
  waits : List Interval

/-- Why the command breaks off. -/
inductive CommandError
  | interval (e : IntervalError)
  | notText
deriving Repr, DecidableEq

/-- The error in words. -/
def CommandError.message : CommandError → String
  | .interval e => e.message
  | .notText => BatchError.notText.message

/-- Runs of the command on a workspace. -/
abbrev CommandM := ExceptT CommandError (StateM Workspace)

/-- Reports a path that cannot be worked on. -/
def refuse (message : String) : CommandM Outcome := do
  Workspace.note [⟨.error, message⟩]
  return { exit := 2, output := "", waits := [] }

/-- A new watcher for a run of the command. -/
def newWatcher (env : Environment) (root : Path) (interval : Option Interval)
    (outDir : Option String) : CommandM Watcher :=
  match Watcher.new env root interval [] outDir with
  | .ok w => return w
  | .error e => throw (.interval e)

/-- Prints the script of one file. -/
def printScript (limits : Limits) (content : Content) : CommandM Outcome := do
  let some source := content.source? | throw .notText
  let compiled ← Workspace.compile limits source
  return { exit := 0, output := compiled.text ++ "\n", waits := [] }

/-- Compiles all sources once. The run is a success if every script was written. -/
def compileOnce (limits : Limits) (env : Environment) (root : Path) (outDir : Option String) :
    CommandM Outcome := do
  let w ← newWatcher env root none outDir
  let requests := (w.scan (← get).tree).map fun (p, _) => Request.found p
  let written ← compileFiles (.of limits env outDir none) requests
  return { exit := if written.length = requests.length then 0 else 1, output := "", waits := [] }

/-- Compiles the sources that changed. -/
def handleChanges (limits : Limits) (env : Environment) (outDir : Option String)
    (changed : List Path) : StateM Workspace Unit := do
  let _ ← compileFiles (.of limits env outDir none) (changed.map .found)

/-- Compiles sources whenever they change, until it is interrupted. What happens to the files
during each wait is given. -/
def keepCompiling (limits : Limits) (env : Environment) (root : Path)
    (interval : Option Interval) (outDir : Option String) (waits : List (FileTree → FileTree)) :
    CommandM Outcome := do
  let w ← newWatcher env root interval outDir
  let _ ← w.run (handleChanges limits env outDir) waits
  return { exit := 0, output := "", waits := waits.map fun _ => w.interval }

/-- What the command does. -/
inductive Task
  /-- The path cannot be worked on. -/
  | refuse (message : String)
  | print (content : Content)
  | once
  | watch
deriving Repr, DecidableEq

/-- What the arguments ask for, given the files. -/
def Arguments.task (arguments : Arguments) (tree : FileTree) : Task :=
  let root := Path.ofString arguments.path
  if !tree.isEntry root then .refuse ("No such file or folder: " ++ root.text)
  else if arguments.stdout then
    match tree.content? root with
    | some content => .print content
    | none => .refuse "--stdout needs a single file"
  else if arguments.once then .once
  else .watch

/-- Runs the command. -/
def runCommand (limits : Limits) (env : Environment) (arguments : Arguments)
    (waits : List (FileTree → FileTree)) : CommandM Outcome := do
  let root := Path.ofString arguments.path
  match arguments.task (← get).tree with
  | .refuse message => refuse message
  | .print content => printScript limits content
  | .once => compileOnce limits env root arguments.outDir
  | .watch => keepCompiling limits env root arguments.interval arguments.outDir waits

end LispScript
