import LispScript.Command

/-!
# The program

The outer layer of the command: it takes a picture of the real files, lets the command work on it,
and carries out the changes.
-/

namespace LispScript.Main

/-- The variables that the settings depend on. -/
def variableNames : List String :=
  ["UNITY_LISP_OUT_DIR", "UNITY_LISP_EXTENSIONS", "UNITY_LISP_TARGET_EXTENSION",
    "UNITY_LISP_HEADER", "UNITY_LISP_POLL_INTERVAL"]

/-- The values of the variables that are set. -/
def readEnvironment : IO Environment := do
  let values ← variableNames.mapM fun name => do
    return (← IO.getEnv name).map fun value => (name, value)
  return values.filterMap id

/-- A place as the real files know it. -/
def realName (place : Place) : String :=
  "/" ++ Text.joinWith "/" place

/-- What stands at a place and, down to a number of levels, below it. The content of a file is
read only if its path is accepted. -/
def picture (accepted : Path → Bool) : Nat → Place → IO (List (Place × Entry))
  | 0, _ => return []
  | levels + 1, place => do
    try
      let real ← IO.FS.realPath (realName place)
      let info ← real.metadata
      match info.type with
      | .dir =>
        let names := (← real.readDir).toList.map (·.fileName)
        let below ← names.mapM fun name => picture accepted levels (place ++ [name])
        return (place, .folder) :: below.flatten
      | .file =>
        let path : Path := { root := .single, names := place }
        let content ← if accepted path then Content.ofBytes <$> IO.FS.readBinFile real
          else pure (.bytes [])
        let time := info.modified.sec * 1000000000 + info.modified.nsec.toNat
        return [(place, .file content time)]
      | _ => return []
    catch _ => return []

/-- The folders that lead to a place. -/
def foldersTo (place : Place) : List (Place × Entry) :=
  (List.range place.length).map fun i => (place.take (i + 1), .folder)

/-- The levels of folders that are looked at. -/
def allLevels : Nat := 1000

/-- The place of a file or folder that the real files know by a name. -/
def placeOf (name : String) : IO (Option Place) := do
  try
    let real ← IO.FS.realPath name
    if ← real.pathExists then return some (Path.ofString real.toString).names else return none
  catch _ => return none

/-- A picture of the files that the command works on. -/
def takePicture (env : Environment) (root : Path) : IO FileTree := do
  let here := (← placeOf ".").getD []
  let target := (← placeOf root.text).getD here
  let accepted (p : Path) : Bool := p.hasExtension env.extensions || p.names == target
  let below ← picture accepted allLevels target
  let around ← picture accepted 3 target.dropLast
  let near ← picture (fun _ => false) 2 here
  let found := below ++ around ++ near ++ foldersTo here ++ foldersTo target.dropLast
  let entries := found.foldl (fun entries (place, entry) =>
    if (entries.lookup place).isSome then entries else (place, entry) :: entries) []
  return { entries, here, clock := 0 }

/-- Carries out the changes from one picture to the next. -/
def carryOut (before after : FileTree) : IO Unit := do
  for (place, entry) in after.entries do
    if before.entries.lookup place != some entry then
      match entry with
      | .folder => IO.FS.createDirAll (realName place)
      | .file (.text s) _ => IO.FS.writeFile (realName place) s
      | .file (.bytes _) _ => pure ()

/-- Shows log entries. -/
def showLog (verbose : Bool) (entries : List Log.Entry) : IO Unit :=
  (Log.shown verbose entries).forM fun e => IO.eprintln e.message

/-- Runs a step on the real files. -/
def onRealFiles {α : Type} (env : Environment) (arguments : Arguments) (macros : MacroTable)
    (step : StateM Workspace α) : IO (α × MacroTable) := do
  let before ← takePicture env (.ofString arguments.path)
  let (result, after) := step { tree := before, macros, log := [] }
  carryOut before after.tree
  showLog arguments.verbose after.log
  return (result, after.macros)

/-- Waits for a number of seconds. -/
def pause (count : Float) : IO Unit :=
  if 0 < count then IO.sleep (count * 1000).toUInt32 else pure ()

/-- Shows why nothing more can be done. -/
def giveUp (message : String) : IO UInt32 := do
  IO.eprintln message
  return 1

/-- Looks and waits in turn for ever, unless there is no telling how long to wait. -/
partial def watch (env : Environment) (arguments : Arguments) (w : Watcher)
    (macros : MacroTable) : IO UInt32 := do
  let ((_, w), macros) ← onRealFiles env arguments macros
    (w.poll (handleChanges .usual env arguments.outDir))
  match w.interval with
  | .blank => giveUp "The interval is not a number of seconds"
  | .whole count =>
    pause (Float.ofInt count)
    watch env arguments w macros
  | .seconds count =>
    pause count
    watch env arguments w macros

/-- Runs the command on the real files. -/
def run (env : Environment) (arguments : Arguments) : IO UInt32 := do
  let root := Path.ofString arguments.path
  let macros := MacroTable.start true
  match arguments.task (← takePicture env root) with
  | .watch =>
    match Watcher.new env root arguments.interval [] arguments.outDir with
    | .error e => giveUp e.message
    | .ok w =>
      showLog arguments.verbose [w.startEntry]
      watch env arguments w macros
  | _ =>
    let (result, _) ← onRealFiles env arguments macros (runCommand .usual env arguments []).run
    match result with
    | .error e => giveUp e.message
    | .ok outcome =>
      IO.print outcome.output
      return outcome.exit.toUInt32

/-- How the command is called. -/
def usage : String :=
  "usage: " ++ commandName ++
    " [-h] [--once] [--stdout] [--interval INTERVAL] [--out-dir OUT_DIR] [-v] [path]"

end LispScript.Main

open LispScript in
/-- The command line. -/
def main (args : List String) : IO UInt32 := do
  match Arguments.parse args with
  | .error .help =>
    IO.println Main.usage
    return 0
  | .error (.usage e) =>
    IO.eprintln Main.usage
    IO.eprintln e.report
    return 2
  | .ok arguments => Main.run (← Main.readEnvironment) arguments
