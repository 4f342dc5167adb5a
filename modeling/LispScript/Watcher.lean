import LispScript.Batch

/-!
# Watching files

A watcher looks at a file or folder again and again. Each look finds the sources and the times of
their last changes, and reports those that were not there or had another time at the look before.
Scripts are not sources: what lies in a folder for them is left out, as is everything hidden.
-/

namespace LispScript

/-- Someone who looks at a file or folder again and again. -/
structure Watcher where
  root : Path
  /-- The time between two looks. -/
  interval : Interval
  extensions : List String
  outDir : String
  /-- What the last look found. -/
  seen : List (Path × Int)
  stopped : Bool

namespace Watcher

/-- A new watcher, by what is given and, where nothing is, by the environment. -/
def new (env : Environment) (root : Path) (interval : Option Interval) (extensions : List String)
    (outDir : Option String) : Except IntervalError Watcher := do
  let interval ← match interval with
    | some interval => pure interval
    | none => env.pollInterval
  return {
    root, interval
    extensions := if extensions.isEmpty then env.extensions else extensions
    outDir := givenOr outDir env.outDir
    seen := []
    stopped := false }

/-- Whether what lies at `names` below the root can be a source. -/
def admits (w : Watcher) (names : List String) : Bool :=
  !names.dropLast.contains w.outDir && !Path.isHidden names

/-- The files below a folder: the names that lead to each, and the time of its last change. -/
def filesBelow (tree : FileTree) (folder : Place) : List (List String × Int) :=
  tree.entries.filterMap fun (place, entry) =>
    match entry with
    | .file _ modified =>
      if folder.isPrefixOf place then some (place.drop folder.length, modified) else none
    | .folder => none

/-- The files that the watcher looks at, in no order. -/
def candidates (w : Watcher) (tree : FileTree) : List (Path × Int) :=
  match tree.place w.root with
  | .error _ => []
  | .ok place =>
    match tree.entry? place with
    | none => []
    | some (.file _ modified) => [(w.root, modified)]
    | some .folder =>
      ((filesBelow tree place).filter fun (names, _) => w.admits names).map
        fun (names, modified) => ({ w.root with names := w.root.names ++ names }, modified)

/-- The sources and the times of their last changes, in the order of their paths. -/
def scan (w : Watcher) (tree : FileTree) : List (Path × Int) :=
  ((w.candidates tree).filter fun (p, _) => p.hasExtension w.extensions).mergeSort
    fun (p, _) (q, _) => p.le q

/-- The sources that are new or changed since the last look. -/
def changed (w : Watcher) (found : List (Path × Int)) : List Path :=
  (found.filter fun (p, modified) => w.seen.lookup p != some modified).map (·.1)

/-- Looks once. If anything changed, `handle` is told. -/
def poll (handle : List Path → StateM Workspace Unit) (w : Watcher) :
    StateM Workspace (List Path × Watcher) := do
  let found := w.scan (← get).tree
  let changed := w.changed found
  if !changed.isEmpty then
    Workspace.note [⟨.debug, toString changed.length ++ " changed file(s)"⟩]
    handle changed
  return (changed, { w with seen := found })

/-- Looks and waits in turn. What happens to the files during each wait is given, and the watcher
is stopped during the last one. The result lists what was reported. -/
def loop (handle : List Path → StateM Workspace Unit) (w : Watcher) :
    List (FileTree → FileTree) → StateM Workspace (List (List Path) × Watcher)
  | [] => return ([], { w with stopped := true })
  | wait :: waits => do
    let (changed, w) ← poll handle w
    modify fun workspace => { workspace with tree := wait workspace.tree }
    let (reports, w) ← loop handle w waits
    return (if changed.isEmpty then reports else changed :: reports, w)

/-- The log entry for the start of a watcher. -/
def startEntry (w : Watcher) : Log.Entry :=
  ⟨.info, "Started watching " ++ w.root.text⟩

/-- Runs a watcher. One that was stopped looks no more. -/
def run (handle : List Path → StateM Workspace Unit) (waits : List (FileTree → FileTree))
    (w : Watcher) : StateM Workspace (List (List Path) × Watcher) := do
  Workspace.note [w.startEntry]
  if w.stopped then return ([], w) else loop handle w waits

end Watcher

end LispScript
