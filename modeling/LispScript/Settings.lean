import LispScript.Interval
import LispScript.Text.Lines
import LispScript.Text.Quoted

/-!
# Settings

Environment variables change where the script goes, which files are sources and how often a folder
is looked at.
-/

namespace LispScript

/-- A value that is no number of seconds. -/
structure IntervalError where
  value : String
deriving Repr, DecidableEq

/-- The error in words. -/
def IntervalError.message (e : IntervalError) : String :=
  "UNITY_LISP_POLL_INTERVAL must be a number of seconds, got " ++ Text.quoted e.value

/-- Environment variables and their values. -/
abbrev Environment := List (String × String)

namespace Environment

/-- The value of a variable, unless it is missing or empty. -/
def nonempty? (env : Environment) (name : String) : Option String :=
  (env.lookup name).filter (· ≠ "")

/-- A suffix with its dot. -/
def dotted (suffix : String) : String :=
  if suffix.toList.head? = some '.' then suffix else "." ++ suffix

/-- The name of the folder that the script goes to, beside each source. -/
def outDir (env : Environment) : String :=
  (env.nonempty? "UNITY_LISP_OUT_DIR").getD "out"

/-- The suffixes of sources: the parts of a list with colons, each without blanks around it. -/
def extensions (env : Environment) : List String :=
  match env.nonempty? "UNITY_LISP_EXTENSIONS" with
  | none => [".clj", ".cljs"]
  | some list =>
    let parts := (Text.cutAt ':' list.toList).map Text.trim
    (parts.filter (· ≠ [])).map fun part => dotted (String.ofList part)

/-- The suffix of the script. -/
def targetExtension (env : Environment) : String :=
  dotted ((env.nonempty? "UNITY_LISP_TARGET_EXTENSION").getD ".js")

/-- The text above the script of each file. An empty one is left out. -/
def header (env : Environment) : String :=
  (env.lookup "UNITY_LISP_HEADER").getD "import core;"

/-- The seconds between two looks at a folder. -/
def pollInterval (env : Environment) : Except IntervalError Interval :=
  match env.nonempty? "UNITY_LISP_POLL_INTERVAL" with
  | none => .ok (.seconds 1)
  | some value =>
    match Seconds.parse? value with
    | some count => .ok (.seconds count)
    | none => .error ⟨value⟩

end Environment

end LispScript
