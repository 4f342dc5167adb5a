import LispScript.Form
import LispScript.Table

/-!
# Macros

A macro is a name for a form. A call of it is replaced by that form; the parameters are recorded
and the arguments of the call are ignored. The table also holds the names that are being expanded,
so that a macro whose form leads back to itself can be noticed.
-/

namespace LispScript

/-- What a macro stands for. -/
structure Macro where
  /-- The source texts of the parameters. -/
  params : List String
  body : Form
deriving Repr, DecidableEq

/-- The macros of a session, each name once. -/
structure MacroTable where
  entries : List (String × Macro)
  /-- The names being expanded, the innermost first. -/
  active : List String
deriving Repr, DecidableEq

namespace MacroTable

/-- The table without macros. -/
def empty : MacroTable :=
  { entries := [], active := [] }

/-- The macro of a name. -/
def lookup? (table : MacroTable) (name : String) : Option Macro :=
  table.entries.lookup name

/-- Whether a name has a macro. -/
def isDefined (table : MacroTable) (name : String) : Bool :=
  (table.lookup? name).isSome

/-- The number of macros. -/
def size (table : MacroTable) : Nat :=
  table.entries.length

/-- Defines a macro, or defines it anew. -/
def define (table : MacroTable) (name : String) (m : Macro) : MacroTable :=
  { table with entries := Table.assign name m table.entries }

/-- Forgets all macros. -/
def clear (table : MacroTable) : MacroTable :=
  { table with entries := [] }

/-- The macros that every session starts with, unless it asks for none. -/
def builtin : List (String × Macro) :=
  [("PI", { params := [], body := .number "42" })]

/-- Defines the built-in macros. -/
def withBuiltin (table : MacroTable) : MacroTable :=
  builtin.foldl (fun table (name, m) => table.define name m) table

/-- Notes that a name is being expanded. -/
def activate (table : MacroTable) (name : String) : MacroTable :=
  { table with active := name :: table.active }

/-- Notes that a name is no longer being expanded. -/
def deactivate (table : MacroTable) (name : String) : MacroTable :=
  { table with active := table.active.erase name }

end MacroTable

/-- What stands in the script where a macro is defined. -/
def definedRemark (name : String) : String :=
  "/* Defined macro " ++ name ++ " */ "

end LispScript
