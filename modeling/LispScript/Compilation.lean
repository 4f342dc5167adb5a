import LispScript.Form.Reader
import LispScript.Log
import LispScript.Rendering

/-!
# Compiling programs

A program of a small Lisp is compiled to UnityScript, form by form, in a session whose macro table
it shares with the programs before and after it. A text that is no program becomes one comment that
reports the failure.
-/

namespace LispScript

/-- What a top-level form came out as. -/
inductive Piece
  | code (text : String)
  /-- The form was nested too deeply to be written. -/
  | tooDeep (form : Form)
deriving Repr, DecidableEq

/-- The script text of a piece. -/
def Piece.text : Piece → String
  | .code text => text
  | .tooDeep _ => Script.remark "Form nested too deeply to render"

/-- What a source text came out as. -/
inductive Compilation
  /-- The text is no program. -/
  | rejected (failure : Failure)
  /-- The pieces of the program, form by form. -/
  | program (pieces : List Piece)
deriving Repr, DecidableEq

/-- The comment that stands for a text that is no program. -/
def Failure.comment (f : Failure) : String :=
  "/*\n" ++ Text.commentSafe f.text ++ "\n*/"

/-- The script text of a source: each piece as a statement, with an empty line between
neighbours. -/
def Compilation.text : Compilation → String
  | .rejected failure => failure.comment
  | .program pieces => Text.joinWith "\n\n" (pieces.map fun p => p.text ++ ";")

/-- The name of a kind of forms in the log. -/
def Form.Kind.label : Form.Kind → String
  | .word => "Word"
  | .number => "Number"
  | .string => "String"
  | .keyword => "Keyword"
  | .operator => "InfixOperator"
  | .accessor => "Accessor"
  | .method => "Method"
  | .hint => "Hint"
  | .yield => "Yield"
  | .placeholder => "PercentArg"
  | .shortLambda => "SugarLambda"
  | .getter => "KeywordFn"
  | .list => "ListForm"
  | .vector => "VectorForm"
  | .map => "MapForm"

/-- The log entries of a piece. -/
def Piece.log : Piece → List Log.Entry
  | .code _ => []
  | .tooDeep form =>
    let label := (form.kind?.map Form.Kind.label).getD "NoneType"
    [⟨.debug, "render of a " ++ label ++ " exceeded the recursion limit"⟩]

/-- The log entries about a source. -/
def Compilation.log : Compilation → List Log.Entry
  | .rejected failure =>
    [⟨.debug, "parse failed at " ++ toString failure.location.line ++ ":" ++
      toString failure.location.column ++ ": " ++ failure.message⟩]
  | .program pieces => pieces.flatMap Piece.log

/-- The program of a source text, or the failure to report. -/
def parse (limits : Limits) (source : String) : Except Failure (List Form) :=
  match readProgram limits source with
  | .ok forms => .ok forms
  | .error e => .error (e.failure source.toList)

/-! ## Sessions -/

namespace MacroTable

/-- The table of a new session. -/
def start (builtin : Bool) : MacroTable :=
  if builtin then MacroTable.empty.withBuiltin else .empty

/-- Forgets all macros but the built-in ones, and these too if they are not wanted. -/
def reset (table : MacroTable) (builtin : Bool) : MacroTable :=
  if builtin then table.clear.withBuiltin else table.clear

/-- Defines a macro and gives the remark for the place of its definition. -/
def register (name : String) (params : List String) (body : Form) : StateM MacroTable String := do
  modify fun table => table.define name { params, body }
  return definedRemark name

end MacroTable

/-- Compiles one form. -/
def compileForm (limits : Limits) (form : Form) : StateM MacroTable Piece := do
  match ← (limits.render form).run with
  | .ok text => return .code text
  | .error _ => return .tooDeep form

/-- Compiles forms in order. -/
def compileForms (limits : Limits) : List Form → StateM MacroTable (List Piece)
  | [] => return []
  | f :: fs => do
    let piece ← compileForm limits f
    let pieces ← compileForms limits fs
    return piece :: pieces

/-- Compiles a source text. One that is no program leaves the session as it was. -/
def compile (limits : Limits) (source : String) : StateM MacroTable Compilation :=
  match parse limits source with
  | .error failure => return .rejected failure
  | .ok forms => do return .program (← compileForms limits forms)

end LispScript
