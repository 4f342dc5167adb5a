import LispScript.Location
import LispScript.Text.Quoted
import LispScript.Token

/-!
# Syntax errors

A text that is not a program is rejected as a whole, for one cause at one offset.
-/

namespace LispScript

/-- Why a text is not a program. -/
inductive SyntaxError.Cause
  /-- A double quote that does not start a string. -/
  | malformedString
  /-- A character that starts no token. -/
  | unexpectedChar (c : Char)
  /-- The text ends where a form should start. -/
  | unexpectedEnd
  /-- Nothing that a lambda sign applies to follows it directly. -/
  | missingTarget
  /-- The text ends inside a bracketed form. -/
  | unclosed (bracket : Bracket)
  /-- A bracketed form ends with the wrong closer. -/
  | mismatched (expected found : Bracket)
  /-- Two items of a vector or map touch. -/
  | unspacedItem
  /-- A closer where a form should start. -/
  | strayCloser (bracket : Bracket)
  /-- Forms are nested beyond the limit of the reader. -/
  | tooDeep
deriving Repr, DecidableEq

/-- A cause and the offset at which it was found. -/
structure SyntaxError where
  cause : SyntaxError.Cause
  offset : Nat
deriving Repr, DecidableEq

/-- The cause in words. -/
def SyntaxError.Cause.message : SyntaxError.Cause → String
  | .malformedString => "Malformed string literal"
  | .unexpectedChar c => "Unexpected character " ++ Text.quoted c.toString
  | .unexpectedEnd => "Unexpected end of input"
  | .missingTarget => "Expected a token after 'λ'"
  | .unclosed b => "Expected '" ++ b.closing.toString ++ "' to close '" ++ b.opening.toString ++ "'"
  | .mismatched expected found =>
    "Expected '" ++ expected.closing.toString ++ "' but found '" ++ found.closing.toString ++ "'"
  | .unspacedItem => "Expected whitespace between items"
  | .strayCloser b => "Unexpected '" ++ b.closing.toString ++ "'"
  | .tooDeep => "Forms nested too deeply"

/-- A syntax error as it is reported for the text it was found in. -/
structure Failure where
  cause : SyntaxError.Cause
  location : Location
deriving Repr, DecidableEq

/-- Locates an error in its source text. -/
def SyntaxError.failure (source : List Char) (e : SyntaxError) : Failure :=
  { cause := e.cause, location := .ofOffset source e.offset }

/-- The cause in words. -/
def Failure.message (f : Failure) : String :=
  f.cause.message

/-- The report of a failure: where it is, the line with a mark below the column, and the cause. -/
def Failure.text (f : Failure) : String :=
  "Parse error at line " ++ toString f.location.line ++
    ", column " ++ toString f.location.column ++ ":\n" ++
    f.location.context ++ "\n" ++
    String.ofList (List.replicate (f.location.column - 1) ' ' ++ ['^']) ++ "\n" ++
    f.message

end LispScript
