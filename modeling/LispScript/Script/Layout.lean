import LispScript.Text.Lines

/-!
# Lines and indentation of the script

Code inside a block stands one level deeper than the block, each of its lines behind one more tab.
-/

namespace LispScript.Script

/-- The lines of a piece of code. Empty lines at its end do not count, but code of a single line
has that line even if it is empty. -/
def codeLines (code : String) : List String :=
  match Text.lines code.toList with
  | [only] => [String.ofList only]
  | many => (many.reverse.dropWhile List.isEmpty).reverse.map String.ofList

/-- A line one level deeper. -/
def indentLine (line : String) : String :=
  "\t" ++ line ++ "\n"

/-- Code one level deeper, each line with a newline behind it. -/
def indent (code : String) : String :=
  String.join ((codeLines code).map indentLine)

/-- Code as a statement of a block. -/
def statement (code : String) : String :=
  indent (code ++ ";")

end LispScript.Script
