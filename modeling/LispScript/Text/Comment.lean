/-!
# Text inside block comments

A block comment ends at the first `*/`. A text that is quoted in one has every such pair of
characters separated by a space.
-/

namespace LispScript.Text

/-- Separates every `*` from a `/` that follows it directly. -/
def separateCommentEnds : List Char → List Char
  | '*' :: '/' :: cs => '*' :: ' ' :: '/' :: separateCommentEnds cs
  | c :: cs => c :: separateCommentEnds cs
  | [] => []

/-- The text made fit to stand inside a block comment. -/
def commentSafe (s : String) : String :=
  String.ofList (separateCommentEnds s.toList)

end LispScript.Text
