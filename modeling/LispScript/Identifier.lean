import LispScript.Text.UpperCase

/-!
# Identifiers of the script

Words of a program may hold characters that identifiers of the script cannot. A word that asks a
question, `empty?`, becomes a predicate, `isEmpty`; each other character of that sort is spelled
out.
-/

namespace LispScript.Identifier

/-- The text with its first character in upper case. The rest stays as it is. -/
def capitalize (s : String) : String :=
  match s.toList with
  | [] => ""
  | c :: cs => Text.upperCase c ++ String.ofList cs

/-- The characters of words that identifiers cannot hold, each with the text that takes its place,
in the order in which they are replaced. -/
def replacements : List (Char × List Char) :=
  [('-', ['_']), ('<', ['_', 'L', 'T']), ('>', ['_', 'G', 'T']),
    ('?', ['_', 'Q', 'M', 'A', 'R', 'K']), ('!', ['_', 'B', 'A', 'N', 'G'])]

/-- Replaces a character all over a text. -/
def replaceAll (old : Char) (new cs : List Char) : List Char :=
  cs.flatMap fun c => if c = old then new else [c]

/-- A question turned into the name of a predicate; any other name stays as it is. -/
def predicateName (name : String) : String :=
  let cs := name.toList
  if cs.getLast? = some '?' then "is" ++ capitalize (String.ofList cs.dropLast) else name

/-- The identifier of a word. The replacements are made one after the other, each in what those
before it have made of the name. -/
def mangle (name : String) : String :=
  String.ofList <| replacements.foldl (fun cs (old, new) => replaceAll old new cs)
    (predicateName name).toList

end LispScript.Identifier
