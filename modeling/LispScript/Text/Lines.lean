/-!
# Cutting and joining text

A text is cut at every occurrence of a separating character, so that joining the pieces with that
character gives the text back. Line ends are uniform: a text read from a file has its carriage
returns replaced before it is cut.
-/

namespace LispScript.Text

/-- The pieces between the occurrences of `sep`; there is always at least one. -/
def cutAt (sep : Char) : List Char → List (List Char)
  | [] => [[]]
  | c :: cs =>
    if c = sep then [] :: cutAt sep cs
    else match cutAt sep cs with
      | [] => [[c]]
      | piece :: pieces => (c :: piece) :: pieces

/-- The lines of a text, without their newlines. -/
def lines (cs : List Char) : List (List Char) :=
  cutAt '\n' cs

/-- Every line end becomes a newline. A carriage return, alone or before a newline, is one too. -/
def unifyNewlines : List Char → List Char
  | [] => []
  | '\r' :: '\n' :: cs => '\n' :: unifyNewlines cs
  | '\r' :: cs => '\n' :: unifyNewlines cs
  | c :: cs => c :: unifyNewlines cs

/-- The texts one after the other with `sep` between neighbours. -/
def joinWith (sep : String) : List String → String
  | [] => ""
  | [s] => s
  | s :: t :: rest => s ++ sep ++ joinWith sep (t :: rest)

end LispScript.Text
