/-!
# Places in a source text

Offsets count characters from the start of the text. A location is what a reader is told: the
number of the line, the column on that line, and the line itself.
-/

namespace LispScript

/-- A place in a source text. Lines and columns count from one. -/
structure Location where
  line : Nat
  column : Nat
  /-- The whole line on which the place lies, without its newline. -/
  context : String
deriving Repr, DecidableEq

/-- The location of offset `pos` in `source`. The end of the text is a place on its last line. -/
def Location.ofOffset (source : List Char) (pos : Nat) : Location :=
  let before := source.take pos
  let start := (before.reverse.takeWhile (· != '\n')).reverse
  let rest := (source.drop pos).takeWhile (· != '\n')
  { line := before.count '\n' + 1
    column := start.length + 1
    context := String.ofList (start ++ rest) }

end LispScript
