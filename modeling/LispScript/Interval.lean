import LispScript.Decimal.Seconds

/-!
# Intervals

The time between two looks at a folder is a number of seconds, which stays as it was given: a whole
number is shown as one. It can also be given without a number, and then it still counts as given, so
that nothing else takes its place.
-/

namespace LispScript

/-- The time between two looks at a folder. -/
inductive Interval
  /-- A number without a point. -/
  | whole (count : Int)
  | seconds (count : Float)
  /-- Given, but without a number. -/
  | blank

/-- An interval as text. Without a number it is a pair of brackets with nothing in them. -/
def Interval.text : Interval → String
  | .whole count => toString count
  | .seconds count => Seconds.text count
  | .blank => "[]"

end LispScript
