/-!
# Limits on nesting

Forms can be nested without end, but the room for working on forms inside each other is limited:
when a program is read, when a form is printed as source text, and when it is written as script.
-/

namespace LispScript

/-- Forms are nested beyond a limit. -/
structure TooDeep
deriving Repr, DecidableEq

/-- How many forms may still be inside each other, if there is a limit. -/
abbrev Room := Option Nat

/-- The room inside of a form. There is none in a form for which there is no room. -/
def Room.inside : Room → Except TooDeep Room
  | none => return none
  | some 0 => throw {}
  | some (n + 1) => return some n

/-- How many forms may be inside each other. There is room for one form at least. -/
structure Limits where
  /-- In a program that is read. -/
  reading : Nat
  /-- In a form that is printed. -/
  printing : Nat
  /-- In a form that is written, with the bodies of macros. -/
  writing : Nat
  reading_pos : 0 < reading := by decide
  writing_pos : 0 < writing := by decide
deriving Repr, DecidableEq

/-- The limits that programs are compiled with. -/
def Limits.usual : Limits :=
  { reading := 490, printing := 330, writing := 300 }

end LispScript
