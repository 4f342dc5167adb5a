import LispScript.Form
import LispScript.Limits

/-!
# Forms as source text

Printing gives a form back as it could have been written, with one space between neighbours.
Diagnostics show forms this way inside block comments. A form that is nested more deeply than there
is room for cannot be printed.
-/

namespace LispScript

namespace Form

mutual

/-- The source text of a form. -/
def print : Form → String
  | hole => "None"
  | word name => name
  | number literal => literal
  | string text => "\"" ++ text ++ "\""
  | keyword name => ":" ++ name
  | operator symbol => symbol
  | accessor field => ".-" ++ field
  | method name => "." ++ name
  | hint parts => "^" ++ printItems parts
  | yield => "yield"
  | placeholder => "%"
  | shortLambda body => "#" ++ print body
  | getter target => "λ" ++ print target
  | list items => "(" ++ printItems items ++ ")"
  | vector items => "[" ++ printItems items ++ "]"
  | map items => "\x7b" ++ printItems items ++ "\x7d"

/-- The source texts of several forms, with one space between neighbours. -/
def printItems : List Form → String
  | [] => ""
  | f :: fs => print f ++ printMore fs

/-- The source texts of the forms that follow a first one. -/
def printMore : List Form → String
  | [] => ""
  | f :: fs => " " ++ print f ++ printMore fs

end

mutual

/-- Prints a form, if there is room for it. -/
def printWithin (room : Room) : Form → Except TooDeep String
  | hint parts => do return "^" ++ (← printItemsWithin (← room.inside) parts)
  | shortLambda body => do return "#" ++ (← printWithin (← room.inside) body)
  | getter target => do return "λ" ++ (← printWithin (← room.inside) target)
  | list items => do return "(" ++ (← printItemsWithin (← room.inside) items) ++ ")"
  | vector items => do return "[" ++ (← printItemsWithin (← room.inside) items) ++ "]"
  | map items => do return "\x7b" ++ (← printItemsWithin (← room.inside) items) ++ "\x7d"
  | f => do
    let _ ← room.inside
    return f.print

/-- Prints several forms, with one space between neighbours. -/
def printItemsWithin (room : Room) : List Form → Except TooDeep String
  | [] => return ""
  | f :: fs => do return (← printWithin room f) ++ (← printMoreWithin room fs)

/-- Prints the forms that follow a first one. -/
def printMoreWithin (room : Room) : List Form → Except TooDeep String
  | [] => return ""
  | f :: fs => do return " " ++ (← printWithin room f) ++ (← printMoreWithin room fs)

end

end Form

end LispScript
