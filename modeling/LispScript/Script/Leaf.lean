import LispScript.Identifier

/-!
# Names and literals of the script
-/

namespace LispScript.Script

/-- The value of nothing. -/
def null : String := "null"

/-- A word. The name `nil` stands for nothing. -/
def word (name : String) : String :=
  if name = "nil" then null else Identifier.mangle name

/-- A number, written as in the program. -/
def number (literal : String) : String :=
  literal

/-- A string, written as in the program. -/
def string (text : String) : String :=
  "\"" ++ text ++ "\""

/-- A keyword as a value is the string of its name. -/
def keyword (name : String) : String :=
  "\"" ++ name ++ "\""

/-- A name with its type. -/
def hint (typeName boundName : String) : String :=
  Identifier.mangle boundName ++ " : " ++ typeName

/-- The function that an operator is where it stands as a value. Only some operators have one. -/
def operatorFunction? (symbol : String) : Option String :=
  match symbol with
  | "+" => some "_add_fn"
  | "-" => some "_sub_fn"
  | "*" => some "_mul_fn"
  | "/" => some "_div_fn"
  | "<" => some "_less_than_fn"
  | ">" => some "_greater_than_fn"
  | _ => none

/-- The parameter of a short lambda. -/
def placeholderName : String := "__ARG__"

end LispScript.Script
