import LispScript.Script.Layout
import LispScript.Script.Leaf

/-!
# Statements and expressions of the script

Each function here puts pieces of code that are already written, or plain names, into one
construct of the script. Blocks end in a newline before the closing brace, so the code in them is a
sequence of indented lines.
-/

namespace LispScript.Script

/-- The return type of a function without a better one. -/
def objectType : String := "Object"

/-- The return type of a function that yields. -/
def enumeratorType : String := "IEnumerator"

/-- A block with its braces, on lines of its own. -/
def block (body : String) : String :=
  "\x7b\n" ++ body ++ "\x7d"

/-- A variable or field gets a value. -/
def assignment (target code : String) : String :=
  target ++ " = " ++ code

/-- A variable, with its first value if it has one. -/
def declaration (name : String) : Option String → String
  | none => "var " ++ name
  | some code => "var " ++ name ++ " = " ++ code

/-- A variable of the class rather than of its objects. -/
def staticDeclaration (name : String) (code : Option String) : String :=
  "static " ++ declaration name code

/-- Two operands with an operator between them. The parentheses keep the nesting of the program. -/
def operation (symbol left right : String) : String :=
  "(" ++ left ++ " " ++ symbol ++ " " ++ right ++ ")"

/-- A call of a function. -/
def call (function arguments : String) : String :=
  function ++ "(" ++ arguments ++ ")"

/-- A call of a method. -/
def methodCall (name object arguments : String) : String :=
  object ++ "." ++ Identifier.mangle name ++ "(" ++ arguments ++ ")"

/-- A function without a name. -/
def anonymousFunction (returnType parameters body : String) : String :=
  "function(" ++ parameters ++ ") : " ++ returnType ++ " " ++ block body

/-- A named function of the objects of a class. -/
def method (name returnType parameters body : String) : String :=
  "function " ++ Identifier.mangle name ++ "(" ++ parameters ++ ") : " ++ returnType ++ " " ++
    block body

/-- A named function of a class. -/
def staticFunction (name returnType parameters body : String) : String :=
  "static " ++ method name returnType parameters body

/-- Ends a function with a value. -/
def returning (code : String) : String :=
  "return " ++ code

/-- One of two values. -/
def conditional (condition yes no : String) : String :=
  "(" ++ condition ++ " ? " ++ yes ++ " : " ++ no ++ ")"

/-- Statements as an expression: a function that runs them, called at once, with the value of
nothing. -/
def runAtOnce (code : String) : String :=
  "function() \x7b\n" ++ indent code ++ "\treturn null;\n\x7d()"

/-- One of two blocks, as an expression. -/
def branch (condition yes no : String) : String :=
  runAtOnce ("if(" ++ condition ++ ") " ++ block yes ++ " else " ++ block no)

/-- A block that is repeated, as an expression. -/
def loop (condition body : String) : String :=
  runAtOnce ("while(" ++ condition ++ ") " ++ block body)

/-- Bindings and a body as an expression. -/
def letBlock (bindings body : String) : String :=
  "function() : " ++ objectType ++ " \x7b/*let*/\n" ++ bindings ++ body ++ "\x7d()"

/-- A body as an expression. -/
def doBlock (body : String) : String :=
  "function() : " ++ objectType ++ " \x7b/*do*/\n" ++ body ++ "\x7d()"

/-- A new object. -/
def construction (typeName arguments : String) : String :=
  "new " ++ typeName ++ "(" ++ arguments ++ ")"

/-- An element of a sequence. -/
def element (sequence index : String) : String :=
  sequence ++ "[" ++ index ++ "]"

/-- The opposite of a truth value. -/
def negation (code : String) : String :=
  "!(" ++ code ++ ")"

/-- Hands out a value, or only suspends the function. -/
def yielding : Option String → String
  | none => "yield"
  | some code => "yield " ++ code

/-- Makes a library known. Its name stays as it is. -/
def importing (library : String) : String :=
  "import " ++ library

/-- A field of an object. -/
def field (name object : String) : String :=
  object ++ "." ++ Identifier.mangle name

/-- The function that takes a field of its argument. -/
def fieldFunction (name : String) : String :=
  "function(__OBJ__) \x7b return __OBJ__." ++ Identifier.mangle name ++ "; \x7d"

/-- An entry of a map, by a string. -/
def entry (key object : String) : String :=
  object ++ "[\"" ++ key ++ "\"]"

/-- The function that takes an entry of its argument. -/
def entryFunction (key : String) : String :=
  "function(__MAP__) \x7b return __MAP__[" ++ key ++ "]; \x7d"

/-- The function that calls a method of its argument. -/
def methodFunction (name : String) : String :=
  "function(__OBJ__) \x7b return __OBJ__." ++ Identifier.mangle name ++ "(); \x7d"

/-- A class with its variables and functions. -/
def classDefinition (name members body : String) : String :=
  "public class " ++ name ++ " " ++ block (members ++ body)

/-- A variable or field gets the value that a function gives for its present one. -/
def updating (target function : String) : String :=
  target ++ " = " ++ function ++ "(" ++ target ++ ")"

/-- Pieces of code with commas between them. -/
def commaSeparated (items : List String) : String :=
  Text.joinWith ", " items

/-- A sequence. -/
def array (items : List String) : String :=
  "[" ++ commaSeparated items ++ "]"

/-- A map. -/
def dictionary (entries : List (String × String)) : String :=
  "\x7b" ++ commaSeparated (entries.map fun (key, value) => key ++ ": " ++ value) ++ "\x7d"

/-- A remark of the compiler, where it could not write code. -/
def remark (message : String) : String :=
  " /* " ++ message ++ " */ "

end LispScript.Script
