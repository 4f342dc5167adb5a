/-!
# Log entries
-/

namespace LispScript.Log

/-- How important an entry is. -/
inductive Level
  | debug
  | info
  | error
deriving Repr, DecidableEq

/-- A message for whoever runs the program. -/
structure Entry where
  level : Level
  message : String
deriving Repr, DecidableEq

end LispScript.Log
