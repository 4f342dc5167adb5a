/-!
# Tables

A table is a list of keys with their values. A key that gets a new value keeps its place in the
table, and a new key comes behind all others.
-/

namespace LispScript.Table

/-- Gives `key` the value, in place of an earlier one. -/
def assign {α β : Type} [DecidableEq α] (key : α) (value : β) : List (α × β) → List (α × β)
  | [] => [(key, value)]
  | (other, old) :: rest =>
    if other = key then (key, value) :: rest else (other, old) :: assign key value rest

end LispScript.Table
