/-!
# Forms

A form is a syntactic unit of a program. Every form keeps its text as it was written: numbers are
never converted, strings have no escapes.
-/

namespace LispScript

/-- Syntactic units. The reader makes only hints of two words; others can be built by hand, and
are reported where they would be written. `hole` stands where a form is missing. -/
inductive Form
  | hole
  | word (name : String)
  | number (literal : String)
  | string (text : String)
  | keyword (name : String)
  | operator (symbol : String)
  | accessor (field : String)
  | method (name : String)
  | hint (parts : List Form)
  | yield
  | placeholder
  | shortLambda (body : Form)
  | getter (target : Form)
  | list (items : List Form)
  | vector (items : List Form)
  | map (items : List Form)
deriving Repr

namespace Form

mutual

/-- Whether two forms are the same. -/
def same : Form → Form → Bool
  | hole, hole => true
  | word a, word b => a == b
  | number a, number b => a == b
  | string a, string b => a == b
  | keyword a, keyword b => a == b
  | operator a, operator b => a == b
  | accessor a, accessor b => a == b
  | method a, method b => a == b
  | hint a, hint b => sameAll a b
  | yield, yield => true
  | placeholder, placeholder => true
  | shortLambda a, shortLambda b => same a b
  | getter a, getter b => same a b
  | list a, list b => sameAll a b
  | vector a, vector b => sameAll a b
  | map a, map b => sameAll a b
  | _, _ => false

/-- Whether two lists of forms are the same. -/
def sameAll : List Form → List Form → Bool
  | [], [] => true
  | f :: fs, g :: gs => same f g && sameAll fs gs
  | _, _ => false

end

mutual

/-- `same` tells forms apart exactly where they differ. -/
theorem same_iff : ∀ f g : Form, same f g = true ↔ f = g
  | hint a, g | list a, g | vector a, g | map a, g => by
    cases g <;> simp [same, sameAll_iff a]
  | shortLambda a, g | getter a, g => by
    cases g <;> simp [same, same_iff a]
  | hole, g | word _, g | number _, g | string _, g | keyword _, g | operator _, g
  | accessor _, g | method _, g | yield, g | placeholder, g => by
    cases g <;> simp [same]

/-- Comparing two lists form by form decides whether they are equal. -/
theorem sameAll_iff : ∀ fs gs : List Form, sameAll fs gs = true ↔ fs = gs
  | [], gs => by cases gs <;> simp [sameAll]
  | f :: fs, gs => by
    cases gs <;> simp [sameAll, same_iff f, sameAll_iff fs]

end

instance : DecidableEq Form := fun f g => decidable_of_iff _ (same_iff f g)

/-- The kinds of forms. -/
inductive Kind
  | word
  | number
  | string
  | keyword
  | operator
  | accessor
  | method
  | hint
  | yield
  | placeholder
  | shortLambda
  | getter
  | list
  | vector
  | map
deriving Repr, DecidableEq

/-- The kind of a form; a missing form has none. -/
def kind? : Form → Option Kind
  | hole => none
  | word _ => some .word
  | number _ => some .number
  | string _ => some .string
  | keyword _ => some .keyword
  | operator _ => some .operator
  | accessor _ => some .accessor
  | method _ => some .method
  | hint _ => some .hint
  | yield => some .yield
  | placeholder => some .placeholder
  | shortLambda _ => some .shortLambda
  | getter _ => some .getter
  | list _ => some .list
  | vector _ => some .vector
  | map _ => some .map

/-- The direct parts of a form, from left to right. -/
def children : Form → List Form
  | hint parts => parts
  | shortLambda body => [body]
  | getter target => [target]
  | list items => items
  | vector items => items
  | map items => items
  | _ => []

mutual

/-- The number of forms at all depths of a form, itself included. -/
def size : Form → Nat
  | hint parts => sizes parts + 1
  | shortLambda body => size body + 1
  | getter target => size target + 1
  | list items => sizes items + 1
  | vector items => sizes items + 1
  | map items => sizes items + 1
  | _ => 1

/-- The number of forms at all depths of several forms. -/
def sizes : List Form → Nat
  | [] => 0
  | f :: fs => size f + sizes fs

end

/-- The parts of a form have one form less than the form. -/
theorem size_eq (f : Form) : f.size = sizes f.children + 1 := by
  cases f <;> simp [size, sizes, children]

/-- Sizes add up over lists. -/
theorem sizes_append (fs gs : List Form) : sizes (fs ++ gs) = sizes fs + sizes gs := by
  induction fs with
  | nil => simp [sizes]
  | cons f fs ih => simp [sizes, ih, Nat.add_assoc]

/-- Visits the forms on a stack and everything below them, the top first and the parts of a form
before what lies under it on the stack. -/
def visit : List Form → List Form
  | [] => []
  | f :: stack => f :: visit (f.children ++ stack)
termination_by stack => sizes stack
decreasing_by simp only [sizes_append, sizes, size_eq f]; omega

/-- A form and all forms below it, each before its parts and the parts from left to right. -/
def walk (f : Form) : List Form :=
  visit [f]

/-- Whether a form of the given kind occurs at any depth of the forms. -/
def contains (forms : List Form) (k : Kind) : Bool :=
  forms.any fun f => f.walk.any (·.kind? == some k)

/-- The type and the name that a hint gives, if it has the shape of one. -/
def hintNames? : Form → Option (String × String)
  | hint [word typeName, word boundName] => some (typeName, boundName)
  | _ => none

end Form

end LispScript
