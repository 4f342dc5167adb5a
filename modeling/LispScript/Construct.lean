import LispScript.Form

/-!
# What a list means

The head of a list and the shape of its tail decide what it means: a special construct, a use of a
method, field, operator or keyword, or a call. A tail without the shape that a special construct
asks for leaves the list a call.
-/

namespace LispScript

/-- What a variable is declared by: its name alone, or a hint with its type. -/
inductive Binder
  | name (name : String)
  | hint (parts : List Form)
deriving Repr, DecidableEq

/-- The binder that a form is, if it is one. -/
def Binder.ofForm? : Form → Option Binder
  | .word w => some (.name w)
  | .hint parts => some (.hint parts)
  | _ => none

/-- One step of the bindings of a `let`. -/
inductive Binding
  | bind (binder : Binder) (value : Form)
  /-- A form that binds nothing, with the form behind it if there is one. -/
  | invalid (forms : List Form)
deriving Repr, DecidableEq

/-- The binding that two forms make. -/
def Binding.ofPair (binder value : Form) : Binding :=
  match Binder.ofForm? binder with
  | some b => .bind b value
  | none => .invalid [binder, value]

/-- The bindings of a vector, which holds a binder and a value in turn. -/
def Binding.ofForms : List Form → List Binding
  | [] => []
  | [single] => [.invalid [single]]
  | binder :: value :: rest => .ofPair binder value :: Binding.ofForms rest

/-- The ways to define a named function. -/
inductive FunctionStyle
  /-- A function of the class. -/
  | static
  /-- A function of its objects. -/
  | method
  /-- A function of its objects that returns nothing. -/
  | void
deriving Repr, DecidableEq

/-- What a list means. -/
inductive Construct
  | define (static : Bool) (binder : Binder) (value : Option Form)
  /-- A variable with neither a value nor a type. -/
  | untyped (name : String)
  | assign (target value : Form)
  | update (target function : Form)
  | importLibrary (library : String)
  | negate (operand : Form)
  | yield (value : Option Form)
  | element (sequence index : Form)
  | construct (typeName : String) (args : List Form)
  | doBlock (body : List Form)
  | letBlock (bindings : List Binding) (body : List Form)
  | classType (name : String) (members body : List Form)
  | lambda (params body : List Form)
  | namedFunction (style : FunctionStyle) (name : String) (params body : List Form)
  | defineMacro (name : String) (params : List Form) (body : Form)
  | conditional (condition yes no : Form)
  | branch (condition yes : Form) (no : Option Form)
  | loop (condition : Form) (body : List Form)
  | methodCall (name : String) (object : Form) (args : List Form)
  | field (name : String) (object : Form)
  | operation (symbol : String) (left right : Form)
  | entry (key : String) (object : Form)
  | call (head : Form) (args : List Form)
  | nothing
deriving Repr, DecidableEq

namespace Construct

/-- The declaration of a variable. -/
def declaration? (static : Bool) : List Form → Option Construct
  | [.word name, value] => some (.define static (.name name) (some value))
  | [.hint parts, value] => some (.define static (.hint parts) (some value))
  | [.hint parts] => some (.define static (.hint parts) none)
  | [.word name] => some (.untyped name)
  | _ => none

/-- The definition of a named function. -/
def namedFunction? (style : FunctionStyle) : List Form → Option Construct
  | .word name :: .vector params :: body => some (.namedFunction style name params body)
  | _ => none

/-- The special construct that a word names, if the forms behind it have its shape. -/
def special? (name : String) (tail : List Form) : Option Construct :=
  match name with
  | "def" => declaration? false tail
  | "def-static" => declaration? true tail
  | "set!" =>
    match tail with
    | [target, value] => some (.assign target value)
    | _ => none
  | "import" =>
    match tail with
    | [.word library] => some (.importLibrary library)
    | _ => none
  | "not" =>
    match tail with
    | [operand] => some (.negate operand)
    | _ => none
  | "yield" =>
    match tail with
    | [] => some (.yield none)
    | [value] => some (.yield (some value))
    | _ => none
  | "update!" =>
    match tail with
    | [target, f] => some (.update target f)
    | _ => none
  | "nth" =>
    match tail with
    | [sequence, index] => some (.element sequence index)
    | _ => none
  | "new" =>
    match tail with
    | .word typeName :: args => some (.construct typeName args)
    | _ => none
  | "do" => some (.doBlock tail)
  | "let" =>
    match tail with
    | .vector bindings :: body => some (.letBlock (Binding.ofForms bindings) body)
    | _ => none
  | "deftype" =>
    match tail with
    | .word name :: .vector members :: body => some (.classType name members body)
    | _ => none
  | "fn" =>
    match tail with
    | .vector params :: body => some (.lambda params body)
    | _ => none
  | "defn" => namedFunction? .static tail
  | "defmethod" => namedFunction? .method tail
  | "defvoid" => namedFunction? .void tail
  | "defmacro" =>
    match tail with
    | [.word name, .vector params, body] => some (.defineMacro name params body)
    | _ => none
  | "if" =>
    match tail with
    | [condition, yes, no] => some (.conditional condition yes no)
    | _ => none
  | "do-if" =>
    match tail with
    | [condition, yes] => some (.branch condition yes none)
    | [condition, yes, no] => some (.branch condition yes (some no))
    | _ => none
  | "while" =>
    match tail with
    | condition :: body => some (.loop condition body)
    | [] => none
  | _ => none

/-- The word that a head names a special construct by. The sign `yield` counts as its word. -/
def specialName? : Form → Option String
  | .word name => some name
  | .yield => some "yield"
  | _ => none

/-- What a list means that is no special construct. -/
def ordinary (head : Form) (tail : List Form) : Construct :=
  match head, tail with
  | .method name, object :: args => .methodCall name object args
  | .accessor name, [object] => .field name object
  | .operator symbol, [left, right] => .operation symbol left right
  | .keyword key, [object] => .entry key object
  | _, _ => .call head tail

/-- What a list means. -/
def ofItems : List Form → Construct
  | [] => .nothing
  | head :: tail => ((specialName? head).bind (special? · tail)).getD (ordinary head tail)

end Construct

end LispScript
