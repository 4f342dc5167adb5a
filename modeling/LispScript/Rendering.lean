import LispScript.Construct
import LispScript.Form.Printer
import LispScript.Macro
import LispScript.Script.Template
import LispScript.Text.Comment

/-!
# From forms to script

Writing a form as script text can define macros and can run into the limits on nesting, so it is a
step on the macro table that may fail. Nothing else fails: what has no meaning is printed in a
remark in its place, for which there has to be room. The program is made of expressions and the
script of statements, so the last statement of a function returns its value unless the function
yields.
-/

namespace LispScript

/-- Steps on a macro table. A step that fails still leaves the table where it got to. -/
abbrev RenderM := ExceptT TooDeep (StateM MacroTable)

/-- A way to write forms as script. -/
abbrev Renderer := Form → RenderM String

/-- Printing as a step that does nothing to the table. -/
def printed {α : Type} (result : Except TooDeep α) : RenderM α := fun table =>
  (result, table)

/-- The remark for a form that cannot be written. -/
def unmatched (room : Room) (kind : String) (f : Form) : RenderM String := do
  let text ← printed (f.printWithin room)
  return Script.remark ("Failed to match " ++ kind ++ " " ++ Text.commentSafe text)

/-- Writes forms from left to right. -/
def renderEach (render : Renderer) : List Form → RenderM (List String)
  | [] => return []
  | f :: fs => do
    let code ← render f
    let codes ← renderEach render fs
    return code :: codes

/-- Writes the arguments of a call. -/
def renderArgs (render : Renderer) (args : List Form) : RenderM String := do
  return Script.commaSeparated (← renderEach render args)

/-- Writes forms as statements that return nothing. -/
def renderStatements (render : Renderer) : List Form → RenderM String
  | [] => return ""
  | f :: fs => do
    let code ← render f
    let codes ← renderStatements render fs
    return Script.statement code ++ codes

/-- Writes the body of a function. Unless it is void it returns its last form, or nothing if there
is none. -/
def renderBody (render : Renderer) (void : Bool) : List Form → RenderM String
  | [] => return if void then "" else Script.statement (Script.returning Script.null)
  | [f] => do
    let code ← render f
    return Script.statement (if void then code else Script.returning code)
  | f :: g :: fs => do
    let code ← render f
    let codes ← renderBody render void (g :: fs)
    return Script.statement code ++ codes

/-- The return type of a function and whether it returns nothing of its own accord. -/
structure FunctionShape where
  returnType : String
  void : Bool
deriving Repr, DecidableEq

/-- The shape of a function by its body: one that yields anywhere is an enumerator. -/
def FunctionShape.ofBody (body : List Form) (void : Bool) : FunctionShape :=
  if Form.contains body .yield then ⟨Script.enumeratorType, true⟩ else ⟨Script.objectType, void⟩

/-- Writes a short lambda. It has a parameter if its sign occurs anywhere in the body. -/
def renderShortLambda (render : Renderer) (body : Form) : RenderM String := do
  let parameters := if Form.contains [body] .placeholder then Script.placeholderName else ""
  return Script.anonymousFunction Script.objectType parameters (← renderBody render false [body])

/-- Pairs up neighbours; a last single one is dropped. -/
def pairs {α : Type} : List α → List (α × α)
  | a :: b :: rest => (a, b) :: pairs rest
  | _ => []

/-- Writes a map. All items are written before their number is looked at. -/
def renderMap (room : Room) (render : Renderer) (items : List Form) : RenderM String := do
  let codes ← renderEach render items
  if codes.length % 2 = 0 then return Script.dictionary (pairs codes)
  else
    let text ← printed ((Form.map items).printWithin room)
    return Script.remark ("Map literal needs an even number of forms, got " ++
      toString codes.length ++ ": " ++ Text.commentSafe text)

/-- Writes what a variable is declared by. -/
def renderBinder (render : Renderer) : Binder → RenderM String
  | .name name => return Identifier.mangle name
  | .hint parts => render (.hint parts)

/-- Writes an optional form. -/
def renderOption (render : Renderer) : Option Form → RenderM (Option String)
  | none => return none
  | some f => do return some (← render f)

/-- Writes a binding of a `let`. -/
def renderBinding (room : Room) (render : Renderer) : Binding → RenderM String
  | .bind binder value => do
    let name ← renderBinder render binder
    let code ← render value
    return Script.declaration name (some code)
  | .invalid forms => do
    let text ← printed (Form.printItemsWithin room forms)
    return Script.remark ("Failed to match binding [" ++ Text.commentSafe text ++ "]")

/-- Writes the bindings of a `let` as statements. -/
def renderBindings (room : Room) (render : Renderer) : List Binding → RenderM String
  | [] => return ""
  | b :: bs => do
    let code ← renderBinding room render b
    let codes ← renderBindings room render bs
    return Script.statement code ++ codes

/-- Writes a member of a class: a variable without a value, or any other form as it is. -/
def renderMember (render : Renderer) (f : Form) : RenderM String :=
  match Binder.ofForm? f with
  | some binder => do return Script.declaration (← renderBinder render binder) none
  | none => render f

/-- Writes the members of a class as statements. -/
def renderMembers (render : Renderer) : List Form → RenderM String
  | [] => return ""
  | f :: fs => do
    let code ← renderMember render f
    let codes ← renderMembers render fs
    return Script.statement code ++ codes

/-- Writes a call as an ordinary one. -/
def renderCall (render : Renderer) (head : Form) (args : List Form) : RenderM String := do
  let function ← render head
  let arguments ← renderArgs render args
  return Script.call function arguments

/-- How the expansion of a macro is written, given how forms are. -/
abbrev Expander := Renderer → String → Macro → RenderM String

/-- Writes the body of a macro in place of a call. While that goes on the name is active, and a
call of an active name is reported instead of expanded. -/
def expand : Expander := fun render name m table =>
  if name ∈ table.active then
    (pure (Script.remark ("Recursive expansion of macro " ++ name)) : RenderM String) table
  else
    let (result, table) := render m.body (table.activate name)
    (result, table.deactivate name)

/-- Writes a list by what it means. -/
def Construct.render (expand : Expander) (room : Room) (render : Renderer) :
    Construct → RenderM String
  | .define static binder value => do
    let name ← renderBinder render binder
    let code ← renderOption render value
    return if static then Script.staticDeclaration name code else Script.declaration name code
  | .untyped name =>
    return Script.remark ("Must use type hints when not assigning var '" ++ name ++
      "' at definition")
  | .assign target value => do
    let left ← render target
    let right ← render value
    return Script.assignment left right
  | .update target function => do
    let left ← render target
    let code ← render function
    return Script.updating left code
  | .importLibrary library => return Script.importing library
  | .negate operand => do return Script.negation (← render operand)
  | .yield value => do return Script.yielding (← renderOption render value)
  | .element sequence index => do
    let code ← render sequence
    let position ← render index
    return Script.element code position
  | .construct typeName args => do
    return Script.construction typeName (← renderArgs render args)
  | .doBlock body => do return Script.doBlock (← renderBody render false body)
  | .letBlock bindings body => do
    let declarations ← renderBindings room render bindings
    let code ← renderBody render false body
    return Script.letBlock declarations code
  | .classType name members body => do
    let declarations ← renderMembers render members
    let code ← renderStatements render body
    return Script.classDefinition name declarations code
  | .lambda params body => do
    let shape := FunctionShape.ofBody body false
    let parameters ← renderArgs render params
    let code ← renderBody render shape.void body
    return Script.anonymousFunction shape.returnType parameters code
  | .namedFunction style name params body => do
    let shape := FunctionShape.ofBody body (style = .void)
    let parameters ← renderArgs render params
    let code ← renderBody render shape.void body
    return match style with
      | .static => Script.staticFunction name shape.returnType parameters code
      | .method | .void => Script.method name shape.returnType parameters code
  | .defineMacro name params body => do
    let params ← printed (params.mapM (Form.printWithin room))
    modify fun table => table.define name { params, body }
    return definedRemark name
  | .conditional condition yes no => do
    let test ← render condition
    let left ← render yes
    let right ← render no
    return Script.conditional test left right
  | .branch condition yes no => do
    let test ← render condition
    let left ← render yes
    let right ← renderOption render no
    return Script.branch test (Script.statement left) ((right.map Script.statement).getD "")
  | .loop condition body => do
    let test ← render condition
    let code ← renderBody render true body
    return Script.loop test code
  | .methodCall name object args => do
    let code ← render object
    let arguments ← renderArgs render args
    return Script.methodCall name code arguments
  | .field name object => do return Script.field name (← render object)
  | .operation symbol left right => do
    let a ← render left
    let b ← render right
    return Script.operation symbol a b
  | .entry key object => do return Script.entry key (← render object)
  | .call (.word name) args => do
    match (← get).lookup? name with
    | some m => expand render name m
    | none => renderCall render (.word name) args
  | .call head args => renderCall render head args
  | .nothing => unmatched room "list" (.list [])

/-- Writes one level of a form, and the forms below it with `render`. -/
def renderLevel (expand : Expander) (room : Room) (render : Renderer) : Renderer
  | .word name => return Script.word name
  | .hint parts =>
    match (Form.hint parts).hintNames? with
    | some (typeName, boundName) => return Script.hint typeName boundName
    | none => unmatched room "hint (^)" (.hint parts)
  | .number literal => return Script.number literal
  | .string text => return Script.string text
  | .vector items => do return Script.array (← renderEach render items)
  | .list items => (Construct.ofItems items).render expand room render
  | .map items => renderMap room render items
  | .operator symbol =>
    match Script.operatorFunction? symbol with
    | some function => return function
    | none => unmatched room "operator" (.operator symbol)
  | .shortLambda body => renderShortLambda render body
  | .placeholder => return Script.placeholderName
  | .accessor name => return Script.fieldFunction name
  | .keyword name => return Script.keyword name
  | .getter target => do return Script.entryFunction (← render target)
  | .method name => return Script.methodFunction name
  | .yield => unmatched room "form" .yield
  | .hole => unmatched room "form" .hole

/-- Writes a form with at most `depth` forms, or bodies of macros, inside each other. -/
def renderWith (expand : Expander) (room : Room) : (depth : Nat) → Renderer
  | 0 => fun _ => throw {}
  | depth + 1 => renderLevel expand room (renderWith expand room depth)

/-- Writes a form, reporting macros that lead back to themselves. -/
def render (room : Room) (depth : Nat) : Renderer :=
  renderWith expand room depth

/-- Writes a form within the limits. -/
abbrev Limits.render (limits : Limits) : Renderer :=
  LispScript.render (some limits.printing) limits.writing

end LispScript
