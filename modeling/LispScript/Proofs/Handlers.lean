import LispScript.Proofs.Composition
import LispScript.Proofs.Tables

/-!
# Handlers of special constructs

A special construct can be taken as a handler: it gets the forms behind its name, and either writes
the list or declines it. Each handler looks at the number and the kinds of these forms before it
does anything else, so one that declines has written nothing and left the table alone. A list that
is declined is then written as if its head had no handler: by the macro of that name, or as a call.
-/

namespace LispScript

open Construct (declaration? namedFunction? special? specialName?)

/-! ## The handlers -/

/-- Writes the list of a special construct, given the forms behind its name, or declines it. -/
abbrev Handler := List Form → Room → Renderer → RenderM (Option String)

namespace Handler

/-- Declares a variable by its name or a hint. Without a value it has to be a hint. -/
def declare (assemble : String → Option String → String) : Handler
  | [.word name, value], _, render => do
    let code ← render value
    return some (assemble (Identifier.mangle name) (some code))
  | [.hint parts, value], _, render => do
    let name ← render (.hint parts)
    let code ← render value
    return some (assemble name (some code))
  | [.hint parts], _, render => do
    let name ← render (.hint parts)
    return some (assemble name none)
  | [.word name], _, _ =>
    return some (Script.remark ("Must use type hints when not assigning var '" ++ name ++
      "' at definition"))
  | _, _, _ => return none

/-- Writes one form. -/
def unary (assemble : String → String) : Handler
  | [operand], _, render => do
    let code ← render operand
    return some (assemble code)
  | _, _, _ => return none

/-- Writes two forms. -/
def binary (assemble : String → String → String) : Handler
  | [left, right], _, render => do
    let first ← render left
    let second ← render right
    return some (assemble first second)
  | _, _, _ => return none

/-- Writes three forms. -/
def ternary (assemble : String → String → String → String) : Handler
  | [condition, yes, no], _, render => do
    let test ← render condition
    let left ← render yes
    let right ← render no
    return some (assemble test left right)
  | _, _, _ => return none

def importLibrary : Handler
  | [.word library], _, _ => return some (Script.importing library)
  | _, _, _ => return none

def yield : Handler
  | [], _, _ => return some (Script.yielding none)
  | [value], _, render => do
    let code ← render value
    return some (Script.yielding (some code))
  | _, _, _ => return none

def construct : Handler
  | .word typeName :: args, _, render => do
    let arguments ← renderArgs render args
    return some (Script.construction typeName arguments)
  | _, _, _ => return none

/-- Takes every tail. -/
def doBlock : Handler
  | body, _, render => do
    let code ← renderBody render false body
    return some (Script.doBlock code)

def letBlock : Handler
  | .vector bindings :: body, room, render => do
    let declarations ← renderBindings room render (Binding.ofForms bindings)
    let code ← renderBody render false body
    return some (Script.letBlock declarations code)
  | _, _, _ => return none

def classType : Handler
  | .word name :: .vector members :: body, _, render => do
    let declarations ← renderMembers render members
    let code ← renderStatements render body
    return some (Script.classDefinition name declarations code)
  | _, _, _ => return none

def lambda : Handler
  | .vector params :: body, _, render => do
    let shape := FunctionShape.ofBody body false
    let parameters ← renderArgs render params
    let code ← renderBody render shape.void body
    return some (Script.anonymousFunction shape.returnType parameters code)
  | _, _, _ => return none

/-- Defines a named function, which returns nothing if it is void. -/
def namedFunction (assemble : String → String → String → String → String) (void : Bool) : Handler
  | .word name :: .vector params :: body, _, render => do
    let shape := FunctionShape.ofBody body void
    let parameters ← renderArgs render params
    let code ← renderBody render shape.void body
    return some (assemble name shape.returnType parameters code)
  | _, _, _ => return none

/-- Changes the table, and writes no form. -/
def defineMacro : Handler
  | [.word name, .vector params, body], room, _ => do
    let params ← printed (params.mapM (Form.printWithin room))
    modify fun table => table.define name { params, body }
    return some (definedRemark name)
  | _, _, _ => return none

def branch : Handler
  | [condition, yes], _, render => do
    let test ← render condition
    let left ← render yes
    return some (Script.branch test (Script.statement left) "")
  | [condition, yes, no], _, render => do
    let test ← render condition
    let left ← render yes
    let right ← render no
    return some (Script.branch test (Script.statement left) (Script.statement right))
  | _, _, _ => return none

def loop : Handler
  | condition :: body, _, render => do
    let test ← render condition
    let code ← renderBody render true body
    return some (Script.loop test code)
  | [], _, _ => return none

/-- Declines every tail. -/
def declining : Handler
  | _, _, _ => return none

end Handler

/-- The handlers of all special constructs. -/
def specialHandlers : List (String × Handler) :=
  [("def", .declare Script.declaration),
    ("def-static", .declare Script.staticDeclaration),
    ("set!", .binary Script.assignment),
    ("import", .importLibrary),
    ("not", .unary Script.negation),
    ("yield", .yield),
    ("update!", .binary Script.updating),
    ("nth", .binary Script.element),
    ("new", .construct),
    ("do", .doBlock),
    ("let", .letBlock),
    ("deftype", .classType),
    ("fn", .lambda),
    ("defn", .namedFunction Script.staticFunction false),
    ("defmethod", .namedFunction Script.method false),
    ("defvoid", .namedFunction Script.method true),
    ("defmacro", .defineMacro),
    ("if", .ternary Script.conditional),
    ("do-if", .branch),
    ("while", .loop)]

/-- The handler that the head of a list names in a table, if it names one. -/
def handlerOf (handlers : List (String × Handler)) (head : Form) : Handler :=
  ((specialName? head).bind fun name => handlers.lookup name).getD .declining

/-- Writes a list by a table of handlers: by the one that its head names or, if that declines, by
what the head makes of the list otherwise. -/
def renderListWith (handlers : List (String × Handler)) (room : Room) (render : Renderer) :
    List Form → RenderM String
  | [] => unmatched room "list" (.list [])
  | head :: tail => do
    match ← handlerOf handlers head tail room render with
    | some code => return code
    | none => (Construct.ordinary head tail).render expand room render

/-! ## The shapes they ask for -/

/-- Whether a special construct takes a tail with forms of the given kinds. -/
def Construct.takes (name : String) (kinds : List (Option Form.Kind)) : Bool :=
  match name with
  | "def" | "def-static" =>
    (kinds.length == 1 || kinds.length == 2) &&
      (kinds.head? == some (some .word) || kinds.head? == some (some .hint))
  | "set!" | "update!" | "nth" => kinds.length == 2
  | "import" => kinds == [some .word]
  | "not" => kinds.length == 1
  | "yield" => kinds.length == 0 || kinds.length == 1
  | "new" => kinds.head? == some (some .word)
  | "do" => true
  | "let" | "fn" => kinds.head? == some (some .vector)
  | "deftype" | "defn" | "defmethod" | "defvoid" => kinds.take 2 == [some .word, some .vector]
  | "defmacro" => kinds.length == 3 && kinds.take 2 == [some .word, some .vector]
  | "if" => kinds.length == 3
  | "do-if" => kinds.length == 2 || kinds.length == 3
  | "while" => kinds.length != 0
  | _ => false

namespace Handler

/-- The handler that takes the tails which mean something, and writes what they mean. -/
def ofMeaning (meaning : List Form → Option Construct) : Handler := fun tail room render =>
  match meaning tail with
  | none => return none
  | some c => some <$> c.render expand room render

/-- The handler takes a tail if the kinds of its forms are right. Then it writes what the list
means, and otherwise it does nothing. -/
def Fits (handler : Handler) (meaning : List Form → Option Construct)
    (shape : List (Option Form.Kind) → Bool) : Prop :=
  ∀ tail, (∀ room render, handler tail room render = ofMeaning meaning tail room render) ∧
    (meaning tail).isSome = shape (tail.map Form.kind?)

variable {handler : Handler} {meaning : List Form → Option Construct}
  {shape : List (Option Form.Kind) → Bool} {tail : List Form}

/-! ## Each handler fits its construct

The forms that a handler looks at are split by their kinds, and no further: then a tail that is
declined is so by computation, and only what the other tails are written as has to be compared. -/

/-- The meaning of exactly one form. -/
def one? (c : Form → Construct) : List Form → Option Construct
  | [operand] => some (c operand)
  | _ => none

/-- The meaning of exactly two forms. -/
def two? (c : Form → Form → Construct) : List Form → Option Construct
  | [left, right] => some (c left right)
  | _ => none

/-- A handler of one operand fits each construct that writes its operand in a template. -/
theorem fits_unary {assemble : String → String} {c : Form → Construct}
    (hmeaning : ∀ tail, meaning tail = one? c tail)
    (hwrites : ∀ operand room render, (c operand).render expand room render = do
      return assemble (← render operand)) :
    Fits (unary assemble) meaning fun kinds => kinds.length == 1 := by
  intro tail
  simp only [ofMeaning, hmeaning]
  rcases tail with _ | ⟨operand, _ | ⟨more, rest⟩⟩
  · exact ⟨fun _ _ => rfl, rfl⟩
  · refine ⟨fun room render => ?_, rfl⟩
    simp [unary, one?, hwrites]
  · exact ⟨fun _ _ => rfl, rfl⟩

/-- A handler of two operands fits each construct that writes them, in this order, in a template. -/
theorem fits_binary {assemble : String → String → String} {c : Form → Form → Construct}
    (hmeaning : ∀ tail, meaning tail = two? c tail)
    (hwrites : ∀ left right room render, (c left right).render expand room render = do
      let first ← render left
      let second ← render right
      return assemble first second) :
    Fits (binary assemble) meaning fun kinds => kinds.length == 2 := by
  intro tail
  simp only [ofMeaning, hmeaning]
  rcases tail with _ | ⟨left, _ | ⟨right, _ | ⟨more, rest⟩⟩⟩
  · exact ⟨fun _ _ => rfl, rfl⟩
  · exact ⟨fun _ _ => rfl, rfl⟩
  · refine ⟨fun room render => ?_, rfl⟩
    simp [binary, two?, hwrites]
  · exact ⟨fun _ _ => rfl, rfl⟩

/-- `if` takes a condition and two branches. -/
theorem fits_ternary :
    Fits (ternary Script.conditional) (special? "if") (Construct.takes "if") := by
  intro tail
  rcases tail with _ | ⟨condition, _ | ⟨yes, _ | ⟨no, _ | ⟨more, rest⟩⟩⟩⟩
  · exact ⟨fun _ _ => rfl, rfl⟩
  · exact ⟨fun _ _ => rfl, rfl⟩
  · exact ⟨fun _ _ => rfl, rfl⟩
  · refine ⟨fun room render => ?_, rfl⟩
    change _ = some <$> (Construct.conditional condition yes no).render expand room render
    simp [ternary, Construct.render]
  · exact ⟨fun _ _ => rfl, rfl⟩

/-- `do-if` takes a condition, a branch and perhaps another one. -/
theorem fits_branch : Fits branch (special? "do-if") (Construct.takes "do-if") := by
  intro tail
  rcases tail with _ | ⟨condition, _ | ⟨yes, _ | ⟨no, _ | ⟨more, rest⟩⟩⟩⟩
  · exact ⟨fun _ _ => rfl, rfl⟩
  · exact ⟨fun _ _ => rfl, rfl⟩
  · refine ⟨fun room render => ?_, rfl⟩
    change _ = some <$> (Construct.branch condition yes none).render expand room render
    simp [branch, Construct.render, renderOption]
  · refine ⟨fun room render => ?_, rfl⟩
    change _ = some <$> (Construct.branch condition yes (some no)).render expand room render
    simp [branch, Construct.render, renderOption]
  · exact ⟨fun _ _ => rfl, rfl⟩

/-- `def` and `def-static` take a name or a hint, and perhaps a value. -/
theorem fits_declare (static : Bool) :
    Fits (declare (if static then Script.staticDeclaration else Script.declaration))
      (declaration? static) (Construct.takes "def") := by
  intro tail
  rcases tail with _ | ⟨f, _ | ⟨value, _ | ⟨more, rest⟩⟩⟩
  · exact ⟨fun _ _ => rfl, rfl⟩
  · cases f with
    | hint parts =>
      refine ⟨fun room render => ?_, rfl⟩
      change _ = some <$> (Construct.define static (.hint parts) none).render expand room render
      cases static <;> simp [declare, Construct.render, renderBinder, renderOption]
    | _ => exact ⟨fun _ _ => rfl, rfl⟩
  · cases f with
    | word name =>
      refine ⟨fun room render => ?_, rfl⟩
      change _ = some <$>
        (Construct.define static (.name name) (some value)).render expand room render
      cases static <;> simp [declare, Construct.render, renderBinder, renderOption]
    | hint parts =>
      refine ⟨fun room render => ?_, rfl⟩
      change _ = some <$>
        (Construct.define static (.hint parts) (some value)).render expand room render
      cases static <;> simp [declare, Construct.render, renderBinder, renderOption]
    | _ => exact ⟨fun _ _ => rfl, rfl⟩
  · cases f <;> exact ⟨fun _ _ => rfl, rfl⟩

/-- `import` takes one word. -/
theorem fits_importLibrary :
    Fits importLibrary (special? "import") (Construct.takes "import") := by
  intro tail
  rcases tail with _ | ⟨f, _ | ⟨more, rest⟩⟩
  · exact ⟨fun _ _ => rfl, rfl⟩
  · cases f <;> exact ⟨fun _ _ => rfl, rfl⟩
  · cases f <;> exact ⟨fun _ _ => rfl, rfl⟩

/-- `yield` takes at most one form. -/
theorem fits_yield : Fits yield (special? "yield") (Construct.takes "yield") := by
  intro tail
  rcases tail with _ | ⟨value, _ | ⟨more, rest⟩⟩
  · exact ⟨fun _ _ => rfl, rfl⟩
  · refine ⟨fun room render => ?_, rfl⟩
    change _ = some <$> (Construct.yield (some value)).render expand room render
    simp [yield, Construct.render, renderOption]
  · exact ⟨fun _ _ => rfl, rfl⟩

/-- `new` takes the name of a class and any arguments. -/
theorem fits_construct : Fits construct (special? "new") (Construct.takes "new") := by
  intro tail
  rcases tail with _ | ⟨f, args⟩
  · exact ⟨fun _ _ => rfl, rfl⟩
  · cases f with
    | word typeName =>
      refine ⟨fun room render => ?_, rfl⟩
      change _ = some <$> (Construct.construct typeName args).render expand room render
      simp [construct, Construct.render]
    | _ => exact ⟨fun _ _ => rfl, rfl⟩

/-- `do` takes everything. -/
theorem fits_doBlock : Fits doBlock (special? "do") (Construct.takes "do") := by
  intro tail
  refine ⟨fun room render => ?_, rfl⟩
  change _ = some <$> (Construct.doBlock tail).render expand room render
  simp [doBlock, Construct.render]

/-- `let` takes a vector of bindings and a body. -/
theorem fits_letBlock : Fits letBlock (special? "let") (Construct.takes "let") := by
  intro tail
  rcases tail with _ | ⟨f, body⟩
  · exact ⟨fun _ _ => rfl, rfl⟩
  · cases f with
    | vector bindings =>
      refine ⟨fun room render => ?_, rfl⟩
      change _ = some <$>
        (Construct.letBlock (Binding.ofForms bindings) body).render expand room render
      simp [letBlock, Construct.render]
    | _ => exact ⟨fun _ _ => rfl, rfl⟩

/-- `fn` takes a vector of parameters and a body. -/
theorem fits_lambda : Fits lambda (special? "fn") (Construct.takes "fn") := by
  intro tail
  rcases tail with _ | ⟨f, body⟩
  · exact ⟨fun _ _ => rfl, rfl⟩
  · cases f with
    | vector params =>
      refine ⟨fun room render => ?_, rfl⟩
      change _ = some <$> (Construct.lambda params body).render expand room render
      simp [lambda, Construct.render]
    | _ => exact ⟨fun _ _ => rfl, rfl⟩

/-- `deftype` takes a name, a vector of fields and a body. -/
theorem fits_classType : Fits classType (special? "deftype") (Construct.takes "deftype") := by
  intro tail
  rcases tail with _ | ⟨f, _ | ⟨g, body⟩⟩
  · exact ⟨fun _ _ => rfl, rfl⟩
  · cases f <;> exact ⟨fun _ _ => rfl, rfl⟩
  · cases f with
    | word name =>
      cases g with
      | vector members =>
        refine ⟨fun room render => ?_, rfl⟩
        change _ = some <$> (Construct.classType name members body).render expand room render
        simp [classType, Construct.render]
      | _ => exact ⟨fun _ _ => rfl, rfl⟩
    | _ => exact ⟨fun _ _ => rfl, rfl⟩

/-- The functions with a name take it, a vector of parameters and a body. They differ in the
template and in whether the last form is returned. -/
theorem fits_namedFunction (style : FunctionStyle)
    {assemble : String → String → String → String → String} {void : Bool}
    (hwrites : ∀ name params body room render,
      (Construct.namedFunction style name params body).render expand room render = do
        let parameters ← renderArgs render params
        let code ← renderBody render (FunctionShape.ofBody body void).void body
        return assemble name (FunctionShape.ofBody body void).returnType parameters code) :
    Fits (namedFunction assemble void) (namedFunction? style) (Construct.takes "defn") := by
  intro tail
  rcases tail with _ | ⟨f, _ | ⟨g, body⟩⟩
  · exact ⟨fun _ _ => rfl, rfl⟩
  · cases f <;> exact ⟨fun _ _ => rfl, rfl⟩
  · cases f with
    | word name =>
      cases g with
      | vector params =>
        refine ⟨fun room render => ?_, rfl⟩
        change _ = some <$>
          (Construct.namedFunction style name params body).render expand room render
        simp [namedFunction, hwrites]
      | _ => exact ⟨fun _ _ => rfl, rfl⟩
    | _ => exact ⟨fun _ _ => rfl, rfl⟩

/-- `defmacro` takes a name, a vector of parameters and exactly one form. -/
theorem fits_defineMacro : Fits defineMacro (special? "defmacro") (Construct.takes "defmacro") := by
  intro tail
  rcases tail with _ | ⟨f, _ | ⟨g, _ | ⟨body, _ | ⟨more, rest⟩⟩⟩⟩
  · exact ⟨fun _ _ => rfl, rfl⟩
  · cases f <;> exact ⟨fun _ _ => rfl, rfl⟩
  · cases f with
    | word name => cases g <;> exact ⟨fun _ _ => rfl, rfl⟩
    | _ => exact ⟨fun _ _ => rfl, rfl⟩
  · cases f with
    | word name =>
      cases g with
      | vector params =>
        refine ⟨fun room render => ?_, rfl⟩
        change _ = some <$> (Construct.defineMacro name params body).render expand room render
        simp [defineMacro, Construct.render]
      | _ => exact ⟨fun _ _ => rfl, rfl⟩
    | _ => exact ⟨fun _ _ => rfl, rfl⟩
  · cases f with
    | word name => cases g <;> exact ⟨fun _ _ => rfl, rfl⟩
    | _ => exact ⟨fun _ _ => rfl, rfl⟩

/-- `while` takes a condition and a body. -/
theorem fits_loop : Fits loop (special? "while") (Construct.takes "while") := by
  intro tail
  rcases tail with _ | ⟨condition, body⟩
  · exact ⟨fun _ _ => rfl, rfl⟩
  · refine ⟨fun room render => ?_, rfl⟩
    change _ = some <$> (Construct.loop condition body).render expand room render
    simp [loop, Construct.render]

/-- Every handler of the table takes the tails that its name gives a meaning, and writes that. -/
theorem fits_of_mem {name : String} (h : (name, handler) ∈ specialHandlers) :
    Fits handler (special? name) (Construct.takes name) := by
  have hfit : ∀ entry ∈ specialHandlers,
      Fits entry.2 (special? entry.1) (Construct.takes entry.1) := by
    simp only [specialHandlers, List.forall_mem_cons]
    exact ⟨fits_declare false, fits_declare true,
      fits_binary (c := .assign) (fun _ => rfl) (fun _ _ _ _ => rfl), fits_importLibrary,
      fits_unary (c := .negate) (fun _ => rfl) (fun _ _ _ => rfl), fits_yield,
      fits_binary (c := .update) (fun _ => rfl) (fun _ _ _ _ => rfl),
      fits_binary (c := .element) (fun _ => rfl) (fun _ _ _ _ => rfl), fits_construct, fits_doBlock,
      fits_letBlock, fits_classType, fits_lambda, fits_namedFunction .static (fun _ _ _ _ _ => rfl),
      fits_namedFunction .method (fun _ _ _ _ _ => rfl),
      fits_namedFunction .void (fun _ _ _ _ _ => rfl), fits_defineMacro, fits_ternary, fits_branch,
      fits_loop, List.forall_mem_nil _⟩
  exact hfit (name, handler) h

/-- A tail of another shape means nothing special. -/
theorem Fits.meaning_eq_none (h : Fits handler meaning shape)
    (hshape : shape (tail.map Form.kind?) = false) : meaning tail = none := by
  rw [← Option.isNone_iff_eq_none, ← Option.isSome_eq_false_iff, (h tail).2, hshape]

/-- A tail that is declined has no effect at all: whatever forms are written by, none was, and the
table is as before. -/
theorem Fits.eq_pure_none (h : Fits handler meaning shape)
    (hshape : shape (tail.map Form.kind?) = false) (room : Room) (r : Renderer) :
    handler tail room r = pure none := by
  rw [(h tail).1, ofMeaning, h.meaning_eq_none hshape]

/-- Only the kinds of the forms decide whether a tail is declined. -/
theorem Fits.declines_iff (h : Fits handler meaning shape) (room : Room) (r : Renderer)
    (table : MacroTable) :
    (handler tail room r table).1 = .ok none ↔ shape (tail.map Form.kind?) = false := by
  constructor
  · intro hdeclined
    obtain ⟨hrun, htakes⟩ := h tail
    rw [← htakes]
    cases hmeaning : meaning tail with
    | none => rfl
    | some c =>
      rw [hrun, ofMeaning, hmeaning] at hdeclined
      change ((some <$> c.render expand room r) table).1 = .ok none at hdeclined
      rw [Steps.map_apply] at hdeclined
      cases hcode : (c.render expand room r table).1 <;> rw [hcode] at hdeclined <;> cases hdeclined
  · intro hshape
    rw [h.eq_pure_none hshape]
    rfl

end Handler

/-! ## Lists by their handlers -/

/-- No construct has two handlers. -/
theorem nodup_specialHandlers : (specialHandlers.map Prod.fst).Nodup := by decide

/-- A word without a handler names no special construct. -/
theorem special?_eq_none_of_lookup {name : String} (h : specialHandlers.lookup name = none)
    (tail : List Form) : special? name tail = none := by
  have hname : name ∉ specialHandlers.map Prod.fst := by
    intro hmem
    obtain ⟨entry, hentry, rfl⟩ := List.mem_map.mp hmem
    simpa using List.lookup_eq_none_iff.mp h entry hentry
  unfold special?
  split
  all_goals first | rfl | exact absurd (by decide) hname

/-- The handlers together write what a list means. -/
theorem renderLevel_eq_renderListWith (room : Room) (r : Renderer) (items : List Form) :
    renderLevel expand room r (.list items) = renderListWith specialHandlers room r items := by
  cases items with
  | nil => rfl
  | cons head tail =>
    rw [renderLevel, Construct.ofItems, renderListWith, handlerOf]
    cases specialName? head with
    | none => simp [Handler.declining]
    | some name =>
      rw [Option.bind_some, Option.bind_some]
      cases hlookup : specialHandlers.lookup name with
      | none => simp [special?_eq_none_of_lookup hlookup, Handler.declining]
      | some handler =>
        have hmem := (Table.lookup_eq_some_iff_mem nodup_specialHandlers).mp hlookup
        rw [Option.getD_some, (Handler.fits_of_mem hmem tail).1, Handler.ofMeaning]
        cases special? name tail <;> simp

/-- Writing each of some forms goes through them from left to right. -/
theorem renderEach_eq_mapM (r : Renderer) (fs : List Form) : renderEach r fs = fs.mapM r := by
  induction fs with
  | nil => rfl
  | cons f fs ih => rw [renderEach, ih, List.mapM_cons]

/-- A call writes the function first and then the arguments. -/
theorem renderCall_eq (r : Renderer) (head : Form) (args : List Form) : renderCall r head args = do
    let function ← r head
    let codes ← args.mapM r
    return Script.call function (Script.commaSeparated codes) := by
  simp only [renderCall, renderArgs, renderEach_eq_mapM, bind_assoc, pure_bind]

/-- Without a handler for `name` a list that it heads is an ordinary one. -/
theorem renderListWith_without {head : Form} {name : String} (hname : specialName? head = some name)
    (room : Room) (r : Renderer) (tail : List Form) :
    renderListWith (specialHandlers.filter (·.1 ≠ name)) room r (head :: tail) =
      (Construct.ordinary head tail).render expand room r := by
  have hlookup : (specialHandlers.filter (·.1 ≠ name)).lookup name = none := by
    rw [List.lookup_eq_none_iff]
    intro entry hentry
    have hne : entry.1 ≠ name := of_decide_eq_true (List.mem_filter.mp hentry).2
    exact bne_iff_ne.mpr (Ne.symm hne)
  rw [renderListWith, handlerOf, hname, Option.bind_some, hlookup, Option.getD_none,
    Handler.declining, pure_bind]

/-- A special construct that declines has no effect. Written by the table of handlers, which writes
every list as the renderer does, a list is declined by the kinds of the forms behind its name alone,
whatever macros there are and whatever forms are written by. A handler that declines has written
nothing and left the table alone. Then the list is written as by a table that lacks its name: a word
expands its macro, and without one, or for the sign `yield`, the head and all forms behind it are
written once from left to right and make a call. -/
theorem declined_special_has_no_effect {name : String} {handler : Handler}
    (hspecial : (name, handler) ∈ specialHandlers) (tail : List Form) (room : Room) :
    (∀ limit items, render room (limit + 1) (.list items) =
      renderListWith specialHandlers room (render room limit) items) ∧
    (∀ r table, (handler tail room r table).1 = .ok none ↔
      Construct.takes name (tail.map Form.kind?) = false) ∧
    (Construct.takes name (tail.map Form.kind?) = false →
      (∀ r table, handler tail room r table = (.ok none, table)) ∧
      ∀ limit,
        (∀ head, specialName? head = some name → render room (limit + 1) (.list (head :: tail)) =
          renderListWith (specialHandlers.filter (·.1 ≠ name)) room (render room limit)
            (head :: tail)) ∧
        (∀ table m, table.lookup? name = some m →
          render room (limit + 1) (.list (.word name :: tail)) table =
            expand (render room limit) name m table) ∧
        ∀ head table, specialName? head = some name →
          (head = .word name → table.lookup? name = none) →
          render room (limit + 1) (.list (head :: tail)) table =
            (do
              let function ← render room limit head
              let codes ← tail.mapM (render room limit)
              return Script.call function (Script.commaSeparated codes) :
              RenderM String) table) := by
  have hfits := Handler.fits_of_mem hspecial
  refine ⟨fun limit => renderLevel_eq_renderListWith room (render room limit),
    hfits.declines_iff room,
    fun hshape => ⟨fun r table => ?_, fun limit => ?_⟩⟩
  · rw [hfits.eq_pure_none hshape]
    rfl
  · have hordinary {head : Form} (hname : specialName? head = some name) :
        Construct.ofItems (head :: tail) = Construct.ordinary head tail := by
      rw [Construct.ofItems, hname, Option.bind_some, hfits.meaning_eq_none hshape,
        Option.getD_none]
    have hcall := renderLevel_call (hordinary rfl) expand room (render room limit)
    refine ⟨fun head hname => ?_, fun table m hm => ?_, fun head table hname hnone => ?_⟩
    · rw [renderListWith_without hname, ← hordinary hname]
      rfl
    · exact (hcall table).trans (by rw [hm])
    · rw [← renderCall_eq]
      cases head with
      | word word =>
        obtain rfl : word = name := Option.some.inj hname
        exact (hcall table).trans (by rw [hnone rfl])
      | yield =>
        -- the sign names the construct as the word does, but it never names a macro
        rw [render, renderWith, renderLevel, hordinary hname]
        rfl
      | _ => cases hname

/-- An `if` of two forms is declined. With a macro of that name the macro is expanded. Without one
the list is a call, and the second form uses the macro that the first one defines. -/
theorem declined_special_has_no_effect_if :
    let define : Form := .list [.word "defmacro", .word "m", .vector [], .number "1"]
    let tail : List Form := [define, .list [.word "m"]]
    let shadowed : MacroTable := ⟨[("if", ⟨[], .number "7"⟩)], []⟩
    Handler.ternary Script.conditional tail (some 9) (render (some 9) 8) shadowed =
        (.ok none, shadowed) ∧
      render (some 9) 9 (.list (.word "if" :: tail)) =
        renderListWith (specialHandlers.filter (·.1 ≠ "if")) (some 9) (render (some 9) 8)
          (.word "if" :: tail) ∧
      render (some 9) 9 (.list (.word "if" :: tail)) shadowed =
        expand (render (some 9) 8) "if" ⟨[], .number "7"⟩ shadowed ∧
      (expand (render (some 9) 8) "if" ⟨[], .number "7"⟩ shadowed).1.toOption = some "7" ∧
      (render (some 9) 9 (.list (.word "if" :: tail)) .empty).1.toOption =
        some "if(/* Defined macro m */ , 1)" ∧
      (render (some 9) 9 (.list (.word "if" :: tail)) .empty).2.entries =
        [("m", ⟨[], .number "1"⟩)] := by
  intro define tail shadowed
  have hspecial : ("if", Handler.ternary Script.conditional) ∈ specialHandlers := by
    simp [specialHandlers]
  obtain ⟨-, -, hdeclined⟩ := declined_special_has_no_effect hspecial tail (some 9)
  obtain ⟨hnothing, hwritten⟩ := hdeclined (by decide)
  obtain ⟨hlacking, hmacro, hcall⟩ := hwritten 8
  refine ⟨hnothing _ _, hlacking _ rfl, hmacro _ _ rfl, by decide +kernel, ?_, ?_⟩
  · rw [hcall _ _ rfl fun _ => rfl]
    decide +kernel
  · rw [hcall _ _ rfl fun _ => rfl]
    decide +kernel

end LispScript
