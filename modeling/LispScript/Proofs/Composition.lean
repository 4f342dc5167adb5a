import LispScript.Rendering
import LispScript.Proofs.Printing
import LispScript.Proofs.Steps
import Mathlib.Tactic.Choose

/-!
# How the script of a form is composed

Writing a form does one of three things. A definition of a macro changes the table and writes
nothing below it. A call of a macro writes the body of that macro instead. Everything else writes
certain parts of the form from left to right, or prints them where they cannot be written, and
assembles these texts in a way that neither the table nor the renderer has a say in.
-/

namespace LispScript

variable {α β : Type}

/-! ## Writing parts from left to right -/

/-- A part of a form as it stands in the script of the form. -/
inductive Part
  /-- It is written as script itself. -/
  | script (f : Form)
  /-- It is printed in a remark. -/
  | source (f : Form)

namespace Part

/-- The form that is written or printed. -/
def form : Part → Form
  | script f => f
  | source f => f

/-- Writes or prints a part. -/
def write (room : Room) (render : Renderer) : Part → RenderM String
  | script f => render f
  | source f => printed (f.printWithin room)

end Part

/-- Writes or prints parts from left to right. -/
def writeEach (room : Room) (render : Renderer) : List Part → RenderM (List String)
  | [] => return []
  | p :: ps => do
    let text ← p.write room render
    let texts ← writeEach room render ps
    return text :: texts

/-- Forms that are all written as script. -/
def scripts (fs : List Form) : List Part :=
  fs.map .script

/-- Writing forms is writing them as parts. -/
theorem renderEach_eq_writeEach (room : Room) (render : Renderer) (fs : List Form) :
    renderEach render fs = writeEach room render (scripts fs) := by
  induction fs with
  | nil => rfl
  | cons f fs ih =>
    rw [renderEach, ih]
    rfl

/-- Parts can be written in two runs, one behind the other. -/
theorem writeEach_append (room : Room) (render : Renderer) (ps qs : List Part) :
    writeEach room render (ps ++ qs) =
      writeEach room render ps >>= fun xs => (xs ++ ·) <$> writeEach room render qs := by
  induction ps with
  | nil => simp [writeEach]
  | cons p ps ih => simp [writeEach, ih]

/-- There is one text for each part. -/
theorem writeEach_bind_congr {room : Room} {render : Renderer} {ps : List Part}
    {k k' : List String → RenderM α} (h : ∀ texts, texts.length = ps.length → k texts = k' texts) :
    (writeEach room render ps >>= k) = writeEach room render ps >>= k' := by
  induction ps generalizing k k' with
  | nil => simpa [writeEach] using h [] rfl
  | cons p ps ih =>
    simp only [writeEach, bind_assoc, pure_bind]
    congr 1
    funext text
    exact ih fun texts htexts => h (text :: texts) (by simp [htexts])

/-- `write` writes the parts from left to right and assembles their texts. -/
def Composes (parts : List Part) (write : Room → Renderer → RenderM α) : Prop :=
  ∃ assemble : List String → α, ∀ room render,
    write room render = assemble <$> writeEach room render parts

namespace Composes

variable {ps qs : List Part}

/-- What needs no part is composed of none. -/
theorem pure (a : α) : Composes [] (fun _ _ => Pure.pure a) :=
  ⟨fun _ => a, fun room render => by simp [writeEach]⟩

/-- A part alone is composed of itself. -/
theorem part (p : Part) : Composes [p] (fun room render => p.write room render) :=
  ⟨fun texts => texts.headD "", fun room render => by simp [writeEach]⟩

/-- A form that is written is one part. -/
theorem single (f : Form) : Composes [.script f] (fun _ render => render f) :=
  part (.script f)

/-- Each of several forms is a part. -/
theorem each (fs : List Form) : Composes (scripts fs) (fun _ render => renderEach render fs) :=
  ⟨id, fun room render => (renderEach_eq_writeEach room render fs).trans (id_map _).symm⟩

/-- One step behind another is composed of the parts of both. -/
theorem bind {write : Room → Renderer → RenderM α} {next : α → Room → Renderer → RenderM β}
    (hwrite : Composes ps write) (hnext : ∀ a, Composes qs (next a)) :
    Composes (ps ++ qs) (fun room render => write room render >>= fun a => next a room render) := by
  obtain ⟨assemble, hwrite⟩ := hwrite
  choose assembleNext hnext using hnext
  refine ⟨fun texts => assembleNext (assemble (texts.take ps.length)) (texts.drop ps.length),
    fun room render => ?_⟩
  simp only [writeEach_append, map_bind, hwrite, bind_map_left]
  refine writeEach_bind_congr fun texts htexts => ?_
  rw [hnext, ← htexts, Functor.map_map]
  congr 1
  funext later
  simp

/-- What is made of the result adds no part. -/
theorem map {write : Room → Renderer → RenderM α} (g : α → β) (hwrite : Composes ps write) :
    Composes ps (fun room render => write room render >>= fun a => Pure.pure (g a)) := by
  obtain ⟨assemble, hwrite⟩ := hwrite
  refine ⟨fun texts => g (assemble texts), fun room render => ?_⟩
  simp only [hwrite, bind_pure_comp, Functor.map_map]

/-- Equal steps are composed alike. -/
theorem congr {write write' : Room → Renderer → RenderM α} (hwrite : Composes ps write)
    (h : ∀ room render, write' room render = write room render) : Composes ps write' := by
  obtain ⟨assemble, hwrite⟩ := hwrite
  exact ⟨assemble, fun room render => (h room render).trans (hwrite room render)⟩

end Composes

/-! ## The parts that are written -/

/-- What is written of a binder: a hint as a form, a name not at all. -/
def Binder.parts : Binder → List Form
  | .name _ => []
  | .hint parts => [.hint parts]

/-- What is written of a binding. One that is invalid is printed. -/
def Binding.parts : Binding → List Part
  | .bind binder value => scripts binder.parts ++ [.script value]
  | .invalid forms => forms.map .source

/-- What is written of a member of a class. -/
def memberParts (f : Form) : List Form :=
  match Binder.ofForm? f with
  | some binder => binder.parts
  | none => [f]

/-- What is written of a list by what it means, from left to right. Of a call this is what is
written unless its head names a macro. -/
def Construct.parts : Construct → List Part
  | .define _ binder value => scripts binder.parts ++ scripts value.toList
  | .untyped _ => []
  | .assign target value => scripts [target, value]
  | .update target function => scripts [target, function]
  | .importLibrary _ => []
  | .negate operand => scripts [operand]
  | .yield value => scripts value.toList
  | .element sequence index => scripts [sequence, index]
  | .construct _ args => scripts args
  | .doBlock body => scripts body
  | .letBlock bindings body => bindings.flatMap Binding.parts ++ scripts body
  | .classType _ members body => scripts (members.flatMap memberParts) ++ scripts body
  | .lambda params body => scripts params ++ scripts body
  | .namedFunction _ _ params body => scripts params ++ scripts body
  | .defineMacro _ _ _ => []
  | .conditional condition yes no => scripts [condition, yes, no]
  | .branch condition yes no => scripts [condition, yes] ++ scripts no.toList
  | .loop condition body => scripts (condition :: body)
  | .methodCall _ object args => scripts (object :: args)
  | .field _ object => scripts [object]
  | .operation _ left right => scripts [left, right]
  | .entry _ object => scripts [object]
  | .call head args => scripts (head :: args)
  | .nothing => [.source (.list [])]

/-- Printing in two steps does nothing to the table in between. -/
theorem printed_bind (x : Except TooDeep α) (k : α → Except TooDeep β) :
    printed (x >>= k) = printed x >>= fun a => printed (k a) := by
  cases x <;> rfl

namespace Composes

/-- The arguments of a call are all parts. -/
theorem args (fs : List Form) : Composes (scripts fs) (fun _ render => renderArgs render fs) :=
  (each fs).map Script.commaSeparated

/-- Statements are composed of their forms. -/
theorem statements : ∀ fs : List Form,
    Composes (scripts fs) (fun _ render => renderStatements render fs)
  | [] => .pure ""
  | f :: fs => (single f).bind fun code => (statements fs).map (Script.statement code ++ ·)

/-- The body of a function is composed of its forms. -/
theorem body (void : Bool) : ∀ fs : List Form,
    Composes (scripts fs) (fun _ render => renderBody render void fs)
  | [] => .pure _
  | [f] =>
    (single f).map fun code => Script.statement (if void then code else Script.returning code)
  | f :: g :: fs =>
    (single f).bind fun code => (body void (g :: fs)).map (Script.statement code ++ ·)

/-- Only a hint is a part of a binder. -/
theorem binder : ∀ b : Binder, Composes (scripts b.parts) (fun _ render => renderBinder render b)
  | .name _ => .pure _
  | .hint parts => .single (.hint parts)

/-- An optional form is a part if it is there. -/
theorem option : ∀ o : Option Form,
    Composes (scripts o.toList) (fun _ render => renderOption render o)
  | none => .pure none
  | some f => (single f).map some

/-- Forms that are printed behind a first one are parts, each by itself. -/
theorem sourceMore : ∀ fs : List Form,
    Composes (fs.map .source) (fun room _ => printed (Form.printMoreWithin room fs))
  | [] => .pure ""
  | f :: fs => by
    refine ((part (.source f)).bind fun text =>
      (sourceMore fs).map fun texts => " " ++ text ++ texts).congr fun room _ => ?_
    simp only [Form.printMoreWithin, printed_bind, Part.write]
    rfl

/-- Forms that are printed together are parts, each by itself. -/
theorem sourceItems : ∀ fs : List Form,
    Composes (fs.map .source) (fun room _ => printed (Form.printItemsWithin room fs))
  | [] => .pure ""
  | f :: fs => by
    refine ((part (.source f)).bind fun text => (sourceMore fs).map (text ++ ·)).congr
      fun room _ => ?_
    simp only [Form.printItemsWithin, printed_bind, Part.write]
    rfl

/-- The remark for a form that cannot be written is composed of its source text. -/
theorem unmatched (kind : String) (f : Form) :
    Composes [.source f] (fun room _ => LispScript.unmatched room kind f) :=
  (part (.source f)).map fun text =>
    Script.remark ("Failed to match " ++ kind ++ " " ++ Text.commentSafe text)

/-- A binding is composed of its binder and its value, or of what cannot be bound. -/
theorem binding : ∀ b : Binding, Composes b.parts (fun room render => renderBinding room render b)
  | .bind b value => (binder b).bind fun name =>
    (single value).map fun code => Script.declaration name (some code)
  | .invalid forms => (sourceItems forms).map fun text =>
    Script.remark ("Failed to match binding [" ++ Text.commentSafe text ++ "]")

/-- Bindings are composed one behind the other. -/
theorem bindings : ∀ bs : List Binding,
    Composes (bs.flatMap Binding.parts) (fun room render => renderBindings room render bs)
  | [] => .pure ""
  | b :: bs => (binding b).bind fun code => (bindings bs).map (Script.statement code ++ ·)

/-- A member of a class is composed of its binder, or is itself a part. -/
theorem member (f : Form) :
    Composes (scripts (memberParts f)) (fun _ render => renderMember render f) := by
  unfold memberParts renderMember
  cases Binder.ofForm? f with
  | none => exact single f
  | some b => exact (binder b).map (Script.declaration · none)

/-- Members of a class are composed one behind the other. -/
theorem members : ∀ fs : List Form,
    Composes (scripts (fs.flatMap memberParts)) (fun _ render => renderMembers render fs)
  | [] => .pure ""
  | f :: fs => by
    rw [List.flatMap_cons, scripts, List.map_append]
    exact (member f).bind fun code => (members fs).map (Script.statement code ++ ·)

/-- A map is composed of its items and, if one is left over, of its own source text. -/
theorem mapItems (fs : List Form) :
    Composes (scripts fs ++ if fs.length % 2 = 0 then [] else [.source (.map fs)])
      (fun room render => renderMap room render fs) := by
  -- there are as many texts as items, so it is known beforehand whether one is left over
  have hcount (room : Room) (render : Renderer) {k k' : List String → RenderM String}
      (h : ∀ codes, codes.length = fs.length → k codes = k' codes) :
      (renderEach render fs >>= k) = renderEach render fs >>= k' := by
    rw [renderEach_eq_writeEach room]
    exact writeEach_bind_congr fun codes hcodes => h codes (by simpa [scripts] using hcodes)
  split
  · rename_i heven
    refine ((each fs).bind fun codes => .pure (Script.dictionary (pairs codes))).congr
      fun room render => hcount room render fun codes hcodes => ?_
    rw [if_pos (by rw [hcodes, heven])]
  · rename_i hodd
    refine ((each fs).bind fun codes => (part (.source (.map fs))).map fun text =>
      Script.remark ("Map literal needs an even number of forms, got " ++
        toString codes.length ++ ": " ++ Text.commentSafe text)).congr
      fun room render => hcount room render fun codes hcodes => ?_
    rw [if_neg (by rw [hcodes]; exact hodd)]
    rfl

/-- A call is composed of its head and its arguments. -/
theorem call (head : Form) (fs : List Form) :
    Composes (scripts (head :: fs)) (fun _ render => renderCall render head fs) :=
  (single head).bind fun function => (args fs).map (Script.call function)

end Composes

/-- Whether a list of this meaning is written by its parts alone: it neither defines a macro nor
could be a call of one. -/
def Construct.isPlain : Construct → Bool
  | .defineMacro _ _ _ => false
  | .call (.word _) _ => false
  | _ => true

/-- What is written by its parts alone is composed of them. -/
theorem Construct.composes {c : Construct} (expand : Expander) (hplain : c.isPlain = true) :
    Composes c.parts fun room render => c.render expand room render := by
  cases c with
  | define static b value =>
    exact (Composes.binder b).bind fun name => (Composes.option value).map _
  | untyped name => exact .pure _
  | assign target value =>
    exact (Composes.single target).bind fun left =>
      (Composes.single value).map (Script.assignment left)
  | update target function =>
    exact (Composes.single target).bind fun left =>
      (Composes.single function).map (Script.updating left)
  | importLibrary library => exact .pure _
  | negate operand => exact (Composes.single operand).map Script.negation
  | yield value => exact (Composes.option value).map Script.yielding
  | element sequence index =>
    exact (Composes.single sequence).bind fun code =>
      (Composes.single index).map (Script.element code)
  | construct typeName args => exact (Composes.args args).map (Script.construction typeName)
  | doBlock body => exact (Composes.body false body).map Script.doBlock
  | letBlock bindings body =>
    exact (Composes.bindings bindings).bind fun declarations =>
      (Composes.body false body).map (Script.letBlock declarations)
  | classType name members body =>
    exact (Composes.members members).bind fun declarations =>
      (Composes.statements body).map (Script.classDefinition name declarations)
  | lambda params body =>
    exact (Composes.args params).bind fun parameters => (Composes.body _ body).map _
  | namedFunction style name params body =>
    exact (Composes.args params).bind fun parameters => (Composes.body _ body).map _
  | defineMacro name params body => simp [isPlain] at hplain
  | conditional condition yes no =>
    exact (Composes.single condition).bind fun test => (Composes.single yes).bind fun left =>
      (Composes.single no).map (Script.conditional test left)
  | branch condition yes no =>
    exact (Composes.single condition).bind fun test => (Composes.single yes).bind fun left =>
      (Composes.option no).map _
  | loop condition body =>
    exact (Composes.single condition).bind fun test =>
      (Composes.body true body).map (Script.loop test)
  | methodCall name object args =>
    exact (Composes.single object).bind fun code =>
      (Composes.args args).map (Script.methodCall name code)
  | field name object => exact (Composes.single object).map (Script.field name)
  | operation symbol left right =>
    exact (Composes.single left).bind fun a =>
      (Composes.single right).map (Script.operation symbol a)
  | entry key object => exact (Composes.single object).map (Script.entry key)
  | call head args =>
    cases head with
    | word name => simp [isPlain] at hplain
    | _ => exact Composes.call _ args
  | nothing => exact .unmatched _ _

/-- What is written by its parts alone does not depend on how macros are expanded. -/
theorem Construct.render_congr {c : Construct} (hplain : c.isPlain = true)
    (expand expand' : Expander) : c.render expand = c.render expand' := by
  cases c with
  | defineMacro name params body => simp [isPlain] at hplain
  | call head args =>
    cases head with
    | word name => simp [isPlain] at hplain
    | _ => rfl
  | _ => rfl

/-! ## Where the parts come from -/

/-- A form that is written as script is one of the forms. -/
theorem form_mem_of_mem_scripts {fs : List Form} {p : Part} (h : p ∈ scripts fs) : p.form ∈ fs := by
  obtain ⟨f, hf, rfl⟩ := List.mem_map.mp h
  exact hf

/-- `g` is one of the forms, or an item of a vector among them. -/
def AmongItems (fs : List Form) (g : Form) : Prop :=
  g ∈ fs ∨ ∃ items, .vector items ∈ fs ∧ g ∈ items

/-- The items of a vector and then the forms behind it. -/
theorem AmongItems.of_mem_append {tail items body : List Form} {ps : List Part} {p : Part}
    (hitems : .vector items ∈ tail) (hbody : body ⊆ tail) (hps : p ∈ ps → p.form ∈ items)
    (hp : p ∈ ps ++ scripts body) : AmongItems tail p.form := by
  rcases List.mem_append.mp hp with hp | hp
  · exact Or.inr ⟨items, hitems, hps hp⟩
  · exact Or.inl (hbody (form_mem_of_mem_scripts hp))

/-- What is written of the binder that a form is, is the form. -/
theorem Binder.parts_of_ofForm? {f : Form} {b : Binder} (h : Binder.ofForm? f = some b) :
    ∀ g ∈ b.parts, g = f := by
  intro g hg
  unfold Binder.ofForm? at h
  split at h
  · cases h
    simp [parts] at hg
  · cases h
    simpa [parts] using hg
  · cases h

/-- What is written of a member of a class is the member. -/
theorem eq_of_mem_memberParts {f g : Form} (h : g ∈ memberParts f) : g = f := by
  unfold memberParts at h
  split at h
  · exact Binder.parts_of_ofForm? ‹_› g h
  · simpa using h

/-- What is written of members of a class is among them. -/
theorem mem_of_mem_members {fs : List Form} {g : Form} (h : g ∈ fs.flatMap memberParts) :
    g ∈ fs := by
  obtain ⟨f, hf, hg⟩ := List.mem_flatMap.mp h
  rwa [eq_of_mem_memberParts hg]

/-- What is written of a pair that may be a binding is among the two forms. -/
theorem mem_of_mem_ofPair {f value : Form} {p : Part} (h : p ∈ (Binding.ofPair f value).parts) :
    p.form ∈ [f, value] := by
  unfold Binding.ofPair at h
  split at h
  · rename_i b hb
    rcases List.mem_append.mp h with h | h
    · rw [Binder.parts_of_ofForm? hb _ (form_mem_of_mem_scripts h)]
      exact List.mem_cons_self
    · rw [List.mem_singleton.mp h]
      simp [Part.form]
  · obtain ⟨g, hg, rfl⟩ := List.mem_map.mp h
    exact hg

/-- What is written of bindings is among their forms. -/
theorem mem_of_mem_bindings {fs : List Form} {p : Part}
    (h : p ∈ (Binding.ofForms fs).flatMap Binding.parts) : p.form ∈ fs := by
  fun_induction Binding.ofForms fs with
  | case1 => simp at h
  | case2 single =>
    obtain rfl : p = .source single := by simpa [Binding.parts] using h
    exact List.mem_cons_self
  | case3 binder value rest ih =>
    rw [List.flatMap_cons, List.mem_append] at h
    rcases h with h | h
    · exact List.mem_append_left rest (mem_of_mem_ofPair h)
    · simp [ih h]

namespace Construct

/-- What a declaration writes stands behind its name. -/
theorem amongItems_of_declaration? {static : Bool} {tail : List Form} {c : Construct} {p : Part}
    (h : declaration? static tail = some c) (hp : p ∈ c.parts) : AmongItems tail p.form := by
  revert h
  fun_cases declaration? static tail
  all_goals
    intro h
    cases h
  all_goals
    exact Or.inl (form_mem_of_mem_scripts (by simp_all [parts, Binder.parts, scripts]))

/-- What the definition of a named function writes stands behind its name. -/
theorem amongItems_of_namedFunction? {style : FunctionStyle} {tail : List Form} {c : Construct}
    {p : Part} (h : namedFunction? style tail = some c) (hp : p ∈ c.parts) :
    AmongItems tail p.form := by
  revert h
  fun_cases namedFunction? style tail with
  | case1 name params body =>
    intro h
    cases h
    exact .of_mem_append (by simp) (fun _ h => by simp [h]) form_mem_of_mem_scripts hp
  | case2 =>
    intro h
    cases h

/-- What a special construct writes stands behind its name. -/
theorem amongItems_of_special? {name : String} {tail : List Form} {c : Construct} {p : Part}
    (h : special? name tail = some c) (hp : p ∈ c.parts) : AmongItems tail p.form := by
  revert h
  fun_cases special? name tail
  case case1 | case2 => exact fun h => amongItems_of_declaration? h hp
  case case25 | case26 | case27 => exact fun h => amongItems_of_namedFunction? h hp
  case case19 bindings body =>
    intro h
    cases h
    have hbody : body ⊆ .vector bindings :: body := fun _ h => List.mem_cons_of_mem _ h
    exact .of_mem_append List.mem_cons_self hbody mem_of_mem_bindings hp
  case case21 name members body =>
    intro h
    cases h
    have hbody : body ⊆ .word name :: .vector members :: body := fun _ h => by simp [h]
    exact .of_mem_append (List.mem_cons_of_mem _ List.mem_cons_self) hbody
      (fun h => mem_of_mem_members (form_mem_of_mem_scripts h)) hp
  case case23 params body =>
    intro h
    cases h
    have hbody : body ⊆ .vector params :: body := fun _ h => List.mem_cons_of_mem _ h
    exact .of_mem_append List.mem_cons_self hbody form_mem_of_mem_scripts hp
  all_goals
    intro h
    cases h
  all_goals exact Or.inl (form_mem_of_mem_scripts (by simp_all [parts, scripts]))

/-- What is written of a list that is no special construct is among its items. -/
theorem amongItems_of_ordinary {head : Form} {tail : List Form} {p : Part}
    (hp : p ∈ (ordinary head tail).parts) : AmongItems (head :: tail) p.form := by
  revert hp
  fun_cases ordinary head tail
  all_goals
    intro hp
    exact Or.inl (form_mem_of_mem_scripts (by simp_all [parts, scripts]))

/-- A list is a special construct that its head names, or what its head makes of it otherwise. -/
theorem ofItems_cons (head : Form) (tail : List Form) :
    (∃ name, specialName? head = some name ∧
      special? name tail = some (ofItems (head :: tail))) ∨
    ofItems (head :: tail) = ordinary head tail := by
  rw [ofItems]
  cases hspecial : (specialName? head).bind (special? · tail) with
  | none => exact Or.inr rfl
  | some c => exact Or.inl (Option.bind_eq_some_iff.mp hspecial)

/-- What is written of a list that does not call a macro are items of it, or items of a vector in
it. Only the empty list is itself printed. -/
theorem amongItems_of_ofItems {items : List Form} {p : Part} (hp : p ∈ (ofItems items).parts) :
    AmongItems items p.form ∨ p = .source (.list items) := by
  cases items with
  | nil => exact Or.inr (List.mem_singleton.mp hp)
  | cons head tail =>
    refine Or.inl ?_
    rcases ofItems_cons head tail with ⟨name, -, hspecial⟩ | hordinary
    · rcases amongItems_of_special? hspecial hp with hp | ⟨sub, hsub, hp⟩
      · exact Or.inl (List.mem_cons_of_mem _ hp)
      · exact Or.inr ⟨sub, List.mem_cons_of_mem _ hsub, hp⟩
    · rw [hordinary] at hp
      exact amongItems_of_ordinary hp

/-- A special construct is never a call, and defines a macro only in one shape. -/
theorem special?_shape {name : String} {tail : List Form} {c : Construct}
    (h : special? name tail = some c) :
    (∀ head args, c ≠ .call head args) ∧ ∀ macroName params body,
      c = .defineMacro macroName params body →
        name = "defmacro" ∧ tail = [.word macroName, .vector params, body] := by
  revert h
  fun_cases special? name tail
  case case1 | case2 =>
    fun_cases declaration?
    all_goals
      intro h
      cases h
    all_goals simp
  case case25 | case26 | case27 =>
    fun_cases namedFunction?
    all_goals
      intro h
      cases h
    all_goals simp
  all_goals
    intro h
    cases h
  all_goals simp

/-- An ordinary list is called as it stands or written in some other way, but defines no macro. -/
theorem ordinary_shape (head : Form) (tail : List Form) :
    (∀ head' args, ordinary head tail = .call head' args → head :: tail = head' :: args) ∧
      ∀ macroName params body, ordinary head tail ≠ .defineMacro macroName params body := by
  fun_cases ordinary head tail <;> simp

/-- A list defines a macro only in one shape. -/
theorem eq_of_ofItems_eq_defineMacro {items params : List Form} {name : String} {body : Form}
    (h : ofItems items = .defineMacro name params body) :
    items = [.word "defmacro", .word name, .vector params, body] := by
  cases items with
  | nil => simp [ofItems] at h
  | cons head tail =>
    rcases ofItems_cons head tail with ⟨word, hword, hspecial⟩ | hordinary
    · obtain ⟨rfl, rfl⟩ := (special?_shape hspecial).2 _ _ _ h
      cases head with
      | word _ => rw [Option.some.inj hword]
      | yield => exact absurd (Option.some.inj hword) (by decide)
      | _ => simp [specialName?] at hword
    · rw [hordinary] at h
      exact absurd h ((ordinary_shape head tail).2 _ _ _)

/-- A list that is a call has the called form as its head. -/
theorem eq_of_ofItems_eq_call {items args : List Form} {head : Form}
    (h : ofItems items = .call head args) : items = head :: args := by
  cases items with
  | nil => simp [ofItems] at h
  | cons head' tail =>
    rcases ofItems_cons head' tail with ⟨word, -, hspecial⟩ | hordinary
    · exact absurd h ((special?_shape hspecial).1 _ _)
    · rw [hordinary] at h
      exact (ordinary_shape head' tail).1 _ _ h

/-- A list that is a call of its first word has no special form of that name. -/
theorem special?_eq_none_of_call {name : String} {args : List Form}
    (h : ofItems (.word name :: args) = .call (.word name) args) : special? name args = none := by
  cases hspecial : special? name args with
  | none => rfl
  | some c =>
    have hmeaning : ofItems (.word name :: args) = c := by
      simp only [ofItems, specialName?, Option.bind_some, hspecial, Option.getD_some]
    exact absurd (hmeaning.symm.trans h) ((special?_shape hspecial).1 _ _)

end Construct

/-! ## One level of a form -/

/-- What is written of a form from left to right, unless it is a call of a macro. A form that
cannot be written is printed itself. -/
def Form.parts : Form → List Part
  | .vector items => scripts items
  | .map items => scripts items ++ if items.length % 2 = 0 then [] else [.source (.map items)]
  | .list items => (Construct.ofItems items).parts
  | .shortLambda body => [.script body]
  | .getter target => [.script target]
  | .hint parts => if (Form.hint parts).hintNames?.isSome then [] else [.source (.hint parts)]
  | .operator symbol =>
    if (Script.operatorFunction? symbol).isSome then [] else [.source (.operator symbol)]
  | .yield => [.source .yield]
  | .hole => [.source .hole]
  | _ => []

/-- What writing one level of a form does. -/
inductive Level (f : Form) : Prop
  /-- A macro is defined, if there is room for printing its parameters. -/
  | definition (name : String) (params : List Form) (body : Form)
      (shape : f = .list [.word "defmacro", .word name, .vector params, body])
      (run : ∀ expand room render table, renderLevel expand room render f table =
        if room.holds (Form.heights params) then
          (.ok (definedRemark name), table.define name { params := params.map Form.print, body })
        else (.error {}, table))
  /-- The head names no special construct of this shape, and the macro that it names is expanded. If
  there is none the parts are written. -/
  | call (name : String) (args : List Form) (assemble : List String → String)
      (shape : f = .list (.word name :: args))
      (run : ∀ expand room render table, renderLevel expand room render f table =
        match table.lookup? name with
        | some m => expand render name m table
        | none => (assemble <$> writeEach room render f.parts) table)
      (declined : Construct.special? name args = none)
  /-- The parts are written. -/
  | plain (assemble : List String → String)
      (run : ∀ expand room render,
        renderLevel expand room render f = assemble <$> writeEach room render f.parts)

/-- A form whose level is composed of its parts, however macros are expanded, writes just these. -/
theorem Level.of_composes {f : Form}
    (h : Composes f.parts fun room render => renderLevel expand room render f)
    (hexpand : ∀ other room render,
      renderLevel other room render f = renderLevel expand room render f) :
    Level f := by
  obtain ⟨assemble, hassemble⟩ := h
  exact .plain assemble fun other room render =>
    (hexpand other room render).trans (hassemble room render)

/-- A list that neither defines a macro nor could call one writes its parts. -/
theorem level_of_isPlain {items : List Form} (hplain : (Construct.ofItems items).isPlain = true) :
    Level (.list items) :=
  .of_composes (Construct.composes expand hplain) fun other room render =>
    congrFun (congrFun (Construct.render_congr hplain other expand) room) render

/-- A list that is a call of a word expands the macro of that word, if there is one. -/
theorem renderLevel_call {name : String} {args : List Form}
    (h : Construct.ofItems (.word name :: args) = .call (.word name) args) (expand : Expander)
    (room : Room) (render : Renderer) (table : MacroTable) :
    renderLevel expand room render (.list (.word name :: args)) table =
      match table.lookup? name with
      | some m => expand render name m table
      | none => renderCall render (.word name) args table := by
  rw [renderLevel, h]
  change (match table.lookup? name with
    | some m => expand render name m
    | none => renderCall render (.word name) args) table = _
  cases table.lookup? name <;> rfl

/-- A call of a word expands a macro or writes the head and the arguments. -/
theorem level_call {name : String} {args : List Form}
    (h : Construct.ofItems (.word name :: args) = .call (.word name) args) :
    Level (.list (.word name :: args)) := by
  obtain ⟨assemble, hassemble⟩ := Composes.call (.word name) args
  refine .call name args assemble rfl ?_ (Construct.special?_eq_none_of_call h)
  intro expand room render table
  have hparts : (Form.list (.word name :: args)).parts = scripts (.word name :: args) := by
    rw [Form.parts, h]
    rfl
  rw [renderLevel_call h, hparts, ← hassemble room render]

/-- Where there is room for its parameters a macro is defined, and otherwise nothing is done. -/
theorem render_defineMacro (name : String) (params : List Form) (body : Form) (expand : Expander)
    (room : Room) (render : Renderer) (table : MacroTable) :
    (Construct.defineMacro name params body).render expand room render table =
      if room.holds (Form.heights params) then
        (.ok (definedRemark name), table.define name { params := params.map Form.print, body })
      else (.error {}, table) := by
  rw [Construct.render, Form.mapM_printWithin_eq, Room.within]
  split <;> rfl

/-- A list defines a macro, calls a word or writes its parts. -/
theorem level_list (items : List Form) : Level (.list items) := by
  cases hmeaning : Construct.ofItems items with
  | defineMacro name params body =>
    refine .definition name params body ?_ ?_
    · rw [Construct.eq_of_ofItems_eq_defineMacro hmeaning]
    · intro expand room render table
      rw [renderLevel, hmeaning, render_defineMacro]
  | call head args =>
    obtain rfl := Construct.eq_of_ofItems_eq_call hmeaning
    cases head with
    | word name => exact level_call hmeaning
    | _ => exact level_of_isPlain (by rw [hmeaning]; rfl)
  | _ => exact level_of_isPlain (by rw [hmeaning]; rfl)

/-- Writing one level of a form does one of three things. -/
theorem level (f : Form) : Level f := by
  cases f with
  | list items => exact level_list items
  | vector items => exact .of_composes ((Composes.each items).map Script.array) fun _ _ _ => rfl
  | map items => exact .of_composes (Composes.mapItems items) fun _ _ _ => rfl
  | shortLambda body => exact .of_composes ((Composes.body false [body]).map _) fun _ _ _ => rfl
  | getter target =>
    exact .of_composes ((Composes.single target).map Script.entryFunction) fun _ _ _ => rfl
  | hint parts =>
    refine .of_composes ?_ fun _ _ _ => rfl
    simp only [Form.parts, renderLevel]
    cases (Form.hint parts).hintNames? with
    | none => exact .unmatched _ _
    | some names => exact .pure _
  | operator symbol =>
    refine .of_composes ?_ fun _ _ _ => rfl
    simp only [Form.parts, renderLevel]
    cases Script.operatorFunction? symbol with
    | none => exact .unmatched _ _
    | some function => exact .pure _
  | yield | hole => exact .of_composes (.unmatched _ _) fun _ _ _ => rfl
  | _ => exact .of_composes (.pure _) fun _ _ _ => rfl

/-! ## Expansion of one macro -/

/-- A call of an active name is reported. -/
theorem expand_of_mem {name : String} {table : MacroTable} (h : name ∈ table.active)
    (render : Renderer) (m : Macro) : expand render name m table =
      (.ok (Script.remark ("Recursive expansion of macro " ++ name)), table) := by
  simp only [expand, if_pos h]
  rfl

/-- A call of another name writes the body, and the name is active meanwhile. -/
theorem expand_of_not_mem {name : String} {table : MacroTable} (h : name ∉ table.active)
    (render : Renderer) (m : Macro) : expand render name m table =
      ((render m.body (table.activate name)).1,
        (render m.body (table.activate name)).2.deactivate name) := by
  simp only [expand, if_neg h]
  rfl

/-! ## The parts lie below the form -/

/-- `g` is nested less deeply than `f`, and every form at any depth of it is one at some depth of
`f`. -/
structure Form.Below (g f : Form) : Prop where
  nesting_lt : g.nesting < f.nesting
  walk_subset : g.walk ⊆ f.walk

/-- Items are below the bracketed form that they stand in. -/
theorem Form.below_of_mem_items {items : List Form} {g : Form} (hg : g ∈ items) :
    g.Below (.list items) ∧ g.Below (.vector items) ∧ g.Below (.map items) := by
  have hle := Form.nestings_le_iff.mp (Nat.le_refl (Form.nestings items)) g hg
  have hlt := Nat.lt_succ_of_le hle
  exact ⟨⟨hlt, walk_subset_of_mem_children hg⟩, ⟨hlt, walk_subset_of_mem_children hg⟩,
    ⟨hlt, walk_subset_of_mem_children hg⟩⟩

/-- What is below a form is below the forms above it. -/
theorem Form.Below.trans {f g h : Form} (hfg : f.Below g) (hgh : g.Below h) : f.Below h :=
  ⟨Nat.lt_trans hfg.nesting_lt hgh.nesting_lt, fun _ hx => hgh.walk_subset (hfg.walk_subset hx)⟩

/-- What is written of a form lies below it. Only a form that is printed can be the form itself. -/
theorem Form.below_or_eq_of_mem_parts {f : Form} {p : Part} (hp : p ∈ f.parts) :
    p.form.Below f ∨ p = .source f := by
  cases f with
  | list items =>
    refine (Construct.amongItems_of_ofItems hp).imp_left fun hp => ?_
    rcases hp with hp | ⟨sub, hsub, hp⟩
    · exact (below_of_mem_items hp).1
    · exact (below_of_mem_items hp).2.1.trans (below_of_mem_items hsub).1
  | vector items => exact Or.inl (below_of_mem_items (form_mem_of_mem_scripts hp)).2.1
  | map items =>
    rcases List.mem_append.mp hp with hp | hp
    · exact Or.inl (below_of_mem_items (form_mem_of_mem_scripts hp)).2.2
    · split at hp
      · cases hp
      · exact Or.inr (List.mem_singleton.mp hp)
  | shortLambda inside | getter inside =>
    obtain rfl := List.mem_singleton.mp hp
    exact Or.inl ⟨Nat.lt_succ_self _, walk_subset_of_mem_children List.mem_cons_self⟩
  | hint inside | operator symbol =>
    rw [Form.parts] at hp
    split at hp
    · cases hp
    · exact Or.inr (List.mem_singleton.mp hp)
  | yield | hole => exact Or.inr (List.mem_singleton.mp hp)
  | _ => exact absurd hp List.not_mem_nil

/-- What is written of a form as script lies below it. -/
theorem Form.below_of_mem_parts {f g : Form} (hg : .script g ∈ f.parts) : g.Below f := by
  rcases below_or_eq_of_mem_parts hg with h | h
  · exact h
  · cases h

/-- What is printed of a form is not higher than it. -/
theorem Form.height_le_of_mem_parts {f g : Form} (hg : .source g ∈ f.parts) :
    g.height ≤ f.height := by
  rcases below_or_eq_of_mem_parts hg with h | h
  · exact height_le_of_mem_walk (h.walk_subset g.mem_walk_self)
  · cases h
    exact Nat.le_refl _

end LispScript
