import LispScript.Proofs.Expansion
import LispScript.Proofs.Remarks
import LispScript.Proofs.Sessions
import LispScript.Proofs.Splitting

/-!
# What is written is code

Writing a form that a program can hold gives code, whatever macros are expanded on the way, as long
as their bodies are forms that a program can hold too. Each step of writing keeps the table like
that, because it only defines macros that stand in the form it writes.
-/

namespace LispScript

open Script (IsCode IsBody)

variable {allowed : List Char → Prop} {α β : Type}

/-! ## Forms that are written as code -/

/-- A program can hold the form, and the operators between two operands in it are of the allowed
sort. -/
structure Form.Writable (allowed : List Char → Prop) (f : Form) : Prop where
  readable : f.readable = true
  operators : ∀ symbol left right, .list [.operator symbol, left, right] ∈ f.walk →
    allowed symbol.toList

namespace Form.Writable

variable {f g : Form} {items : List Form} {name : String}

/-- A form that a program can hold can be written if all its parts stand in one that can. -/
theorem of_walk_subset (h : f.Writable allowed) (hg : g.readable = true) (hsub : g.walk ⊆ f.walk) :
    g.Writable allowed :=
  ⟨hg, fun symbol left right hmem => h.operators symbol left right (hsub hmem)⟩

/-- The items of a bracketed form can be written if it can. -/
theorem of_mem_items (b : Bracket) (h : (b.form items).Writable allowed) (hg : g ∈ items) :
    g.Writable allowed := by
  have hitems := h.readable
  rw [readable_bracket] at hitems
  refine h.of_walk_subset (readableAll_iff.mp hitems g hg) (walk_subset_of_mem_children ?_)
  cases b <;> exact hg

/-- So can the items of a list. -/
theorem of_mem_list (h : (list items).Writable allowed) (hg : g ∈ items) : g.Writable allowed :=
  of_mem_items .round h hg

/-- So can the items of a vector. -/
theorem of_mem_vector (h : (vector items).Writable allowed) (hg : g ∈ items) : g.Writable allowed :=
  of_mem_items .square h hg

/-- The body of a short lambda can be written if the lambda can. -/
theorem shortLambda_body (h : (shortLambda f).Writable allowed) : f.Writable allowed := by
  have hreadable := h.readable
  simp only [Form.readable, Bool.and_eq_true] at hreadable
  exact h.of_walk_subset hreadable.2 (walk_subset_of_mem_children List.mem_cons_self)

/-- The target of a getter can be written if the getter can. -/
theorem getter_target (h : (getter f).Writable allowed) : f.Writable allowed := by
  have hreadable := h.readable
  simp only [Form.readable, Bool.and_eq_true] at hreadable
  exact h.of_walk_subset hreadable.2 (walk_subset_of_mem_children List.mem_cons_self)

/-- A word that can be written is one of the lexer. -/
theorem isWord (h : (word name).Writable allowed) : isWord name.toList = true := by
  have hreadable := h.readable
  simp only [Form.readable, Bool.and_eq_true] at hreadable
  exact hreadable.1

end Form.Writable

/-! ## Meanings that are written as code -/

/-- What declares a variable is a word or a hint that a program can hold. -/
def Binder.Writable (allowed : List Char → Prop) : Binder → Prop
  | .name w => (Form.word w).Writable allowed
  | .hint parts => (Form.hint parts).Writable allowed

/-- The forms of a binding are ones that a program can hold. -/
def Binding.Writable (allowed : List Char → Prop) : Binding → Prop
  | .bind binder value => binder.Writable allowed ∧ value.Writable allowed
  | .invalid forms => ∀ f ∈ forms, f.Writable allowed

/-- All that stands in a list of this meaning can be written as code. -/
def Construct.Writable (allowed : List Char → Prop) : Construct → Prop
  | .define _ binder value => binder.Writable allowed ∧ ∀ f ∈ value, f.Writable allowed
  | .untyped name => (Form.word name).Writable allowed
  | .assign target value => target.Writable allowed ∧ value.Writable allowed
  | .update target function => target.Writable allowed ∧ function.Writable allowed
  | .importLibrary library => (Form.word library).Writable allowed
  | .negate operand => operand.Writable allowed
  | .yield value => ∀ f ∈ value, f.Writable allowed
  | .element sequence index => sequence.Writable allowed ∧ index.Writable allowed
  | .construct typeName args =>
    (Form.word typeName).Writable allowed ∧ ∀ f ∈ args, f.Writable allowed
  | .doBlock body => ∀ f ∈ body, f.Writable allowed
  | .letBlock bindings body =>
    (∀ b ∈ bindings, b.Writable allowed) ∧ ∀ f ∈ body, f.Writable allowed
  | .classType name members body =>
    (Form.word name).Writable allowed ∧ (∀ f ∈ members, f.Writable allowed) ∧
      ∀ f ∈ body, f.Writable allowed
  | .lambda params body =>
    (∀ f ∈ params, f.Writable allowed) ∧ ∀ f ∈ body, f.Writable allowed
  | .namedFunction _ name params body =>
    (Form.word name).Writable allowed ∧ (∀ f ∈ params, f.Writable allowed) ∧
      ∀ f ∈ body, f.Writable allowed
  | .defineMacro name _ body => (Form.word name).Writable allowed ∧ body.Writable allowed
  | .conditional condition yes no =>
    condition.Writable allowed ∧ yes.Writable allowed ∧ no.Writable allowed
  | .branch condition yes no =>
    condition.Writable allowed ∧ yes.Writable allowed ∧ ∀ f ∈ no, f.Writable allowed
  | .loop condition body => condition.Writable allowed ∧ ∀ f ∈ body, f.Writable allowed
  | .methodCall name object args =>
    (Form.method name).Writable allowed ∧ object.Writable allowed ∧ ∀ f ∈ args, f.Writable allowed
  | .field name object => (Form.accessor name).Writable allowed ∧ object.Writable allowed
  | .operation symbol left right =>
    (Form.operator symbol).Writable allowed ∧ allowed symbol.toList ∧ left.Writable allowed ∧
      right.Writable allowed
  | .entry key object => (Form.keyword key).Writable allowed ∧ object.Writable allowed
  | .call head args => head.Writable allowed ∧ ∀ f ∈ args, f.Writable allowed
  | .nothing => True

/-- What a form declares can be written if the form can. -/
theorem Binder.writable_of_ofForm? {f : Form} {b : Binder} (h : Binder.ofForm? f = some b)
    (hf : f.Writable allowed) : b.Writable allowed := by
  revert h
  fun_cases Binder.ofForm? f
  all_goals
    intro h
    cases h
  all_goals exact hf

/-- The bindings of a vector can be written if its forms can. -/
theorem Binding.writable_ofForms {fs : List Form} (h : ∀ f ∈ fs, f.Writable allowed) :
    ∀ b ∈ Binding.ofForms fs, b.Writable allowed := by
  fun_induction Binding.ofForms fs with
  | case1 => simp
  | case2 single => simpa [Binding.Writable] using h
  | case3 binder value rest ih =>
    simp only [List.forall_mem_cons] at h
    refine List.forall_mem_cons.mpr ⟨?_, ih h.2.2⟩
    unfold Binding.ofPair
    split
    · exact ⟨Binder.writable_of_ofForm? ‹_› h.1, h.2.1⟩
    · simpa [Binding.Writable] using ⟨h.1, h.2.1⟩

namespace Construct

/-- A declaration can be written if the forms that it is made of can. -/
theorem writable_of_declaration? {static : Bool} {tail : List Form} {c : Construct}
    (h : declaration? static tail = some c) (htail : ∀ f ∈ tail, f.Writable allowed) :
    c.Writable allowed := by
  revert h
  fun_cases declaration? static tail
  all_goals
    intro h
    cases h
  all_goals simp_all [Construct.Writable, Binder.Writable]

/-- So can a function with a name. -/
theorem writable_of_namedFunction? {style : FunctionStyle} {tail : List Form} {c : Construct}
    (h : namedFunction? style tail = some c) (htail : ∀ f ∈ tail, f.Writable allowed) :
    c.Writable allowed := by
  revert h
  fun_cases namedFunction? style tail with
  | case1 name params body =>
    intro h
    cases h
    simp only [List.forall_mem_cons] at htail
    exact ⟨htail.1, fun f hf => htail.2.1.of_mem_vector hf, htail.2.2⟩
  | case2 =>
    intro h
    cases h

/-- So can every special construct. -/
theorem writable_of_special? {name : String} {tail : List Form} {c : Construct}
    (h : special? name tail = some c) (htail : ∀ f ∈ tail, f.Writable allowed) :
    c.Writable allowed := by
  revert h
  fun_cases special? name tail
  case case1 | case2 => exact fun h => writable_of_declaration? h htail
  case case25 | case26 | case27 => exact fun h => writable_of_namedFunction? h htail
  case case19 bindings body =>
    intro h
    cases h
    rw [List.forall_mem_cons] at htail
    exact ⟨Binding.writable_ofForms fun f hf => htail.1.of_mem_vector hf, htail.2⟩
  case case21 name members body =>
    intro h
    cases h
    simp only [List.forall_mem_cons] at htail
    exact ⟨htail.1, fun f hf => htail.2.1.of_mem_vector hf, htail.2.2⟩
  case case23 params body =>
    intro h
    cases h
    rw [List.forall_mem_cons] at htail
    exact ⟨fun f hf => htail.1.of_mem_vector hf, htail.2⟩
  all_goals
    intro h
    cases h
  all_goals simp_all [Construct.Writable]

/-- So can what a list means otherwise. -/
theorem writable_ordinary {head : Form} {tail : List Form}
    (h : (Form.list (head :: tail)).Writable allowed) : (ordinary head tail).Writable allowed := by
  have hitems : ∀ f ∈ head :: tail, f.Writable allowed := fun f hf => h.of_mem_list hf
  revert hitems
  fun_cases ordinary head tail with
  | case3 symbol left right =>
    intro hitems
    have hallowed := h.operators symbol left right (Form.mem_walk_self _)
    simp_all [Construct.Writable]
  | _ => simp +contextual [Construct.Writable]

/-- A list that can be written means something that can be written. -/
theorem writable_ofItems {items : List Form} (h : (Form.list items).Writable allowed) :
    (ofItems items).Writable allowed := by
  cases items with
  | nil => trivial
  | cons head tail =>
    rcases ofItems_cons head tail with ⟨name, -, hspecial⟩ | hordinary
    · exact writable_of_special? hspecial fun f hf => h.of_mem_list (List.mem_cons_of_mem _ hf)
    · rw [hordinary]
      exact writable_ordinary h

end Construct

/-! ## Steps that write code -/

/-- The bodies of all macros can be written as code. -/
def MacroTable.Writable (allowed : List Char → Prop) (table : MacroTable) : Prop :=
  ∀ entry ∈ table.entries, entry.2.body.Writable allowed

/-- A table stays writable if a macro with such a body is defined. -/
theorem MacroTable.Writable.define {table : MacroTable} (h : table.Writable allowed) {name : String}
    {m : Macro} (hm : m.body.Writable allowed) : (table.define name m).Writable allowed := by
  intro entry hentry
  rcases Table.mem_assign hentry with rfl | hentry
  · exact hm
  · exact h entry hentry

/-- Behind the step the bodies of all macros can still be written as code, and what it returns has
the property, unless it fails. -/
def Ensures (allowed : List Char → Prop) (P : α → Prop) (step : RenderM α) : Prop :=
  ∀ table, table.Writable allowed →
    (step table).2.Writable allowed ∧ ∀ a, (step table).1 = .ok a → P a

namespace Ensures

variable {P : α → Prop} {Q : β → Prop}

/-- A step that only returns keeps the table. -/
theorem pure {a : α} (h : P a) : Ensures allowed P (Pure.pure a) :=
  fun _ htable => ⟨htable, fun _ ha => Except.ok.inj ha ▸ h⟩

/-- Steps one after the other ensure what the last one does, if the first ensures what it needs. -/
theorem bind {step : RenderM α} {next : α → RenderM β} (hstep : Ensures allowed P step)
    (hnext : ∀ a, P a → Ensures allowed Q (next a)) : Ensures allowed Q (step >>= next) := by
  intro table htable
  obtain ⟨hbehind, hresult⟩ := hstep table htable
  cases hrun : step table with
  | mk result behind =>
    rw [hrun] at hbehind hresult
    cases result with
    | error e =>
      rw [Steps.bind_of_error hrun]
      exact ⟨hbehind, nofun⟩
    | ok a =>
      rw [Steps.bind_of_ok hrun]
      exact hnext a (hresult a rfl) behind hbehind

/-- What a step returns may be changed afterwards. -/
theorem map {step : RenderM α} {g : α → β} (hstep : Ensures allowed P step)
    (hg : ∀ a, P a → Q (g a)) : Ensures allowed Q (step >>= fun a => Pure.pure (g a)) :=
  hstep.bind fun a ha => .pure (hg a ha)

/-- Printing does not touch the table. What it gives is the text of the form. -/
theorem source (room : Room) (f : Form) :
    Ensures allowed (· = f.print) (printed (f.printWithin room)) :=
  fun _ htable => ⟨htable, fun _ h => Room.eq_of_within ((f.printWithin_eq room).symm.trans h)⟩

/-- The same for several forms. -/
theorem sources (room : Room) (fs : List Form) :
    Ensures allowed (· = Form.printItems fs) (printed (Form.printItemsWithin room fs)) :=
  fun _ htable =>
    ⟨htable, fun _ h => Room.eq_of_within ((Form.printItemsWithin_eq fs room).symm.trans h)⟩

/-- The remark for a form that cannot be written is code. -/
theorem unmatched {kind : String} {f : Form} (hkind : kind.toList.all Script.isInertChar = true)
    (hf : f.readable = true) (room : Room) :
    Ensures allowed (IsCode allowed) (LispScript.unmatched room kind f) :=
  (source room f).map fun _ htext => htext ▸ .unmatched hkind hf

/-- A statement in front of others. -/
theorem statement {first rest : RenderM String} (hfirst : Ensures allowed (IsCode allowed) first)
    (hrest : Ensures allowed (IsBody allowed) rest) :
    Ensures allowed (IsBody allowed) (first >>= fun code => rest >>= fun codes =>
      Pure.pure (Script.statement code ++ codes)) :=
  hfirst.bind fun _ hcode => hrest.map fun _ hcodes => (IsBody.statement hcode).append hcodes

end Ensures

/-- A renderer that writes code. -/
def Renderer.WritesCode (allowed : List Char → Prop) (render : Renderer) : Prop :=
  ∀ f, f.Writable allowed → Ensures allowed (IsCode allowed) (render f)

namespace Renderer.WritesCode

variable {render : Renderer} {f : Form} {fs : List Form}

/-- Forms one by one are written as code. -/
theorem each (h : render.WritesCode allowed) (hfs : ∀ f ∈ fs, f.Writable allowed) :
    Ensures allowed (fun codes => ∀ code ∈ codes, IsCode allowed code) (renderEach render fs) := by
  induction fs with
  | nil => exact .pure (by simp)
  | cons f fs ih =>
    rw [List.forall_mem_cons] at hfs
    exact (h f hfs.1).bind fun code hcode =>
      (ih hfs.2).map fun codes hcodes => List.forall_mem_cons.mpr ⟨hcode, hcodes⟩

/-- Arguments are written as code. -/
theorem args (h : render.WritesCode allowed) (hfs : ∀ f ∈ fs, f.Writable allowed) :
    Ensures allowed (IsCode allowed) (renderArgs render fs) :=
  (h.each hfs).map fun _ hcodes => .commaSeparated hcodes

/-- Statements are written as the body of a block. -/
theorem statements (h : render.WritesCode allowed) (hfs : ∀ f ∈ fs, f.Writable allowed) :
    Ensures allowed (IsBody allowed) (renderStatements render fs) := by
  induction fs with
  | nil => exact .pure .nil
  | cons f fs ih =>
    rw [List.forall_mem_cons] at hfs
    exact (h f hfs.1).statement (ih hfs.2)

/-- The body of a function is written as the body of a block, whether it returns its last form or
not. -/
theorem body (h : render.WritesCode allowed) (void : Bool) (hfs : ∀ f ∈ fs, f.Writable allowed) :
    Ensures allowed (IsBody allowed) (renderBody render void fs) := by
  fun_induction renderBody render void fs with
  | case1 =>
    refine .pure ?_
    split
    · exact .nil
    · exact .statement (.returning (.plain (by decide)))
  | case2 f =>
    refine (h f (hfs f List.mem_cons_self)).map fun code hcode => .statement ?_
    split
    · exact hcode
    · exact .returning hcode
  | case3 f g fs ih =>
    rw [List.forall_mem_cons] at hfs
    exact (h f hfs.1).statement (ih hfs.2)

/-- What declares a variable is written as code. -/
theorem binder (h : render.WritesCode allowed) {b : Binder} (hb : b.Writable allowed) :
    Ensures allowed (IsCode allowed) (renderBinder render b) := by
  cases b with
  | name name => exact .pure (.mangle hb.isWord)
  | hint parts => exact h _ hb

/-- A form that may be missing is written as code if it is there. -/
theorem option (h : render.WritesCode allowed) {o : Option Form}
    (ho : ∀ f ∈ o, f.Writable allowed) :
    Ensures allowed (fun code => ∀ c ∈ code, IsCode allowed c) (renderOption render o) := by
  cases o with
  | none => exact .pure (by simp)
  | some f => exact (h f (ho f rfl)).map fun code hcode => by simpa using hcode

/-- A binding is written as code, as a remark if it is invalid. -/
theorem binding (h : render.WritesCode allowed) (room : Room) {b : Binding}
    (hb : b.Writable allowed) : Ensures allowed (IsCode allowed) (renderBinding room render b) := by
  cases b with
  | bind binder value =>
    exact (h.binder hb.1).bind fun name hname => (h value hb.2).map fun code hcode =>
      .declaration hname (by simpa using hcode)
  | invalid forms =>
    have hforms : Form.readableAll forms = true :=
      Form.readableAll_iff.mpr fun f hf => (hb f hf).readable
    exact (Ensures.sources room forms).map fun _ htext => htext ▸ .invalidBinding hforms

/-- Bindings are written as the body of a block. -/
theorem bindings (h : render.WritesCode allowed) (room : Room) {bs : List Binding}
    (hbs : ∀ b ∈ bs, b.Writable allowed) :
    Ensures allowed (IsBody allowed) (renderBindings room render bs) := by
  induction bs with
  | nil => exact .pure .nil
  | cons b bs ih =>
    rw [List.forall_mem_cons] at hbs
    exact (h.binding room hbs.1).statement (ih hbs.2)

/-- A field of a class is written as code. -/
theorem member (h : render.WritesCode allowed) (hf : f.Writable allowed) :
    Ensures allowed (IsCode allowed) (renderMember render f) := by
  unfold renderMember
  split
  · rename_i b hb
    exact (h.binder (Binder.writable_of_ofForm? hb hf)).map fun name hname =>
      .declaration hname (by simp)
  · exact h f hf

/-- The fields of a class are written as the body of a block. -/
theorem members (h : render.WritesCode allowed) (hfs : ∀ f ∈ fs, f.Writable allowed) :
    Ensures allowed (IsBody allowed) (renderMembers render fs) := by
  induction fs with
  | nil => exact .pure .nil
  | cons f fs ih =>
    rw [List.forall_mem_cons] at hfs
    exact (h.member hfs.1).statement (ih hfs.2)

/-- A call is written as code. -/
theorem call (h : render.WritesCode allowed) {head : Form} (hhead : head.Writable allowed)
    (hfs : ∀ f ∈ fs, f.Writable allowed) :
    Ensures allowed (IsCode allowed) (renderCall render head fs) :=
  (h head hhead).bind fun _ hfunction => (h.args hfs).map fun _ harguments =>
    hfunction.call harguments

/-- A short lambda is written as code. -/
theorem shortLambda (h : render.WritesCode allowed) (hf : f.Writable allowed) :
    Ensures allowed (IsCode allowed) (renderShortLambda render f) := by
  refine (h.body false (List.forall_mem_singleton.mpr hf)).map fun code hcode => ?_
  refine .anonymousFunction ?_ (.plain (by decide)) hcode
  split
  · exact .plain (by decide)
  · exact .plain rfl

/-- Pieces of code stay code when they are taken in pairs. -/
theorem forall_mem_pairs {codes : List String} (h : ∀ code ∈ codes, IsCode allowed code) :
    ∀ entry ∈ pairs codes, IsCode allowed entry.1 ∧ IsCode allowed entry.2 := by
  fun_induction pairs codes with
  | case1 a b rest ih =>
    simp only [List.forall_mem_cons] at h
    exact List.forall_mem_cons.mpr ⟨⟨h.1, h.2.1⟩, ih h.2.2⟩
  | case2 => simp

/-- A map is written as code, as a remark if the number of its forms is odd. -/
theorem mapItems (h : render.WritesCode allowed) (room : Room)
    (hfs : (Form.map fs).Writable allowed) :
    Ensures allowed (IsCode allowed) (renderMap room render fs) := by
  refine (h.each fun f hf => .of_mem_items .curly hfs hf).bind fun codes hcodes => ?_
  split
  · exact .pure (.dictionary (forall_mem_pairs hcodes))
  · exact (Ensures.source room (.map fs)).map fun _ htext => htext ▸ .oddMap _ hfs.readable

/-- The types that functions return are code. -/
theorem returnType (body : List Form) (void : Bool) :
    IsCode allowed (FunctionShape.ofBody body void).returnType := by
  have henumerator : IsCode allowed Script.enumeratorType := .plain (by decide)
  have hobject : IsCode allowed Script.objectType := .plain (by decide)
  unfold FunctionShape.ofBody
  split
  · exact henumerator
  · exact hobject

/-- Expanding a macro writes its body. -/
theorem expand (h : render.WritesCode allowed) {name : String} {m : Macro}
    (hname : isWord name.toList = true) (hm : m.body.Writable allowed) :
    Ensures allowed (IsCode allowed) (expand render name m) := by
  intro table htable
  by_cases hactive : name ∈ table.active
  · rw [expand_of_mem hactive]
    exact ⟨htable, fun code hcode => Except.ok.inj hcode ▸ .recursive hname⟩
  · rw [expand_of_not_mem hactive]
    exact h m.body hm (table.activate name) htable

/-- What a list means is written as code. -/
theorem construct (h : render.WritesCode allowed) (room : Room) {c : Construct}
    (hc : c.Writable allowed) :
    Ensures allowed (IsCode allowed) (c.render LispScript.expand room render) := by
  cases c with
  | define static b value =>
    refine (h.binder hc.1).bind fun name hname => (h.option hc.2).map fun code hcode => ?_
    split
    · exact .staticDeclaration hname hcode
    · exact .declaration hname hcode
  | untyped name => exact .pure (.untyped hc.isWord)
  | assign target value =>
    exact (h target hc.1).bind fun _ hleft => (h value hc.2).map fun _ hright =>
      hleft.assignment hright
  | update target function =>
    exact (h target hc.1).bind fun _ hleft => (h function hc.2).map fun _ hcode =>
      hleft.updating hcode
  | importLibrary library => exact .pure (.importing hc.isWord)
  | negate operand => exact (h operand hc).map fun _ hcode => hcode.negation
  | yield value => exact (h.option hc).map fun _ hcode => .yielding hcode
  | element sequence index =>
    exact (h sequence hc.1).bind fun _ hcode => (h index hc.2).map fun _ hposition =>
      hcode.element hposition
  | construct typeName args =>
    exact (h.args hc.2).map fun _ harguments => .construction hc.1.isWord harguments
  | doBlock body => exact (h.body false hc).map fun _ hcode => .doBlock hcode
  | letBlock bindings body =>
    exact (h.bindings room hc.1).bind fun _ hdeclarations => (h.body false hc.2).map fun _ hcode =>
      .letBlock hdeclarations hcode
  | classType name members body =>
    exact (h.members hc.2.1).bind fun _ hdeclarations => (h.statements hc.2.2).map fun _ hcode =>
      .classDefinition hc.1.isWord hdeclarations hcode
  | lambda params body =>
    exact (h.args hc.1).bind fun _ hparameters => (h.body _ hc.2).map fun _ hcode =>
      .anonymousFunction hparameters (returnType body false) hcode
  | namedFunction style name params body =>
    refine (h.args hc.2.1).bind fun _ hparameters => (h.body _ hc.2.2).map fun _ hcode => ?_
    have htype : IsCode allowed (FunctionShape.ofBody body (style = .void)).returnType :=
      returnType body _
    cases style with
    | static => exact .staticFunction hc.1.isWord hparameters htype hcode
    | method | void => exact .method hc.1.isWord hparameters htype hcode
  | defineMacro name params body =>
    intro table htable
    rw [render_defineMacro]
    split
    · -- the one step that adds to the table, and what it adds stands in the list
      refine ⟨?_, fun code hcode => Except.ok.inj hcode ▸ .definedRemark hc.1.isWord⟩
      exact htable.define hc.2
    · exact ⟨htable, nofun⟩
  | conditional condition yes no =>
    exact (h condition hc.1).bind fun _ htest => (h yes hc.2.1).bind fun _ hleft =>
      (h no hc.2.2).map fun _ hright => htest.conditional hleft hright
  | branch condition yes no =>
    refine (h condition hc.1).bind fun _ htest => (h yes hc.2.1).bind fun _ hleft =>
      (h.option hc.2.2).map fun right hright => .branch htest (.statement hleft) ?_
    cases right with
    | none => exact .nil
    | some code => exact .statement (hright code rfl)
  | loop condition body =>
    exact (h condition hc.1).bind fun _ htest => (h.body true hc.2).map fun _ hcode =>
      htest.loop hcode
  | methodCall name object args =>
    exact (h object hc.2.1).bind fun _ hcode => (h.args hc.2.2).map fun _ harguments =>
      .methodCall hc.1.readable hcode harguments
  | field name object => exact (h object hc.2).map fun _ hcode => .field hc.1.readable hcode
  | operation symbol left right =>
    exact (h left hc.2.2.1).bind fun _ ha => (h right hc.2.2.2).map fun _ hb =>
      .operation hc.1.readable hc.2.1 ha hb
  | entry key object => exact (h object hc.2).map fun _ hcode => .entry hc.1.readable hcode
  | call head args =>
    cases head with
    | word name =>
      -- only the table knows whether the head names a macro
      intro table htable
      cases hlookup : table.lookup? name with
      | some m =>
        have hrun : (Construct.call (.word name) args).render LispScript.expand room render table =
            LispScript.expand render name m table := by
          rw [Construct.render, Steps.get_bind, hlookup]
        rw [hrun]
        exact h.expand hc.1.isWord (htable _ (MacroTable.mem_of_lookup? hlookup)) table htable
      | none =>
        have hrun : (Construct.call (.word name) args).render LispScript.expand room render table =
            renderCall render (.word name) args table := by
          rw [Construct.render, Steps.get_bind, hlookup]
        rw [hrun]
        exact h.call hc.1 hc.2 table htable
    | _ => exact h.call hc.1 hc.2
  | nothing => exact .unmatched (by decide) rfl room

/-- One level of a form is written as code if the forms below it are. -/
theorem level (h : render.WritesCode allowed) (room : Room) :
    (renderLevel LispScript.expand room render).WritesCode allowed := by
  intro f hf
  cases f with
  | hole => exact absurd hf.readable (by simp [Form.readable])
  | word name => exact .pure (.word hf.isWord)
  | number literal => exact .pure (.number hf.readable)
  | string text => exact .pure (.string hf.readable)
  | keyword name => exact .pure (.keyword hf.readable)
  | operator symbol =>
    rw [renderLevel]
    cases hfunction : Script.operatorFunction? symbol with
    | some code => exact .pure (.operatorFunction hfunction)
    | none => exact .unmatched (by decide) hf.readable room
  | accessor field => exact .pure (.fieldFunction hf.readable)
  | method name => exact .pure (.methodFunction hf.readable)
  | hint parts =>
    obtain ⟨typeName, boundName, rfl, htype, hbound⟩ := exists_words_of_readable_hint hf.readable
    exact .pure (.hint htype hbound)
  | yield => exact .unmatched (by decide) rfl room
  | placeholder => exact .pure (.plain (by decide))
  | shortLambda body => exact h.shortLambda hf.shortLambda_body
  | getter target => exact (h target hf.getter_target).map fun _ hcode => hcode.entryFunction
  | list items => exact h.construct room (Construct.writable_ofItems hf)
  | vector items => exact (h.each fun _ hg => hf.of_mem_vector hg).map fun _ hcodes => .array hcodes
  | map items => exact h.mapItems room hf

end Renderer.WritesCode

/-- Whatever the limit, what is written of a form that a program can hold is code. -/
theorem render_writesCode (room : Room) (limit : Nat) :
    (render room limit).WritesCode allowed := by
  induction limit with
  | zero => exact fun f _ table htable => ⟨htable, nofun⟩
  | succ limit ih => exact ih.level room

/-! ## Programs and sessions -/

variable {limits : Limits} {f : Form} {fs : List Form} {table : MacroTable}

/-- The piece of a form is code. -/
theorem compileForm_isCode (hf : f.Writable allowed) (htable : table.Writable allowed) :
    IsCode allowed (compileForm limits f table).1.text ∧
      (compileForm limits f table).2.Writable allowed := by
  obtain ⟨hbehind, hcode⟩ :=
    render_writesCode (some limits.printing) limits.writing f hf table htable
  rw [compileForm_eq]
  refine ⟨?_, hbehind⟩
  cases hresult : (limits.render f table).1 with
  | ok code => exact hcode code hresult
  | error e => exact .remark (.of_all (by decide +kernel))

/-- The pieces of forms are code, each from the table that the ones before leave. -/
theorem compileForms_isCode (hfs : ∀ f ∈ fs, f.Writable allowed) (htable : table.Writable allowed) :
    (∀ piece ∈ (compileForms limits fs table).1, IsCode allowed piece.text) ∧
      (compileForms limits fs table).2.Writable allowed := by
  induction fs generalizing table with
  | nil => exact ⟨fun _ hpiece => absurd hpiece List.not_mem_nil, htable⟩
  | cons f fs ih =>
    rw [List.forall_mem_cons] at hfs
    obtain ⟨hpiece, hbehind⟩ := compileForm_isCode hfs.1 htable
    obtain ⟨hpieces, hend⟩ := ih hfs.2 hbehind
    rw [compileForms_cons]
    exact ⟨List.forall_mem_cons.mpr ⟨hpiece, hpieces⟩, hend⟩

/-- The forms of a source, if it is a program, can be written as code. -/
def SourceWritable (limits : Limits) (allowed : List Char → Prop) (source : String) : Prop :=
  ∀ fs, parse limits source = .ok fs → ∀ f ∈ fs, f.Writable allowed

/-- Compiling a source keeps the table such that its macros are written as code. -/
theorem compile_writable {source : String} (hsource : SourceWritable limits allowed source)
    (htable : table.Writable allowed) : (compile limits source table).2.Writable allowed := by
  cases hparse : parse limits source with
  | error failure =>
    rw [compile_of_parse_error hparse]
    exact htable
  | ok fs =>
    rw [compile_of_parse hparse]
    exact (compileForms_isCode (hsource fs hparse) htable).2

namespace Session

/-- The table of a session that has compiled the sources, one after the other. -/
def compiled (limits : Limits) (builtin : Bool) (sources : List String) : MacroTable :=
  after limits (sources.map .compile) (.start builtin)

/-- Behind some sources the macros are written as code. -/
theorem writable_after {sources : List String}
    (hsources : ∀ source ∈ sources, SourceWritable limits allowed source)
    (htable : table.Writable allowed) :
    (after limits (sources.map .compile) table).Writable allowed := by
  induction sources generalizing table with
  | nil => exact htable
  | cons source sources ih =>
    rw [List.forall_mem_cons] at hsources
    exact ih hsources.2 (compile_writable hsources.1 htable)

/-- In a session that has compiled some sources the macros are written as code. -/
theorem writable_compiled (builtin : Bool) {sources : List String}
    (hsources : ∀ source ∈ sources, SourceWritable limits allowed source) :
    (compiled limits builtin sources).Writable allowed := by
  refine writable_after hsources ?_
  have hpi : (Form.number "42").Writable allowed := by
    refine ⟨by decide, fun symbol left right hmem => ?_⟩
    rcases Form.mem_walk_iff.mp hmem with heq | ⟨part, hpart, -⟩
    · cases heq
    · cases hpart
  cases builtin with
  | false => exact fun _ hentry => absurd hentry List.not_mem_nil
  | true => exact List.forall_mem_singleton.mpr hpi

end Session

/-- Without a condition on operators every source will do. -/
theorem sourceWritable_true (limits : Limits) (source : String) :
    SourceWritable limits (fun _ => True) source := by
  intro fs hparse f hf
  exact ⟨readable_of_readProgram (parse_eq_ok_iff.mp hparse) f hf, fun _ _ _ _ => trivial⟩

/-- In a session that has compiled some sources, every piece of a program is code. -/
theorem isCode_of_compiled (builtin : Bool) (earlier : List String) {source : String}
    (hparse : parse limits source = .ok fs) :
    ∀ piece ∈ (compileForms limits fs (Session.compiled limits builtin earlier)).1,
      IsCode (fun _ => True) piece.text :=
  (compileForms_isCode (sourceWritable_true limits source fs hparse)
    (Session.writable_compiled builtin fun source _ => sourceWritable_true limits source)).1

end LispScript
