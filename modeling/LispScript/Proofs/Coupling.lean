import LispScript.Proofs.Expansion

/-!
# Writing from two tables side by side

What is written of a form depends on a table only by the bodies of the macros that are called, and
writing it changes the table only by definitions that stand in the form or in those bodies. So let
two tables be related in a way that such definitions keep and that makes the bodies of called macros
the same: then both give the same script and are related again behind it. With the same table on
both sides this says which properties of a table are kept.
-/

namespace LispScript

variable {α β : Type} {f g : Form} {table table' : MacroTable}

/-! ## Couplings -/

/-- Every form at any depth of `f` has the property. -/
def Form.Throughout (P : Form → Prop) (f : Form) : Prop :=
  ∀ g ∈ f.walk, P g

/-- What holds throughout a form holds of the form. -/
theorem Form.Throughout.self {P : Form → Prop} (h : f.Throughout P) : P f :=
  h f f.mem_walk_self

/-- What holds throughout a form holds throughout what lies below it. -/
theorem Form.Throughout.of_below {P : Form → Prop} (h : f.Throughout P) (hg : g.Below f) :
    g.Throughout P :=
  fun sub hsub => h sub (hg.walk_subset hsub)

/-- A relation between the macros of two tables, and a property of forms at any depth, such that
what is written of these forms is the same for both. -/
structure Coupling where
  Allows : Form → Prop
  Related : List (String × Macro) → List (String × Macro) → Prop
  /-- Definitions that are written out keep the relation. -/
  define {entries entries' : List (String × Macro)} {name : String} {params : List Form}
    {body : Form} : Allows (.list [.word "defmacro", .word name, .vector params, body]) →
      body.Throughout Allows → Related entries entries' →
      Related (Table.assign name ⟨params.map Form.print, body⟩ entries)
        (Table.assign name ⟨params.map Form.print, body⟩ entries')
  /-- The macro of a word that can be called has the same body on both sides. -/
  called {entries entries' : List (String × Macro)} {name : String} {args : List Form} :
    Allows (.list (.word name :: args)) → Construct.special? name args = none →
      Related entries entries' →
      (entries'.lookup name).map Macro.body = (entries.lookup name).map Macro.body ∧
      ∀ m, entries.lookup name = some m → m.body.Throughout Allows

namespace Coupling

/-- Related tables with the same active names. -/
structure Tables (C : Coupling) (table table' : MacroTable) : Prop where
  related : C.Related table.entries table'.entries
  active_eq : table'.active = table.active

/-- Runs with the same result and related tables behind them. -/
structure Coupled (C : Coupling) (run run' : Except TooDeep α × MacroTable) : Prop where
  result_eq : run'.1 = run.1
  tables : C.Tables run.2 run'.2

variable {C : Coupling} {r : Renderer} {room : Room}

/-- Coupled runs are so whatever is made of their results. -/
theorem Coupled.map {x x' : RenderM α} (assemble : α → β)
    (h : C.Coupled (x table) (x' table')) :
    C.Coupled ((assemble <$> x) table) ((assemble <$> x') table') := by
  rw [Steps.map_apply, Steps.map_apply]
  exact ⟨congrArg (Except.map assemble) h.result_eq, h.tables⟩

/-- Parts that are each written alike are written alike one after the other. Those that are printed
are so from any table. -/
theorem writeEach_coupled {parts : List Part}
    (hparts : ∀ g, .script g ∈ parts → ∀ {u u' : MacroTable}, C.Tables u u' →
      C.Coupled (r g u) (r g u')) :
    ∀ {table table' : MacroTable}, C.Tables table table' →
      C.Coupled (writeEach room r parts table) (writeEach room r parts table') := by
  induction parts with
  | nil => exact fun h => ⟨rfl, h⟩
  | cons p parts ih =>
    intro table table' h
    have hfirst : C.Coupled (p.write room r table) (p.write room r table') := by
      cases p with
      | script g => exact hparts g List.mem_cons_self h
      | source g => exact ⟨rfl, h⟩
    have hlater := fun g hg => @hparts g (List.mem_cons_of_mem _ hg)
    rcases hrun : p.write room r table with ⟨result, u⟩
    rcases hrun' : p.write room r table' with ⟨result', u'⟩
    rw [hrun, hrun'] at hfirst
    obtain rfl : result' = result := hfirst.result_eq
    cases result' with
    | error e =>
      rw [writeEach, Steps.bind_of_error hrun, Steps.bind_of_error hrun']
      exact ⟨rfl, hfirst.tables⟩
    | ok text =>
      rw [writeEach, Steps.bind_of_ok hrun, Steps.bind_of_ok hrun', bind_pure_comp]
      exact (ih hlater hfirst.tables).map _

/-- Of a macro only the body matters to its expansion. -/
theorem expand_coupled {name : String} {m m' : Macro} (hbody : m'.body = m.body)
    (hr : ∀ {u u' : MacroTable}, C.Tables u u' → C.Coupled (r m.body u) (r m.body u'))
    (h : C.Tables table table') :
    C.Coupled (expand r name m table) (expand r name m' table') := by
  by_cases hname : name ∈ table.active
  · have hname' : name ∈ table'.active := by rwa [h.active_eq]
    rw [expand_of_mem hname, expand_of_mem hname']
    exact ⟨rfl, h⟩
  · have hname' : name ∉ table'.active := by rwa [h.active_eq]
    rw [expand_of_not_mem hname, expand_of_not_mem hname', hbody]
    have hactivated : C.Tables (table.activate name) (table'.activate name) :=
      ⟨h.related, congrArg (name :: ·) h.active_eq⟩
    have hrun := hr hactivated
    exact ⟨hrun.result_eq, hrun.tables.related, congrArg (·.erase name) hrun.tables.active_eq⟩

/-- If allowed forms are written alike, one level over them is. -/
theorem renderLevel_coupled (hf : f.Throughout C.Allows)
    (hr : ∀ {g : Form}, g.Throughout C.Allows → ∀ {u u' : MacroTable}, C.Tables u u' →
      C.Coupled (r g u) (r g u'))
    (h : C.Tables table table') :
    C.Coupled (renderLevel expand room r f table) (renderLevel expand room r f table') := by
  have hparts : C.Coupled (writeEach room r f.parts table) (writeEach room r f.parts table') :=
    writeEach_coupled (fun g hg => hr (hf.of_below (Form.below_of_mem_parts hg))) h
  cases level f with
  | definition name params body shape run =>
    rw [run, run]
    have hbody : body.Throughout C.Allows :=
      hf.of_below (shape ▸ (Form.below_of_mem_items (by simp)).1)
    split
    · exact ⟨rfl, C.define (shape ▸ hf.self) hbody h.related, h.active_eq⟩
    · exact ⟨rfl, h⟩
  | plain assemble run =>
    rw [run]
    exact hparts.map assemble
  | call name args assemble shape run declined =>
    rw [run, run]
    obtain ⟨hsame, hbodies⟩ := C.called (shape ▸ hf.self) declined h.related
    change (table'.lookup? name).map Macro.body = (table.lookup? name).map Macro.body at hsame
    cases hlookup : table.lookup? name with
    | none =>
      rw [hlookup, Option.map_none, Option.map_eq_none_iff] at hsame
      rw [hsame]
      exact hparts.map assemble
    | some m =>
      rw [hlookup, Option.map_some, Option.map_eq_some_iff] at hsame
      obtain ⟨m', hlookup', hbody⟩ := hsame
      rw [hlookup']
      exact expand_coupled hbody (hr (hbodies m hlookup)) h

/-- Allowed forms are written alike from related tables. -/
theorem Tables.render_coupled (h : C.Tables table table') (room : Room) (limit : Nat)
    (hf : f.Throughout C.Allows) :
    C.Coupled (render room limit f table) (render room limit f table') := by
  induction limit generalizing f table table' with
  | zero => exact ⟨rfl, h⟩
  | succ limit ih => exact renderLevel_coupled hf (fun hg _ _ hu => ih hu hg) h

/-! ## Invariants of a table -/

section Invariant

variable {Allows : Form → Prop} (Inv : List (String × Macro) → Prop)

/-- The same table on both sides. It has a property that definitions of allowed forms keep, and the
bodies of its macros are allowed throughout. -/
def ofInvariant
    (hdefine : ∀ entries name params body,
      Allows (.list [.word "defmacro", .word name, .vector params, body]) → Inv entries →
      Inv (Table.assign name ⟨params.map Form.print, body⟩ entries)) : Coupling where
  Allows := Allows
  Related entries entries' := entries' = entries ∧ Inv entries ∧
    ∀ entry ∈ entries, entry.2.body.Throughout Allows
  define {entries entries' name params body} hallows hbody h := by
    obtain ⟨rfl, hinv, hbodies⟩ := h
    refine ⟨rfl, hdefine entries' name params body hallows hinv, fun entry hentry => ?_⟩
    rcases Table.mem_assign hentry with rfl | hentry
    · exact hbody
    · exact hbodies entry hentry
  called {entries entries' name args} _ _ h := by
    obtain ⟨rfl, -, hbodies⟩ := h
    refine ⟨rfl, fun m hm => ?_⟩
    have hlookup : (MacroTable.mk entries' []).lookup? name = some m := hm
    exact hbodies _ (MacroTable.mem_of_lookup? hlookup)

/-- Writing a form that is allowed throughout keeps such a property of the table. -/
theorem render_invariant
    (hdefine : ∀ entries name params body,
      Allows (.list [.word "defmacro", .word name, .vector params, body]) → Inv entries →
      Inv (Table.assign name ⟨params.map Form.print, body⟩ entries))
    (room : Room) (limit : Nat) (hf : f.Throughout Allows) (hinv : Inv table.entries)
    (hbodies : ∀ body ∈ table.bodies, body.Throughout Allows) :
    Inv (render room limit f table).2.entries ∧
      ∀ body ∈ (render room limit f table).2.bodies, body.Throughout Allows := by
  have htables : (ofInvariant Inv hdefine).Tables table table :=
    ⟨⟨rfl, hinv, fun entry hentry => hbodies _ (List.mem_map_of_mem hentry)⟩, rfl⟩
  obtain ⟨-, hinv', hbodies'⟩ := (htables.render_coupled room limit hf).tables.related
  exact ⟨hinv', fun body hbody => by
    obtain ⟨entry, hentry, rfl⟩ := List.mem_map.mp hbody
    exact hbodies' entry hentry⟩

end Invariant

end Coupling

end LispScript
