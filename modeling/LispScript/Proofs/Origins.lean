import LispScript.Proofs.Coupling
import LispScript.Proofs.Recursion
import LispScript.Proofs.Sessions
import LispScript.Proofs.Splitting

/-!
# Where macros come from

Writing a form defines macros on the way, also inside of expansions, and never removes one. Every
definition stands somewhere in the form or in a body that the table held before: a body that was
stored on the way is a part of one of these, and so is every definition in it. So a form without
definitions leaves a table of bodies without definitions as it is, and then it does not matter to
the rest of a program which form of this kind stands there.
-/

namespace LispScript

variable {f : Form} {table : MacroTable} {name : String} {m : Macro}
  {written : String → Macro → Prop} {start entries : List (String × Macro)}

/-! ## Tables that grow -/

/-- The macro is defined by a list at some depth of the forms. It has the source texts of the
parameters, and its body as it stands there. -/
def WrittenIn (forms : List Form) (name : String) (m : Macro) : Prop :=
  ∃ f ∈ forms, ∃ params body, .list [.word "defmacro", .word name, .vector params, body] ∈ f.walk ∧
    m = { params := params.map Form.print, body }

/-- The macros come from those of `start` by definitions of the given kind. -/
inductive Grows (written : String → Macro → Prop) (start : List (String × Macro)) :
    List (String × Macro) → Prop
  | refl : Grows written start start
  | define {entries : List (String × Macro)} {name : String} {m : Macro}
      (before : Grows written start entries) (origin : written name m) :
      Grows written start (Table.assign name m entries)

namespace Grows

/-- No name is lost. -/
theorem isSome_lookup (h : Grows written start entries) (hname : (start.lookup name).isSome) :
    (entries.lookup name).isSome := by
  induction h with
  | refl => exact hname
  | define _ _ ih =>
    rw [Table.lookup_assign]
    split
    · rfl
    · exact ih

/-- A macro was there before or was defined. -/
theorem origin_of_lookup (h : Grows written start entries) (hm : entries.lookup name = some m) :
    start.lookup name = some m ∨ written name m := by
  induction h with
  | refl => exact Or.inl hm
  | define _ origin ih =>
    rw [Table.lookup_assign] at hm
    split at hm
    · rename_i hname
      cases hm
      subst hname
      exact Or.inr origin
    · exact ih hm

/-- Where nothing can be defined nothing changes. -/
theorem eq_start (h : Grows written start entries) (hnone : ∀ name m, ¬ written name m) :
    entries = start := by
  cases h with
  | refl => rfl
  | define _ origin => exact absurd origin (hnone _ _)

end Grows

/-- Every list at any depth that defines a macro defines one of the given kind. -/
def Form.Defines (written : String → Macro → Prop) (f : Form) : Prop :=
  f.Throughout fun g => ∀ name params body,
    g = .list [.word "defmacro", .word name, .vector params, body] →
      written name { params := params.map Form.print, body }

/-- What a form among some forms defines is written in them. -/
theorem defines_of_mem {forms : List Form} (hf : f ∈ forms) : f.Defines (WrittenIn forms) := by
  rintro g hg name params body rfl
  exact ⟨f, hf, params, body, hg, rfl⟩

/-- Writing a form makes the table grow by definitions that stand in it or in a stored body. -/
theorem render_grows (room : Room) (limit : Nat) (f : Form) (table : MacroTable) :
    Grows (WrittenIn (f :: table.bodies)) table.entries
      (render room limit f table).2.entries := by
  have hbodies : ∀ body ∈ table.bodies, body.Defines (WrittenIn (f :: table.bodies)) :=
    fun body hbody => defines_of_mem (List.mem_cons_of_mem _ hbody)
  exact (Coupling.render_invariant (Grows _ table.entries)
    (fun _ name params body hallows hgrows => hgrows.define (hallows name params body rfl)) room
    limit (defines_of_mem List.mem_cons_self) .refl hbodies).1

/-! ## Forms that define nothing -/

/-- No macro is written in forms that define nothing. -/
theorem Form.Inert.not_writtenIn {forms : List Form} (h : ∀ f ∈ forms, f.Inert) (name : String)
    (m : Macro) : ¬ WrittenIn forms name m := by
  rintro ⟨f, hf, params, body, hlist, -⟩
  have hmem : name ∈ f.macroNames := List.mem_filterMap.mpr ⟨_, hlist, rfl⟩
  rw [h f hf] at hmem
  exact List.not_mem_nil hmem

/-- A form that defines nothing leaves the table as it is, if no body in it defines anything. -/
theorem render_table_of_inert (room : Room) (limit : Nat) (hf : f.Inert)
    (hbodies : ∀ body ∈ table.bodies, body.Inert) : (render room limit f table).2 = table := by
  have hentries := (render_grows room limit f table).eq_start
    (Form.Inert.not_writtenIn (List.forall_mem_cons.mpr ⟨hf, hbodies⟩))
  have hactive := render_active room limit f table
  calc (render room limit f table).2
      = ⟨(render room limit f table).2.entries, (render room limit f table).2.active⟩ := rfl
    _ = table := by rw [hentries, hactive]

/-- Every macro has an origin and none disappears. Behind a form every name of the table still has a
macro, and every macro was there before or is defined by a list in the form or in a body of the
table. So a form that defines nothing leaves a table of bodies that define nothing as it is, and
replacing such a form of a program by another one leaves the pieces of all other forms, and the
table behind the program, as they are. -/
theorem macros_have_origins (table : MacroTable) :
    (∀ room limit f,
      (∀ name, table.isDefined name = true →
        (render room limit f table).2.isDefined name = true) ∧
      (∀ name m, (render room limit f table).2.lookup? name = some m →
        table.lookup? name = some m ∨ WrittenIn (f :: table.bodies) name m) ∧
      (f.Inert → (∀ body ∈ table.bodies, body.Inert) →
        (render room limit f table).2 = table)) ∧
    ∀ limits before behind,
      (∀ body ∈ (compileForms limits before table).2.bodies, body.Inert) →
      ∃ ps qs table', ps.length = before.length ∧ qs.length = behind.length ∧
        ∀ f, f.Inert → ∀ source, parse limits source = .ok (before ++ f :: behind) →
          compile limits source table =
            (.program (ps ++ (compileForm limits f (compileForms limits before table).2).1 :: qs),
              table') := by
  refine ⟨fun room limit f => ⟨fun name hname => ?_, fun name m hm => ?_,
    render_table_of_inert room limit⟩, fun limits before behind hbodies => ?_⟩
  · exact (render_grows room limit f table).isSome_lookup hname
  · exact (render_grows room limit f table).origin_of_lookup hm
  · rcases hbefore : compileForms limits before table with ⟨ps, middle⟩
    rcases hbehind : compileForms limits behind middle with ⟨qs, table'⟩
    rw [hbefore] at hbodies
    refine ⟨ps, qs, table', ?_, ?_, fun f hf source hparse => ?_⟩
    · rw [← length_compileForms limits before table, hbefore]
    · rw [← length_compileForms limits behind middle, hbehind]
    · have hstays : (compileForm limits f middle).2 = middle := by
        rw [compileForm_table]
        exact render_table_of_inert _ _ hf hbodies
      rw [compile_of_parse hparse, compileForms_append, compileForms_cons, hbefore, hstays, hbehind]

/-- A definition inside of a macro that is called gives `PI` a new body, and one in the arguments of
the call has no effect. A call and a vector in the middle of a program can replace each other. -/
theorem macros_have_origins_nested :
    let inner : Form := .list [.word "defmacro", .word "PI", .vector [.word "x"], .number "3"]
    let table : MacroTable := ⟨[("PI", ⟨[], .number "42"⟩), ("m", ⟨[], .vector [inner]⟩)], []⟩
    let f : Form := .list [.word "m", .list [.word "defmacro", .word "a", .vector [], .number "1"]]
    ((render (some 9) 9 f table).2.lookup? "PI" = some ⟨["x"], .number "3"⟩ ∧
      WrittenIn (f :: table.bodies) "PI" ⟨["x"], .number "3"⟩ ∧
      (render (some 9) 9 f table).2.isDefined "m" = true ∧
      (render (some 9) 9 f table).2.isDefined "a" = false) ∧
    ∃ (ps qs : List Piece) (table' : MacroTable), ps.length = 1 ∧ qs.length = 1 ∧
      compile .usual "(defmacro a [] 1) (f) (a)" .empty =
        (.program (ps ++ .code "f()" :: qs), table') ∧
      compile .usual "(defmacro a [] 1) [2] (a)" .empty =
        (.program (ps ++ .code "[2]" :: qs), table') := by
  intro inner table f
  constructor
  · have hPI : (render (some 9) 9 f table).2.lookup? "PI" = some ⟨["x"], .number "3"⟩ := by
      decide +kernel
    obtain ⟨hnames, horigins, -⟩ := (macros_have_origins table).1 (some 9) 9 f
    refine ⟨hPI, (horigins "PI" _ hPI).resolve_left ?_, hnames "m" (by decide), by decide +kernel⟩
    decide
  · let define : Form := .list [.word "defmacro", .word "a", .vector [], .number "1"]
    have hbodies : (compileForms .usual [define] .empty).2.bodies = [.number "1"] := by
      decide +kernel
    have hinert : ∀ body ∈ (compileForms .usual [define] .empty).2.bodies, body.Inert := by
      rw [hbodies]
      exact List.forall_mem_singleton.mpr (by cbv)
    obtain ⟨ps, qs, table', hps, hqs, hreplace⟩ :=
      (macros_have_origins .empty).2 .usual [define] [.list [.word "a"]] hinert
    refine ⟨ps, qs, table', hps, hqs, ?_, ?_⟩
    · exact hreplace (.list [.word "f"]) (by cbv) _ (by decide +kernel)
    · exact hreplace (.vector [.number "2"]) (by cbv) _ (by decide +kernel)

end LispScript
