import LispScript.Proofs.Origins

/-!
# Compiling a program again

The script of a program depends on the macros that the session holds when its compilation starts, so
a program that uses a macro before it defines it can come out differently the next time. If macros
are defined by top-level forms only, everything else leaves the table as it is, and all that a
compilation does to the table is to make the definitions of the program one after the other. Making
them once more changes nothing: each name keeps its place, and its last definition wins again. So
the session is settled after the first compilation.
-/

namespace LispScript

variable {limits : Limits} {f : Form} {table : MacroTable} {source : String}

/-! ## Definitions at the top of a program -/

/-- The definition that a form makes, if it is one and there is room for printing its
parameters. -/
def Form.definition? (room : Room) : Form → Option (String × Macro)
  | .list [.word "defmacro", .word name, .vector params, body] =>
    if room.holds (heights params) then some (name, { params := params.map Form.print, body })
    else none
  | _ => none

/-- If the form has a definition in it, it is the form itself. -/
def Form.DefinesOnTop (f : Form) : Prop :=
  ∀ part ∈ f.children, part.Inert

/-- A form that defines a name is a definition of it. -/
theorem Form.eq_of_definedName? {name : String} (h : f.definedName? = some name) :
    ∃ params body, f = .list [.word "defmacro", .word name, .vector params, body] := by
  unfold definedName? at h
  split at h
  · cases h
    exact ⟨_, _, rfl⟩
  · cases h

/-- A form that defines no name makes no definition. -/
theorem Form.definition?_eq_none (h : f.definedName? = none) (room : Room) :
    f.definition? room = none := by
  unfold definition?
  split
  · cases h
  · rfl

/-- If the form is no definition, it has none in it. -/
theorem Form.DefinesOnTop.inert (h : f.DefinesOnTop) (hnone : f.definedName? = none) :
    f.Inert := by
  rw [Inert, macroNames, List.filterMap_eq_nil_iff]
  intro g hg
  rcases mem_walk_iff.mp hg with rfl | ⟨part, hpart, hg⟩
  · exact hnone
  · exact List.filterMap_eq_nil_iff.mp (h part hpart) g hg

/-- A form at the top makes the definition that it is and leaves the table as it is otherwise. -/
theorem Form.DefinesOnTop.render_table (h : f.DefinesOnTop)
    (hbodies : ∀ body ∈ table.bodies, body.Inert) (room : Room) (limit : Nat) :
    (render room (limit + 1) f table).2 =
        { table with entries := Table.assignAll (f.definition? room).toList table.entries } ∧
      ∀ body ∈ (render room (limit + 1) f table).2.bodies, body.Inert := by
  cases hname : f.definedName? with
  | none =>
    have htable := render_table_of_inert room (limit + 1) (h.inert hname) hbodies
    rw [htable, definition?_eq_none hname]
    exact ⟨rfl, hbodies⟩
  | some name =>
    obtain ⟨params, body, rfl⟩ := eq_of_definedName? hname
    have hrun : render room (limit + 1)
        (.list [.word "defmacro", .word name, .vector params, body]) table = _ :=
      render_defineMacro name params body expand room (render room limit) table
    rw [hrun, definition?]
    split
    · refine ⟨rfl, fun stored hstored => ?_⟩
      obtain ⟨entry, hentry, rfl⟩ := List.mem_map.mp hstored
      rcases Table.mem_assign hentry with rfl | hentry
      · exact h body (by simp [children])
      · exact hbodies _ (List.mem_map_of_mem hentry)
    · exact ⟨rfl, hbodies⟩

/-- All that compiling such a program does to the table is to make its definitions. -/
theorem compileForms_table {forms : List Form} (hforms : ∀ f ∈ forms, f.DefinesOnTop)
    (hbodies : ∀ body ∈ table.bodies, body.Inert) :
    (compileForms limits forms table).2 =
      { table with
        entries := Table.assignAll (forms.filterMap (Form.definition? (some limits.printing)))
          table.entries } ∧
      ∀ body ∈ (compileForms limits forms table).2.bodies, body.Inert := by
  induction forms generalizing table with
  | nil => exact ⟨rfl, hbodies⟩
  | cons f forms ih =>
    obtain ⟨hf, hforms⟩ := List.forall_mem_cons.mp hforms
    obtain ⟨hfirst, hbodies'⟩ :=
      hf.render_table hbodies (some limits.printing) (limits.writing - 1)
    rw [Nat.sub_add_cancel limits.writing_pos] at hfirst hbodies'
    obtain ⟨hlater, hbodies''⟩ := ih hforms hbodies'
    rw [compileForms_cons, compileForm_table]
    refine ⟨?_, hbodies''⟩
    rw [hlater, hfirst, List.filterMap_cons]
    cases f.definition? (some limits.printing) <;> rfl

/-- A program whose definitions are top-level forms leaves a table behind that it does not change
when it is compiled again. -/
theorem compile_compile_table (hbodies : ∀ body ∈ table.bodies, body.Inert)
    (hsource : ∀ forms, parse limits source = .ok forms → ∀ f ∈ forms, f.DefinesOnTop) :
    (compile limits source (compile limits source table).2).2 =
      (compile limits source table).2 := by
  cases hparse : parse limits source with
  | error failure => rw [compile_of_parse_error hparse, compile_of_parse_error hparse]
  | ok forms =>
    have hforms := hsource forms hparse
    rw [compile_of_parse hparse, compile_of_parse hparse]
    obtain ⟨hfirst, hbodies'⟩ := compileForms_table hforms hbodies
    rw [(compileForms_table hforms hbodies').1, hfirst, Table.assignAll_assignAll]

/-- Compiling an unchanged program settles after one pass. Let no body in the session define a
macro, and let the program define macros by top-level forms only, however often and wherever they
are used. Then the second compilation leaves the table exactly as the first one left it, and any
number of further compilations all give the same script and the same table. -/
theorem recompiling_settles (hbodies : ∀ body ∈ table.bodies, body.Inert)
    (hsource : ∀ forms, parse limits source = .ok forms → ∀ f ∈ forms, f.DefinesOnTop) :
    (compile limits source (compile limits source table).2).2 =
      (compile limits source table).2 ∧
    ∀ n, Session.trace limits (List.replicate n (.compile source))
        (compile limits source table).2 =
      List.replicate n (some (compile limits source (compile limits source table).2).1.text,
        (compile limits source table).2) := by
  have hsettled := compile_compile_table hbodies hsource
  refine ⟨hsettled, fun n => ?_⟩
  have hstep : (Session.Step.compile source).run limits (compile limits source table).2 =
      (some (compile limits source (compile limits source table).2).1.text,
        (compile limits source table).2) := by
    change (some (compile limits source (compile limits source table).2).1.text,
      (compile limits source (compile limits source table).2).2) = _
    rw [hsettled]
  induction n with
  | zero => rfl
  | succ n ih => rw [List.replicate_succ, Session.trace, hstep, ih, List.replicate_succ]

/-- A program that uses a macro before it defines it, lets two macros lead to each other and defines
one of them anew at the end. Its second script differs from the first, and all later ones are like
the second. -/
theorem recompiling_settles_redefined :
    let source := "(a) (defmacro a [] (f (b))) (defmacro b [] (a)) (a) (defmacro a [x] (g (b)))"
    let first := compile .usual source (MacroTable.start true)
    let second := compile .usual source first.2
    second.1.text ≠ first.1.text ∧ first.2.entries.map Prod.fst = ["PI", "a", "b"] ∧
      second.2 = first.2 ∧
      Session.trace .usual (List.replicate 3 (.compile source)) first.2 =
        List.replicate 3 (some second.1.text, first.2) := by
  intro source first second
  have hbodies : ∀ body ∈ (MacroTable.start true).bodies, body.Inert := by
    have hstored : (MacroTable.start true).bodies = [.number "42"] := rfl
    rw [hstored]
    exact List.forall_mem_singleton.mpr (by cbv)
  have hsource : ∀ forms, parse .usual source = .ok forms → ∀ f ∈ forms, f.DefinesOnTop := by
    let forms : List Form := [.list [.word "a"],
      .list [.word "defmacro", .word "a", .vector [], .list [.word "f", .list [.word "b"]]],
      .list [.word "defmacro", .word "b", .vector [], .list [.word "a"]], .list [.word "a"],
      .list [.word "defmacro", .word "a", .vector [.word "x"],
        .list [.word "g", .list [.word "b"]]]]
    have hparse : parse .usual source = .ok forms := by decide +kernel
    rintro _ h
    obtain rfl := Except.ok.inj (hparse.symm.trans h)
    simp only [Form.DefinesOnTop, Form.Inert]
    decide +kernel
  obtain ⟨hsettled, htrace⟩ := recompiling_settles hbodies hsource
  exact ⟨by decide +kernel, by decide +kernel, hsettled, htrace 3⟩

end LispScript
