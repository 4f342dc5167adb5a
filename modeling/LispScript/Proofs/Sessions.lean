import LispScript.Compilation
import LispScript.Proofs.Composition

/-!
# Sessions

A session is a sequence of steps on one macro table. Names are active only while a macro is being
expanded: a form that is written, or given up because it is nested too deeply, leaves the active
names as it found them. So between two steps no name is active, and a reset, which forgets the
macros but does not touch the active names, leads back to a new session.
-/

namespace LispScript

variable {limits : Limits} {table : MacroTable}

/-! ## Active names -/

/-- Parts that each leave the active names alone do so one after the other. -/
theorem writeEach_active {room : Room} {r : Renderer} {parts : List Part}
    (hr : ∀ g, .script g ∈ parts → ∀ u : MacroTable, (r g u).2.active = u.active)
    (table : MacroTable) : (writeEach room r parts table).2.active = table.active := by
  induction parts generalizing table with
  | nil => rfl
  | cons p parts ih =>
    have hfirst : (p.write room r table).2.active = table.active := by
      cases p with
      | script g => exact hr g List.mem_cons_self table
      | source g => rfl
    have hrest := ih fun g hg => hr g (List.mem_cons_of_mem _ hg)
    cases hrun : p.write room r table with
    | mk result u =>
      rw [hrun] at hfirst
      cases result with
      | error e => rwa [writeEach, Steps.bind_of_error hrun]
      | ok text =>
        rw [writeEach, Steps.bind_of_ok hrun, bind_pure_comp, Steps.map_apply, hrest, hfirst]

/-- Expanding a macro takes away the name that it added and no other. -/
theorem expand_active {r : Renderer} (hr : ∀ g (u : MacroTable), (r g u).2.active = u.active)
    (name : String) (m : Macro) (table : MacroTable) :
    (expand r name m table).2.active = table.active := by
  by_cases hname : name ∈ table.active
  · rw [expand_of_mem hname]
  · rw [expand_of_not_mem hname]
    have hbody : (r m.body (table.activate name)).2.active = name :: table.active := hr _ _
    simp only [MacroTable.deactivate, hbody, List.erase_cons_head]

/-- Writing a form leaves the active names as they were, whether it succeeds or not. -/
theorem render_active (room : Room) (limit : Nat) :
    ∀ (f : Form) (table : MacroTable), (render room limit f table).2.active = table.active := by
  induction limit with
  | zero => exact fun _ _ => rfl
  | succ limit ih =>
    intro f table
    have hparts (u : MacroTable) :
        (writeEach room (render room limit) f.parts u).2.active = u.active :=
      writeEach_active (fun g _ => ih g) u
    change (renderLevel expand room (render room limit) f table).2.active = _
    cases level f with
    | definition name params body shape run =>
      rw [run]
      split <;> rfl
    | plain assemble run => rw [run, Steps.map_apply, hparts]
    | call name args assemble shape run =>
      rw [run]
      cases table.lookup? name with
      | none => simp only [Steps.map_apply, hparts]
      | some m => exact expand_active ih name m table

/-- Compiling a form is writing it. If it is nested too deeply a piece stands for it. -/
theorem compileForm_eq (limits : Limits) (f : Form) (table : MacroTable) :
    compileForm limits f table =
      (match (limits.render f table).1 with
        | .ok text => .code text
        | .error _ => .tooDeep f, (limits.render f table).2) := by
  change ((match (limits.render f table).1 with
    | .ok text => (pure (.code text) : StateM MacroTable Piece)
    | .error _ => pure (.tooDeep f)) (limits.render f table).2) = _
  cases (limits.render f table).1 <;> rfl

/-- Compiling a form changes the table as writing it does. -/
theorem compileForm_table (limits : Limits) (f : Form) (table : MacroTable) :
    (compileForm limits f table).2 = (limits.render f table).2 := by
  rw [compileForm_eq]

/-- The first form is compiled first, and the others in the session behind it. -/
theorem compileForms_cons (limits : Limits) (f : Form) (fs : List Form) (table : MacroTable) :
    compileForms limits (f :: fs) table =
      ((compileForm limits f table).1 ::
          (compileForms limits fs (compileForm limits f table).2).1,
        (compileForms limits fs (compileForm limits f table).2).2) := rfl

/-- There is one piece for each form. -/
theorem length_compileForms (limits : Limits) (fs : List Form) (table : MacroTable) :
    (compileForms limits fs table).1.length = fs.length := by
  induction fs generalizing table with
  | nil => rfl
  | cons f fs ih => rw [compileForms_cons, List.length_cons, ih, List.length_cons]

/-- Compiling forms leaves the active names as they were. -/
theorem compileForms_active (limits : Limits) (fs : List Form) (table : MacroTable) :
    (compileForms limits fs table).2.active = table.active := by
  induction fs generalizing table with
  | nil => rfl
  | cons f fs ih => rw [compileForms_cons, ih, compileForm_table, render_active]

/-- A text that is no program changes nothing. -/
theorem compile_of_parse_error {source : String} {failure : Failure}
    (h : parse limits source = .error failure) (table : MacroTable) :
    compile limits source table = (.rejected failure, table) := by
  unfold compile
  rw [h]
  rfl

/-- Compiling a text leaves the active names as they were. -/
theorem compile_active (limits : Limits) (source : String) (table : MacroTable) :
    (compile limits source table).2.active = table.active := by
  cases hparse : parse limits source with
  | error failure => rw [compile_of_parse_error hparse]
  | ok fs =>
    unfold compile
    rw [hparse]
    exact compileForms_active limits fs table

/-! ## Steps of a session -/

namespace Session

/-- What can be asked of a session. -/
inductive Step
  | compile (source : String)
  | compileForm (form : Form)
  | register (name : String) (params : List String) (body : Form)
  | clear
  | reset (builtin : Bool)

/-- What a step does to the table, and the text it answers if it answers one. -/
def Step.run (limits : Limits) : Step → StateM MacroTable (Option String)
  | compile source => do return some (← LispScript.compile limits source).text
  | compileForm form => do return some (← LispScript.compileForm limits form).text
  | register name params body => do return some (← MacroTable.register name params body)
  | clear => do
    modify MacroTable.clear
    return none
  | reset builtin => do
    modify (·.reset builtin)
    return none

/-- The answers of a sequence of steps, each with the table behind it. -/
def trace (limits : Limits) : List Step → MacroTable → List (Option String × MacroTable)
  | [], _ => []
  | step :: steps, table => step.run limits table :: trace limits steps (step.run limits table).2

/-- The table behind a sequence of steps. -/
def after (limits : Limits) : List Step → MacroTable → MacroTable
  | [], table => table
  | step :: steps, table => after limits steps (step.run limits table).2

/-- No step leaves a name active that was not. -/
theorem Step.active_run (limits : Limits) (step : Step) (table : MacroTable) :
    (step.run limits table).2.active = table.active := by
  cases step with
  | compile source => exact compile_active limits source table
  | compileForm form =>
    have hactive := render_active (some limits.printing) limits.writing form table
    rw [← compileForm_table] at hactive
    exact hactive
  | register name params body => rfl
  | clear => rfl
  | reset builtin => cases builtin <;> rfl

/-- Behind no step of a session a name is active. -/
theorem active_of_mem_trace {steps : List Step} (hidle : table.active = []) :
    ∀ answer ∈ trace limits steps table, answer.2.active = [] := by
  induction steps generalizing table with
  | nil => simp [trace]
  | cons step steps ih =>
    have hstep : (step.run limits table).2.active = [] := (step.active_run limits table).trans hidle
    simp only [trace, List.forall_mem_cons]
    exact ⟨hstep, ih hstep⟩

/-- Behind a session no name is active. -/
theorem active_after {steps : List Step} (hidle : table.active = []) :
    (after limits steps table).active = [] := by
  induction steps generalizing table with
  | nil => exact hidle
  | cons step steps ih => exact ih ((step.active_run limits table).trans hidle)

/-- A reset is enough to start anew only because no name is active. -/
theorem reset_eq_start (hidle : table.active = []) (builtin : Bool) :
    table.reset builtin = .start builtin := by
  obtain ⟨entries, active⟩ := table
  obtain rfl : active = [] := hidle
  cases builtin <;> rfl

/-- Expansion never leaks out of a step. Writing a form leaves the active names as it found them, so
none is active behind any step of a session; a text that is no program changes nothing, whatever it
defines before its fault; and behind a reset all further steps go as in a new session, whatever
happened before. -/
theorem expansion_never_leaks (limits : Limits) (hidle : table.active = [])
    (history : List Step) :
    (∀ room limit f (u : MacroTable), (render room limit f u).2.active = u.active) ∧
    (∀ answer ∈ trace limits history table, answer.2.active = []) ∧
    (∀ source failure, parse limits source = .error failure →
      ∀ u : MacroTable, (Step.compile source).run limits u = (some failure.comment, u)) ∧
    ∀ builtin steps,
      trace limits steps ((Step.reset builtin).run limits (after limits history table)).2 =
        trace limits steps (.start builtin) := by
  refine ⟨render_active, active_of_mem_trace hidle, fun source failure hparse u => ?_,
    fun builtin steps => ?_⟩
  · change (some (compile limits source u).1.text, (compile limits source u).2) = _
    rw [compile_of_parse_error hparse]
    rfl
  · have hreset :
        ((Step.reset builtin).run limits (after limits history table)).2 = .start builtin :=
      reset_eq_start (active_after hidle) builtin
    rw [hreset]

/-- A recursive macro, and then a text that defines another one before its fault: only the first
macro is there, no name is active, and behind a reset both are unknown. -/
theorem expansion_never_leaks_rejected :
    let table := MacroTable.start true
    let history : List Step :=
      [.compile "(defmacro a [] (f (a)))\n(a)", .compile "(defmacro b [] 1)\n(a"]
    (trace .usual history table).map
        (fun answer => (answer.1.isSome, answer.2.entries.map Prod.fst)) =
        [(true, ["PI", "a"]), (true, ["PI", "a"])] ∧
      (∀ answer ∈ trace .usual history table, answer.2.active = []) ∧
      ∀ steps, trace .usual steps ((Step.reset false).run .usual (after .usual history table)).2 =
        trace .usual steps (.start false) := by
  intro table history
  have hidle : table.active = [] := rfl
  obtain ⟨-, hactive, -, hreset⟩ := expansion_never_leaks .usual hidle history
  exact ⟨by decide +kernel, hactive, hreset false⟩

end Session

end LispScript
