import LispScript.Proofs.Relevance

/-!
# What is written along with a form

Writing a form writes other forms on the way: the parts of it from left to right, or instead of them
the body of the macro that it calls. So every form that is written stands in the form itself or in a
body that was stored before, and outside of expansions it stands in the form itself. Of what is
stored on the way nothing new can come, since it stood in one of these.
-/

namespace LispScript

variable {room : Room} {depth : Nat} {f g : Form} {ps : List Part} {table : MacroTable}
  {via : List String} {r r' : Renderer}

/-- The macro that a form calls, with its name. -/
def Form.calledMacro? (f : Form) (table : MacroTable) : Option (String × Macro) :=
  f.calledWord?.bind fun name => (table.lookup? name).map (name, ·)

/-- A macro that is called is the macro of the word at the head. -/
theorem Form.lookup?_of_calledMacro? {name : String} {m : Macro}
    (h : f.calledMacro? table = some (name, m)) :
    f.calledWord? = some name ∧ table.lookup? name = some m := by
  obtain ⟨word, hword, hmacro⟩ := Option.bind_eq_some_iff.mp h
  obtain ⟨found, hlookup, hpair⟩ := Option.map_eq_some_iff.mp hmacro
  cases hpair
  exact ⟨hword, hlookup⟩

/-- Writing the parts one after the other from `table` writes `g` as script on the way, inside of
the expansions of the macros `via`, the outermost first. -/
inductive Writes (room : Room) : Nat → List Part → MacroTable → List String → Form → Prop
  /-- The first part is written itself. -/
  | here {depth : Nat} {f : Form} {ps : List Part} {table : MacroTable} :
      Writes room (depth + 1) (.script f :: ps) table [] f
  /-- Once the first part is written or printed, the others are. -/
  | behind {depth : Nat} {p : Part} {g : Form} {ps : List Part} {table table' : MacroTable}
      {via : List String} {text : String}
      (first : p.write room (render room depth) table = (.ok text, table'))
      (later : Writes room depth ps table' via g) : Writes room depth (p :: ps) table via g
  /-- The parts of a form are written that calls no macro. -/
  | part {depth : Nat} {f g : Form} {ps : List Part} {table : MacroTable} {via : List String}
      (uncalled : f.calledMacro? table = none) (inner : Writes room depth f.parts table via g) :
      Writes room (depth + 1) (.script f :: ps) table via g
  /-- The body of a macro is written where it is called, unless it is being expanded already. -/
  | expansion {depth : Nat} {f g : Form} {ps : List Part} {table : MacroTable} {via : List String}
      {name : String} {m : Macro} (called : f.calledMacro? table = some (name, m))
      (inactive : name ∉ table.active)
      (inner : Writes room depth [.script m.body] (table.activate name) via g) :
      Writes room (depth + 1) (.script f :: ps) table (name :: via) g

/-! ## What is not written has no say

So `Writes` misses nothing that is written: of a form that it does not reach, it makes no difference
to the script and to the table how that form would be written. -/

/-- A form that calls a word is a list with this head, and it means that call. -/
theorem Form.ofItems_of_calledWord? {name : String} (h : f.calledWord? = some name) :
    ∃ args, f = .list (.word name :: args) ∧
      Construct.ofItems (.word name :: args) = .call (.word name) args := by
  unfold calledWord? at h
  split at h
  · rename_i word args
    split at h
    · rename_i declined
      cases h
      refine ⟨args, rfl, ?_⟩
      rw [Construct.ofItems, Construct.specialName?, Option.bind_some, declined, Option.getD_none]
      rfl
    · cases h
  · cases h

/-- A macro that is called is expanded. -/
theorem renderLevel_of_calledMacro? {name : String} {m : Macro}
    (h : f.calledMacro? table = some (name, m)) (room : Room) (r : Renderer) :
    renderLevel expand room r f table = expand r name m table := by
  obtain ⟨hword, hlookup⟩ := Form.lookup?_of_calledMacro? h
  obtain ⟨args, rfl, hmeaning⟩ := Form.ofItems_of_calledWord? hword
  rw [renderLevel_call hmeaning, hlookup]

/-- A form that calls no macro is written by its parts, if it writes anything below it. -/
theorem renderLevel_congr_of_uncalled (huncalled : f.calledMacro? table = none)
    (hparts : writeEach room r f.parts table = writeEach room r' f.parts table) :
    renderLevel expand room r f table = renderLevel expand room r' f table := by
  cases level f with
  | definition name params body shape run => rw [run, run]
  | plain assemble run => rw [run, run, Steps.map_apply, Steps.map_apply, hparts]
  | call name args assemble shape run declined =>
    have hlookup : table.lookup? name = none := by
      have hword := shape ▸ Form.calledWord?_of_declined declined
      rw [Form.calledMacro?, hword, Option.bind_some, Option.map_eq_none_iff] at huncalled
      exact huncalled
    rw [run, run, hlookup]
    simp only [Steps.map_apply, hparts]

/-- Writes forms as `render` does, but the marked ones in another way. -/
def renderExcept (marked : Form → Bool) (other : Renderer) (room : Room) : (depth : Nat) → Renderer
  | 0 => render room 0
  | depth + 1 => fun f =>
    if marked f then other f else renderLevel expand room (renderExcept marked other room depth) f

/-- What a form writes by itself is also written with others behind it. -/
theorem Writes.of_singleton (h : Writes room depth [.script f] table via g) :
    Writes room depth (.script f :: ps) table via g := by
  cases h with
  | here => exact .here
  | behind _ later => cases later
  | part uncalled inner => exact .part uncalled inner
  | expansion called inactive inner => exact .expansion called inactive inner

/-- If forms that write nothing but what has the property are written alike, so are parts. -/
theorem writeEach_congr_of_writes {P : Form → Prop}
    (hr : ∀ f table, (∀ via g, Writes room depth [.script f] table via g → P g) →
      r f table = render room depth f table) :
    ∀ {table : MacroTable}, (∀ via g, Writes room depth ps table via g → P g) →
      writeEach room r ps table = writeEach room (render room depth) ps table := by
  induction ps with
  | nil => exact fun _ => rfl
  | cons p ps ih =>
    intro table h
    have hfirst : p.write room r table = p.write room (render room depth) table := by
      cases p with
      | script f => exact hr f table fun via g hg => h via g hg.of_singleton
      | source f => rfl
    rcases hrun : p.write room (render room depth) table with ⟨result, table'⟩
    rw [hrun] at hfirst
    cases result with
    | error e => rw [writeEach, writeEach, Steps.bind_of_error hrun, Steps.bind_of_error hfirst]
    | ok text =>
      have hlater := ih fun via g hg => h via g (.behind hrun hg)
      rw [writeEach, writeEach, Steps.bind_of_ok hrun, Steps.bind_of_ok hfirst, bind_pure_comp,
        bind_pure_comp, Steps.map_apply, Steps.map_apply, hlater]

/-- A form is written alike whatever is done about forms that are not written on the way. -/
theorem renderExcept_eq_render {marked : Form → Bool} (other : Renderer) :
    ∀ depth f table, (∀ via g, Writes room depth [.script f] table via g → marked g = false) →
      renderExcept marked other room depth f table = render room depth f table := by
  intro depth
  induction depth with
  | zero => exact fun f table _ => rfl
  | succ depth ih =>
    intro f table h
    have hunmarked : marked f = false := h [] f .here
    simp only [renderExcept, hunmarked, Bool.false_eq_true, if_false]
    change _ = renderLevel expand room (render room depth) f table
    cases hcalled : f.calledMacro? table with
    | none =>
      refine renderLevel_congr_of_uncalled hcalled ?_
      exact writeEach_congr_of_writes ih fun via g hg => h via g (.part hcalled hg)
    | some found =>
      obtain ⟨name, m⟩ := found
      rw [renderLevel_of_calledMacro? hcalled, renderLevel_of_calledMacro? hcalled]
      by_cases hname : name ∈ table.active
      · rw [expand_of_mem hname, expand_of_mem hname]
      · have hbody := ih m.body (table.activate name) fun via g hg =>
          h _ g (.expansion hcalled hname hg)
        rw [expand_of_not_mem hname, expand_of_not_mem hname, hbody]

/-! ## Where it stands -/

/-- A property that all forms at any depth of the given ones have holds of what is written outside
of expansions, and of all that is written if the bodies in the table have it at any depth. -/
theorem Writes.holds {P : Form → Prop} (h : Writes room depth ps table via g)
    (hforms : ∀ f, .script f ∈ ps → f.Throughout P)
    (hbodies : via = [] ∨ ∀ body ∈ table.bodies, body.Throughout P) : P g := by
  induction h with
  | here => exact (hforms _ List.mem_cons_self).self
  | @behind depth p g ps table table' via text first later ih =>
    refine ih (fun f hf => hforms f (List.mem_cons_of_mem _ hf))
      (hbodies.imp_right fun hbodies => ?_)
    cases p with
    | script f =>
      have hrun : render room depth f table = (.ok text, table') := first
      have hkept := (Coupling.render_invariant (fun _ => True) (fun _ _ _ _ _ _ => trivial) room
        depth (hforms f List.mem_cons_self) trivial hbodies).2
      rwa [hrun] at hkept
    | source f =>
      obtain rfl : table = table' := congrArg Prod.snd first
      exact hbodies
  | part _ _ ih =>
    have hf := hforms _ List.mem_cons_self
    exact ih (fun g hg => hf.of_below (Form.below_of_mem_parts hg)) hbodies
  | @expansion depth f g ps table via name m called _ _ ih =>
    have hbodies := hbodies.resolve_left (List.cons_ne_nil _ _)
    obtain ⟨-, hlookup⟩ := Form.lookup?_of_calledMacro? called
    have hm := hbodies _ (List.mem_map_of_mem (MacroTable.mem_of_lookup? hlookup))
    refine ih (fun g hg => ?_) (Or.inr hbodies)
    cases List.mem_singleton.mp hg
    exact hm

/-- What is written outside of expansions stands in the forms, and so does what is written in them
and stands in no body that was stored before. -/
theorem Writes.mem_walk (h : Writes room depth ps table via g)
    (horigin : via = [] ∨ ∀ body ∈ table.bodies, g ∉ body.walk) :
    ∃ f, .script f ∈ ps ∧ g ∈ f.walk := by
  by_contra hnone
  have habsent : ∀ f : Form, g ∉ f.walk → f.Throughout (· ≠ g) := by
    rintro f hf sub hsub rfl
    exact hf hsub
  refine h.holds (P := (· ≠ g)) (fun f hf => habsent f fun hg => hnone ⟨f, hf, hg⟩) ?_ rfl
  exact horigin.imp_right fun hbodies body hbody => habsent body (hbodies body hbody)

end LispScript
