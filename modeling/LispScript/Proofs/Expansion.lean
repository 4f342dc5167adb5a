import LispScript.Proofs.Composition
import LispScript.Proofs.Tables
import Mathlib

/-!
# Expansion of macros ends

A macro is expanded inside itself at most once, since a call of an active name is only reported. All
names that ever become active are names of the table or of definitions in the data that the writing
starts from, for every body that is stored on the way is a part of that data. So each expansion uses
up one of finitely many names, and between two expansions the forms get smaller. This bounds how
many forms can be written inside each other, and the limit on their number is never met beyond that
bound. Then only the room for printing can be missing, and it is not if it holds all forms of the
data.
-/

namespace LispScript

variable {α β : Type} {f g : Form} {table : MacroTable} {room : Room}

/-! ## The data that writing starts from -/

/-- The name that a list defines as a macro. -/
def Form.definedName? : Form → Option String
  | .list [.word "defmacro", .word name, .vector _, _] => some name
  | _ => none

/-- The names that are defined as macros at any depth of a form. -/
def Form.macroNames (f : Form) : List String :=
  f.walk.filterMap definedName?

/-- The forms that the macros of a table stand for. -/
def MacroTable.bodies (table : MacroTable) : List Form :=
  table.entries.map fun entry => entry.2.body

/-- The names that have a macro, or could get one while `f` is written. -/
def expansionNames (f : Form) (table : MacroTable) : Finset String :=
  (table.entries.map Prod.fst ++ (f :: table.bodies).flatMap Form.macroNames).toFinset

/-- How deep the form and the bodies of the table are nested. -/
def expansionDepth (f : Form) (table : MacroTable) : Nat :=
  Form.nestings (f :: table.bodies)

/-- How high the form and the bodies of the table are. -/
def expansionHeight (f : Form) (table : MacroTable) : Nat :=
  Form.heights (f :: table.bodies)

/-- The number of forms that can be written inside each other if no name is active at first. -/
def expansionBound (f : Form) (table : MacroTable) : Nat :=
  ((expansionNames f table).card + 1) * expansionDepth f table

/-! ## What the table holds on the way -/

/-- Bounds on the data: the names that macros have, and how deep and how high forms are. -/
structure Scope where
  names : Finset String
  depth : Nat
  height : Nat

variable {scope : Scope}

/-- A form that is nested no deeper and is no higher than the scope, and that defines macros only
under its names. -/
structure Form.Within (scope : Scope) (f : Form) : Prop where
  nesting_le : f.nesting ≤ scope.depth
  height_le : f.height ≤ scope.height
  names_mem : ∀ name ∈ f.macroNames, name ∈ scope.names

/-- What lies below a form is within the bounds of the form. -/
theorem Form.Within.of_below (hf : f.Within scope) (h : g.Below f) : g.Within scope := by
  have hheight : g.height ≤ f.height := height_le_of_mem_walk (h.walk_subset g.mem_walk_self)
  refine ⟨Nat.le_trans (Nat.le_of_lt h.nesting_lt) hf.nesting_le,
    Nat.le_trans hheight hf.height_le, fun name hname => ?_⟩
  obtain ⟨sub, hsub, hdefined⟩ := List.mem_filterMap.mp hname
  exact hf.names_mem name (List.mem_filterMap.mpr ⟨sub, h.walk_subset hsub, hdefined⟩)

/-- A table whose macros have names of the scope and stand for forms within it. -/
def MacroTable.Within (scope : Scope) (table : MacroTable) : Prop :=
  ∀ entry ∈ table.entries, entry.1 ∈ scope.names ∧ entry.2.body.Within scope

/-- A definition within the scope keeps the table within it. -/
theorem MacroTable.Within.define (h : table.Within scope) {name : String} {m : Macro}
    (hname : name ∈ scope.names) (hbody : m.body.Within scope) :
    (table.define name m).Within scope := by
  intro entry hentry
  rcases Table.mem_assign hentry with rfl | hentry
  · exact ⟨hname, hbody⟩
  · exact h entry hentry

/-- What is found under a name is an entry of the table. -/
theorem MacroTable.mem_of_lookup? {name : String} {m : Macro} (h : table.lookup? name = some m) :
    (name, m) ∈ table.entries :=
  Table.mem_of_lookup h

/-- A run that leaves a table within the scope, with the same names active, and that finishes if
`finishes`. -/
structure Kept (scope : Scope) (finishes : Prop) (before : MacroTable)
    (run : Except TooDeep α × MacroTable) : Prop where
  within : run.2.Within scope
  active_eq : run.2.active = before.active
  ok : finishes → ∃ a, run.1 = .ok a

/-- Both steps do the same, and the run is kept. -/
def Agree (scope : Scope) (finishes : Prop) (x x' : RenderM α) (table : MacroTable) : Prop :=
  x' table = x table ∧ Kept scope finishes table (x table)

variable {finishes : Prop}

/-- Steps that agree do so whatever is made of their results. -/
theorem Agree.map {x x' : RenderM α} (h : Agree scope finishes x x' table) (assemble : α → β) :
    Agree scope finishes (assemble <$> x) (assemble <$> x') table := by
  obtain ⟨heq, hkept⟩ := h
  unfold Agree
  rw [Steps.map_apply, Steps.map_apply, heq]
  refine ⟨rfl, hkept.within, hkept.active_eq, fun hfinishes => ?_⟩
  obtain ⟨a, ha⟩ := hkept.ok hfinishes
  exact ⟨assemble a, by rw [ha]; rfl⟩

/-- Parts that are each written alike are written alike one after the other. -/
theorem writeEach_agree {r r' : Renderer} {parts : List Part} {active : List String}
    (hparts : ∀ p ∈ parts, ∀ u : MacroTable, u.Within scope → u.active = active →
      Agree scope finishes (p.write room r) (p.write room r') u) :
    ∀ {table : MacroTable}, table.Within scope → table.active = active →
      Agree scope finishes (writeEach room r parts) (writeEach room r' parts) table := by
  induction parts with
  | nil =>
    intro table hwithin _
    exact ⟨rfl, hwithin, rfl, fun _ => ⟨[], rfl⟩⟩
  | cons p parts ih =>
    intro table hwithin hactive
    obtain ⟨heq, hkept⟩ := hparts p List.mem_cons_self table hwithin hactive
    unfold Agree
    cases hrun : p.write room r table with
    | mk result u =>
      rw [hrun] at heq hkept
      cases result with
      | error e =>
        rw [writeEach, writeEach, Steps.bind_of_error heq, Steps.bind_of_error hrun]
        refine ⟨rfl, hkept.within, hkept.active_eq, fun h => ?_⟩
        obtain ⟨a, ha⟩ := hkept.ok h
        cases ha
      | ok text =>
        obtain ⟨hrest, hkept'⟩ := (ih (fun p hp => hparts p (List.mem_cons_of_mem _ hp))
          hkept.within (hkept.active_eq.trans hactive)).map (text :: ·)
        rw [writeEach, writeEach, Steps.bind_of_ok heq, Steps.bind_of_ok hrun,
          bind_pure_comp, bind_pure_comp, hrest]
        exact ⟨rfl, hkept'.within, hkept'.active_eq.trans hkept.active_eq, hkept'.ok⟩

/-- Printing agrees with itself. It finishes if there is room for the form. -/
theorem printed_agree (hwithin : table.Within scope)
    (hroom : finishes → room.holds g.height = true) :
    Agree scope finishes (printed (g.printWithin room)) (printed (g.printWithin room)) table := by
  refine ⟨rfl, hwithin, rfl, fun hfinishes => ⟨g.print, ?_⟩⟩
  exact (g.printWithin_eq room).trans (Room.within_of_holds (hroom hfinishes) _)

/-! ## One level -/

/-- The names that can still become active. -/
def idleNames (names : Finset String) (table : MacroTable) : Finset String :=
  names \ table.active.toFinset

/-- A form and a table within the scope, for which `n` forms inside each other are enough: for each
name that can still become active as many as a body is deep, and the form itself. -/
structure InScope (scope : Scope) (n : Nat) (f : Form) (table : MacroTable) : Prop where
  form_within : f.Within scope
  table_within : table.Within scope
  enough : (idleNames scope.names table).card * scope.depth + f.nesting ≤ n

/-- What lies below a form needs one form less inside each other. -/
theorem InScope.of_below {n : Nat} {u : MacroTable} (h : InScope scope (n + 1) f table)
    (hg : g.Below f) (hu : u.Within scope) (hactive : u.active = table.active) :
    InScope scope n g u := by
  refine ⟨h.form_within.of_below hg, hu, ?_⟩
  have henough := h.enough
  have hlt := hg.nesting_lt
  rw [idleNames, hactive, ← idleNames]
  omega

/-- Expanding a macro uses up its name. -/
theorem InScope.activate {n : Nat} {name : String} {m : Macro}
    (h : InScope scope (n + 1) f table) (hm : table.lookup? name = some m)
    (hname : name ∉ table.active) : InScope scope n m.body (table.activate name) := by
  obtain ⟨hmem, hbody⟩ := h.table_within _ (MacroTable.mem_of_lookup? hm)
  refine ⟨hbody, h.table_within, ?_⟩
  have hidle : idleNames scope.names (table.activate name) =
      (idleNames scope.names table).erase name := by
    ext other
    simp only [idleNames, MacroTable.activate, List.toFinset_cons, Finset.mem_sdiff,
      Finset.mem_insert, Finset.mem_erase]
    tauto
  have hcard : (idleNames scope.names table).card =
      (idleNames scope.names (table.activate name)).card + 1 := by
    rw [hidle, Finset.card_erase_add_one]
    simp [idleNames, hmem, hname]
  have henough := h.enough
  have hpos := f.nesting_pos
  have hle : m.body.nesting ≤ scope.depth := hbody.nesting_le
  rw [hcard, Nat.add_one_mul] at henough
  omega

/-- The active names of a form that is written inside another one: the same, or one more that was
not active and can have a macro. -/
def Extends (names : Finset String) (active active' : List String) : Prop :=
  active' = active ∨ ∃ name ∈ names, name ∉ active ∧ active' = name :: active

/-- A definition is made alike by all renderers. It is made if there is room for its parameters. -/
theorem InScope.kept_define {n : Nat} {name : String} {params : List Form} {body : Form}
    (h : InScope scope n f table)
    (hshape : f = .list [.word "defmacro", .word name, .vector params, body])
    (hroom : finishes → room.holds scope.height = true) :
    Kept scope finishes table (if room.holds (Form.heights params) then
      (.ok (definedRemark name), table.define name { params := params.map Form.print, body })
      else (.error {}, table)) := by
  have hname : name ∈ f.macroNames :=
    List.mem_filterMap.mpr ⟨f, f.mem_walk_self, by rw [hshape]; rfl⟩
  have hbody : body.Below f := by
    rw [hshape]
    exact (Form.below_of_mem_items (by simp)).1
  have hheight : Form.heights params ≤ f.height := by
    rw [hshape]
    simp only [Form.height, Form.heights]
    omega
  split
  · exact ⟨h.table_within.define (h.form_within.names_mem name hname)
      (h.form_within.of_below hbody), rfl, fun _ => ⟨_, rfl⟩⟩
  · rename_i hmissing
    refine ⟨h.table_within, rfl, fun hfinishes => absurd ?_ hmissing⟩
    exact Room.holds_of_le (hroom hfinishes) (Nat.le_trans hheight h.form_within.height_le)

/-- A macro is expanded alike if its body is written alike where its name is active. -/
theorem expand_agree {r r' : Renderer} {name : String} {m : Macro} (hwithin : table.Within scope)
    (hbody : name ∉ table.active →
      Agree scope finishes (r m.body) (r' m.body) (table.activate name)) :
    Agree scope finishes (expand r name m) (expand r' name m) table := by
  unfold Agree
  by_cases hactive : name ∈ table.active
  · simp only [expand_of_mem hactive]
    exact ⟨trivial, hwithin, rfl, fun _ => ⟨_, rfl⟩⟩
  · obtain ⟨heq, hkept⟩ := hbody hactive
    simp only [expand_of_not_mem hactive, heq]
    refine ⟨trivial, hkept.within, ?_, hkept.ok⟩
    -- the name that was activated is the first one, so it is the one that is taken away
    have hfirst : (r m.body (table.activate name)).2.active = name :: table.active :=
      hkept.active_eq
    simp only [MacroTable.deactivate, hfirst, List.erase_cons_head]

/-- If two renderers write alike all forms that can stand inside `f`, then one level of `f` is
written alike over them. -/
theorem renderLevel_agree {r r' : Renderer} {n : Nat} (h : InScope scope (n + 1) f table)
    (hroom : finishes → room.holds scope.height = true)
    (hr : ∀ g u, InScope scope n g u → Extends scope.names table.active u.active →
      Agree scope finishes (r g) (r' g) u) :
    Agree scope finishes (renderLevel expand room r f) (renderLevel expand room r' f) table := by
  have hparts : Agree scope finishes (writeEach room r f.parts) (writeEach room r' f.parts)
      table := by
    refine writeEach_agree (fun p hp u hu hactive => ?_) h.table_within rfl
    cases p with
    | script g =>
      exact hr g u (h.of_below (Form.below_of_mem_parts hp) hu hactive) (Or.inl hactive)
    | source g =>
      refine printed_agree hu fun hfinishes => Room.holds_of_le (hroom hfinishes) ?_
      exact Nat.le_trans (Form.height_le_of_mem_parts hp) h.form_within.height_le
  unfold Agree
  cases level f with
  | definition name params body shape run =>
    rw [run, run]
    exact ⟨rfl, h.kept_define shape hroom⟩
  | plain assemble run =>
    rw [run, run]
    exact hparts.map assemble
  | call name args assemble shape run =>
    rw [run, run]
    cases hlookup : table.lookup? name with
    | none => exact hparts.map assemble
    | some m =>
      have hname := (h.table_within _ (MacroTable.mem_of_lookup? hlookup)).1
      refine expand_agree h.table_within fun hactive => ?_
      exact hr m.body _ (h.activate hlookup hactive) (Or.inr ⟨name, hname, hactive, rfl⟩)

/-! ## All levels -/

/-- Renderers that are one level apart each, such as the limited ones from some depth on, write what
is in scope as the limited renderer does, and finish if there is room for printing. -/
theorem render_agree (rs : Nat → Renderer)
    (hrs : ∀ n f, rs (n + 1) f = renderLevel expand room (rs n) f) {n : Nat} :
    ∀ {f : Form} {table : MacroTable}, InScope scope n f table →
      Agree scope (room.holds scope.height = true) (render room n f) (rs n f) table := by
  induction n with
  | zero =>
    intro f table h
    have henough := h.enough
    have hpos := f.nesting_pos
    omega
  | succ n ih =>
    intro f table h
    have hlevel := renderLevel_agree h id fun g u hg _ => ih hg
    exact ⟨by rw [hrs]; exact hlevel.1, hlevel.2⟩

/-- What is in scope is written to its end, if there is room for printing. -/
theorem InScope.kept {n : Nat} (h : InScope scope n f table) (room : Room) :
    Kept scope (room.holds scope.height = true) table (render room n f table) :=
  (render_agree (render room) (fun _ _ => rfl) h).2

/-- A higher limit changes nothing. -/
theorem InScope.render_eq {n d : Nat} (h : InScope scope n f table) (room : Room) (hd : n ≤ d) :
    render room d f table = render room n f table := by
  have hlevels (i : Nat) (f : Form) : render room (i + 1 + (d - n)) f =
      renderLevel expand room (render room (i + (d - n))) f := by
    rw [Nat.add_right_comm]
    rfl
  have hagree := (render_agree (fun i => render room (i + (d - n))) hlevels h).1
  rwa [Nat.add_sub_of_le hd] at hagree

/-- How many forms inside each other are enough to write a form. -/
def expansionNeed (f : Form) (table : MacroTable) : Nat :=
  (idleNames (expansionNames f table) table).card * expansionDepth f table + f.nesting

/-- The bounds of a form and the bodies of a table. -/
def expansionScope (f : Form) (table : MacroTable) : Scope where
  names := expansionNames f table
  depth := expansionDepth f table
  height := expansionHeight f table

/-- A form and a table are in the scope that they make. -/
theorem inScope_self (f : Form) (table : MacroTable) :
    InScope (expansionScope f table) (expansionNeed f table) f table := by
  have hdata : ∀ g ∈ f :: table.bodies, g.Within (expansionScope f table) := by
    intro g hg
    refine ⟨Form.nestings_le_iff.mp (Nat.le_refl _) g hg,
      Form.heights_le_iff.mp (Nat.le_refl _) g hg, fun name hname => ?_⟩
    exact List.mem_toFinset.mpr
      (List.mem_append_right _ (List.mem_flatMap.mpr ⟨g, hg, hname⟩))
  refine ⟨hdata f List.mem_cons_self, fun entry hentry => ⟨?_, ?_⟩, Nat.le_refl _⟩
  · exact List.mem_toFinset.mpr (List.mem_append_left _ (List.mem_map_of_mem hentry))
  · exact hdata _ (List.mem_cons_of_mem _ (List.mem_map_of_mem hentry))

/-! ## The renderer without a limit -/

/-- Writes a form with as many forms inside each other as it needs. -/
def renderFully (room : Room) : Renderer := fun f table =>
  render room (expansionNeed f table) f table

/-- Under any limit that is enough a form is written as without a limit. -/
theorem InScope.renderFully_eq {n : Nat} (h : InScope scope n f table) (room : Room) :
    renderFully room f table = render room n f table := by
  have hself := (inScope_self f table).render_eq room (Nat.le_max_left (expansionNeed f table) n)
  have hlimit := h.render_eq room (Nat.le_max_right (expansionNeed f table) n)
  rw [renderFully, ← hself, hlimit]

/-- The renderer without a limit agrees with the limited one on what is in scope. -/
theorem InScope.agree_renderFully {n : Nat} (h : InScope scope n f table) (room : Room) :
    Agree scope (room.holds scope.height = true) (render room n f) (renderFully room f) table :=
  ⟨h.renderFully_eq room, h.kept room⟩

/-- The renderer without a limit writes a form by writing its parts without a limit, and it is the
only renderer that does so. -/
theorem renderFully_unique (room : Room) (r : Renderer) :
    (∀ f, r f = renderLevel expand room r f) ↔ r = renderFully room := by
  constructor
  · intro hr
    funext f table
    exact (render_agree (fun _ => r) (fun _ f => hr f) (inScope_self f table)).1
  · rintro rfl f
    funext table
    have hself := inScope_self f table
    obtain ⟨n, hn⟩ : ∃ n, expansionNeed f table = n + 1 :=
      ⟨expansionNeed f table - 1, by have := f.nesting_pos; rw [expansionNeed]; omega⟩
    rw [hn] at hself
    rw [(renderLevel_agree hself id fun g u hg _ => hg.agree_renderFully room).1,
      hself.renderFully_eq room]
    rfl

/-! ## What is seen on the way -/

/-- Writes a form as `render` does and watches it: `level` is the number of forms that are being
written inside each other. Where this number and the table are not `allowed`, before or behind a
form, `otherwise` takes over. -/
def renderWatched (room : Room) (allowed : Nat → MacroTable → Bool) (otherwise : Renderer) :
    (depth level : Nat) → Renderer
  | 0, _ => fun _ => throw {}
  | depth + 1, level => fun f table =>
    if allowed level table then
      let inner := renderWatched room allowed otherwise depth (level + 1)
      let run := renderLevel expand room inner f table
      if allowed level run.2 then run else otherwise f run.2
    else otherwise f table

/-- At most `bound` forms are written inside each other, and the active names are all different and
among the given ones. -/
def allowedBy (names : Finset String) (bound level : Nat) (table : MacroTable) : Bool :=
  level ≤ bound && table.active.Nodup && table.active.all (· ∈ names)

/-- Inside of a form the active names are still all different and among the given ones. -/
theorem Extends.keeps {names : Finset String} {active active' : List String}
    (h : Extends names active active') (hnodup : active.Nodup)
    (hmem : ∀ name ∈ active, name ∈ names) :
    active'.Nodup ∧ ∀ name ∈ active', name ∈ names := by
  rcases h with rfl | ⟨name, hname, hnew, rfl⟩
  · exact ⟨hnodup, hmem⟩
  · exact ⟨List.nodup_cons.mpr ⟨hnew, hnodup⟩, List.forall_mem_cons.mpr ⟨hname, hmem⟩⟩

/-- Nothing that is not allowed is ever seen, whatever the limit. -/
theorem renderWatched_agree {bound limit : Nat} (otherwise : Renderer) :
    ∀ {level n : Nat} {f : Form} {table : MacroTable}, InScope scope n f table →
      level + n = bound + 1 → table.active.Nodup → (∀ name ∈ table.active, name ∈ scope.names) →
      Agree scope False (render room limit f)
        (renderWatched room (allowedBy scope.names bound) otherwise limit level f) table := by
  induction limit with
  | zero =>
    intro level n f table h _ _ _
    exact ⟨rfl, h.table_within, rfl, False.elim⟩
  | succ limit ih =>
    intro level n f table h hlevel hnodup hmem
    have henough := h.enough
    have hpos := f.nesting_pos
    obtain ⟨n, rfl⟩ : ∃ m, n = m + 1 := ⟨n - 1, by omega⟩
    obtain ⟨heq, hkept⟩ := renderLevel_agree h False.elim fun g u hg hextends =>
      have hactive := hextends.keeps hnodup hmem
      ih hg (show level + 1 + n = bound + 1 by omega) hactive.1 hactive.2
    have hallowed {u : MacroTable} (hu : u.active = table.active) :
        allowedBy scope.names bound level u = true := by
      simp only [allowedBy, hu, Bool.and_eq_true, decide_eq_true_eq, List.all_eq_true]
      exact ⟨⟨by omega, hnodup⟩, hmem⟩
    refine ⟨?_, hkept⟩
    have hbehind := hallowed hkept.active_eq
    rw [← heq] at hbehind
    simp only [renderWatched, if_pos (hallowed rfl), if_pos hbehind]
    exact heq

/-- Where no name is active the bound is enough. -/
theorem inScope_bound (hidle : table.active = []) :
    InScope (expansionScope f table) (expansionBound f table) f table := by
  have hself := inScope_self f table
  refine ⟨hself.form_within, hself.table_within, ?_⟩
  have hall : idleNames (expansionNames f table) table = expansionNames f table := by
    simp [idleNames, hidle]
  have hnesting : f.nesting ≤ expansionDepth f table := hself.form_within.nesting_le
  change (idleNames (expansionNames f table) table).card * expansionDepth f table + _ ≤ _
  rw [hall, expansionBound, Nat.add_one_mul]
  omega

/-- Expansion of macros ends, whatever room there is for printing. At most `expansionBound f table`
forms are ever written inside each other, and the active names are different names of the data; so
under any limit from the bound on `f` is written as without one. It is written to its end if the
room holds all forms of the data. The renderer without a limit is the only solution of its
recursion. -/
theorem render_finishes {f : Form} {table : MacroTable} (hidle : table.active = []) (room : Room) :
    (∀ otherwise limit, renderWatched room
      (allowedBy (expansionNames f table) (expansionBound f table)) otherwise limit 1 f table =
        render room limit f table) ∧
    (∀ limit, expansionBound f table ≤ limit →
      render room limit f table = renderFully room f table) ∧
    (room.holds (expansionHeight f table) = true →
      ∃ text table', renderFully room f table = (.ok text, table')) ∧
    ∀ r : Renderer, (∀ g, r g = renderLevel expand room r g) ↔ r = renderFully room := by
  have hscope : InScope (expansionScope f table) (expansionBound f table) f table :=
    inScope_bound hidle
  refine ⟨fun otherwise limit => ?_, fun limit hlimit => ?_, fun hholds => ?_,
    renderFully_unique room⟩
  · have hnodup : table.active.Nodup := by simp [hidle]
    have hmem : ∀ name ∈ table.active, name ∈ expansionNames f table := by simp [hidle]
    exact (renderWatched_agree otherwise hscope (Nat.add_comm _ _) hnodup hmem).1
  · exact (hscope.render_eq room hlimit).trans (hscope.renderFully_eq room).symm
  · obtain ⟨text, htext⟩ := (hscope.kept room).ok hholds
    exact ⟨text, _, (hscope.renderFully_eq room).trans (Prod.ext htext rfl)⟩

/-- Two macros that call each other, where the first defines the second anew while it is expanded:
twelve forms inside each other are enough, and room for printing four. -/
theorem render_finishes_mutual :
    let f : Form := .list [.word "a"]
    let redefining : Form := .list [.word "do",
      .list [.word "defmacro", .word "b", .vector [], .list [.word "a"]], .list [.word "b"]]
    let table : MacroTable := ⟨[("a", ⟨[], redefining⟩), ("b", ⟨[], .list [.word "a"]⟩)], []⟩
    table.active = [] ∧ expansionBound f table = 12 ∧ expansionHeight f table = 4 ∧
      ∃ text table', renderFully (some 4) f table = (.ok text, table') ∧
        ∀ limit, 12 ≤ limit → render (some 4) limit f table = (.ok text, table') := by
  intro f redefining table
  have hidle : table.active = [] := rfl
  have hbound : expansionBound f table = 12 := by cbv
  have hheight : expansionHeight f table = 4 := by cbv
  obtain ⟨-, hsame, hends, -⟩ := render_finishes (f := f) hidle (some 4)
  obtain ⟨text, table', hfully⟩ := hends (by rw [hheight]; rfl)
  refine ⟨hidle, hbound, hheight, text, table', hfully, fun limit hlimit => ?_⟩
  rw [hsame limit (by rw [hbound]; exact hlimit), hfully]

end LispScript
