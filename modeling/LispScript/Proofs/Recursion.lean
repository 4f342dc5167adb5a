import LispScript.Proofs.Expansion

/-!
# The guard against recursive macros is exact

Where nothing defines macros the table stays the same while a form is written. A macro that is
called inside its own expansion then leads back to the same call for ever, so a renderer that does
not look at the active names never finishes. The other way round, a renderer without that guard that
finishes has expanded no macro inside itself: the inner expansion would have to be done with fewer
forms inside each other than the outer one needs. So the guard reports a call exactly if there is
nothing else that could be written for it, as long as there is room to print what cannot be written.
-/

namespace LispScript

variable {α : Type} {entries : List (String × Macro)} {f g : Form} {table : MacroTable}
  {room : Room}

/-! ## Renderers without the guard -/

/-- Writes the body of a macro in place of a call, whatever names are active. -/
def expandUnguarded : Expander := fun render name m table =>
  let (result, table) := render m.body (table.activate name)
  (result, table.deactivate name)

/-- Writes a form without looking at the active names. -/
def renderUnguarded (room : Room) (depth : Nat) : Renderer :=
  renderWith expandUnguarded room depth

/-- Expands as `expand` does, but where that would report a call of an active name `otherwise` takes
over. -/
def expandOr (otherwise : Expander) : Expander := fun render name m table =>
  if name ∈ table.active then otherwise render name m table else expand render name m table

/-- Writing `f` comes to a call of an active name, under some limit: what is done about it has a say
in the outcome. -/
def ReportsRecursion (room : Room) (f : Form) (table : MacroTable) : Prop :=
  ∃ otherwise depth,
    renderWith (expandOr otherwise) room depth f table ≠ render room depth f table

/-- Where a report takes over, nothing is different. -/
theorem expandOr_expand : expandOr expand = expand := by
  funext render name m table
  simp only [expandOr, ite_self]

/-- A name that is not active is expanded in any case. -/
theorem expandOr_of_not_mem {name : String} (h : name ∉ table.active) (otherwise : Expander)
    (render : Renderer) (m : Macro) :
    expandOr otherwise render name m table = expandUnguarded render name m table := by
  simp only [expandOr, expand, if_neg h]
  rfl

/-- Where an expansion takes over, nothing is ever reported. -/
theorem expandOr_expandUnguarded : expandOr expandUnguarded = expandUnguarded := by
  funext render name m table
  by_cases h : name ∈ table.active
  · simp only [expandOr, if_pos h]
  · exact expandOr_of_not_mem h _ render m

/-! ## Forms that define nothing -/

/-- No list at any depth of the form defines a macro. -/
def Form.Inert (f : Form) : Prop :=
  f.macroNames = []

/-- No body of the macros defines a macro. -/
def InertEntries (entries : List (String × Macro)) : Prop :=
  ∀ entry ∈ entries, entry.2.body.Inert

/-- What lies below a form that defines nothing defines nothing. -/
theorem Form.Inert.of_below (hf : f.Inert) (h : g.Below f) : g.Inert := by
  rw [Inert, macroNames, List.filterMap_eq_nil_iff] at hf ⊢
  intro sub hsub
  exact hf sub (h.walk_subset hsub)

/-- What writing one level of a form does if it defines nothing: it writes the parts, or the body of
the macro that is called. The macros of the table decide which. -/
inductive Written (entries : List (String × Macro)) (f : Form) : Prop
  | parts (assemble : List String → String)
      (run : ∀ expand room render active, renderLevel expand room render f ⟨entries, active⟩ =
        (assemble <$> writeEach room render f.parts) ⟨entries, active⟩)
  | body (name : String) (m : Macro) (lookup : entries.lookup name = some m)
      (run : ∀ expand room render active, renderLevel expand room render f ⟨entries, active⟩ =
        expand render name m ⟨entries, active⟩)

/-- A form that defines nothing writes its parts or the body of a macro. -/
theorem written (entries : List (String × Macro)) (hf : f.Inert) : Written entries f := by
  cases level f with
  | definition name params body shape run =>
    have hmem : name ∈ f.macroNames :=
      List.mem_filterMap.mpr ⟨f, f.mem_walk_self, by rw [shape]; rfl⟩
    rw [hf] at hmem
    exact absurd hmem List.not_mem_nil
  | plain assemble run => exact .parts assemble fun expand room render active => by rw [run]
  | call name args assemble shape run =>
    cases hlookup : entries.lookup name with
    | none =>
      refine .parts assemble fun expand room render active => ?_
      simp only [run, MacroTable.lookup?, hlookup]
    | some m =>
      refine .body name m hlookup fun expand room render active => ?_
      simp only [run, MacroTable.lookup?, hlookup]

/-- The body of a macro that is called defines nothing. -/
theorem InertEntries.body {name : String} {m : Macro} (h : InertEntries entries)
    (hlookup : entries.lookup name = some m) : m.body.Inert := by
  have htable : (MacroTable.mk entries []).lookup? name = some m := hlookup
  exact h _ (MacroTable.mem_of_lookup? htable)

/-! ## Runs that leave the table alone -/

/-- Both steps have the same result, and each leaves its table as it was. -/
def SameResult (x x' : RenderM α) (table table' : MacroTable) : Prop :=
  ∃ result, x table = (result, table) ∧ x' table' = (result, table')

/-- Steps with the same result have it whatever is made of it. -/
theorem SameResult.map {x x' : RenderM α} {β : Type} {table' : MacroTable} (g : α → β)
    (h : SameResult x x' table table') : SameResult (g <$> x) (g <$> x') table table' := by
  obtain ⟨result, hx, hx'⟩ := h
  refine ⟨result.map g, ?_, ?_⟩
  · rw [Steps.map_apply, hx]
  · rw [Steps.map_apply, hx']

/-- Parts that have the same results each have so one after the other. -/
theorem writeEach_sameResult {r r' : Renderer} {table' : MacroTable} {parts : List Part}
    (h : ∀ g, .script g ∈ parts → SameResult (r g) (r' g) table table') :
    SameResult (writeEach room r parts) (writeEach room r' parts) table table' := by
  induction parts with
  | nil => exact ⟨.ok [], rfl, rfl⟩
  | cons p parts ih =>
    have hfirst : SameResult (p.write room r) (p.write room r') table table' := by
      cases p with
      | script g => exact h g List.mem_cons_self
      | source g => exact ⟨_, rfl, rfl⟩
    obtain ⟨result, hp, hp'⟩ := hfirst
    cases result with
    | error e =>
      refine ⟨.error e, ?_, ?_⟩
      · rw [writeEach, Steps.bind_of_error hp]
      · rw [writeEach, Steps.bind_of_error hp']
    | ok text =>
      obtain ⟨texts, hrest, hrest'⟩ :=
        (ih fun g hg => h g (List.mem_cons_of_mem _ hg)).map (text :: ·)
      refine ⟨texts, ?_, ?_⟩
      · rw [writeEach, Steps.bind_of_ok hp, bind_pure_comp, hrest]
      · rw [writeEach, Steps.bind_of_ok hp', bind_pure_comp, hrest']

/-- If parts are written one after the other and the table stays the same, each one is written. -/
theorem ok_of_writeEach_ok {r : Renderer} {parts : List Part} {texts : List String}
    (hstays : ∀ g, .script g ∈ parts → (r g table).2 = table)
    (hok : (writeEach room r parts table).1 = .ok texts) :
    ∀ g, .script g ∈ parts → ∃ code, (r g table).1 = .ok code := by
  induction parts generalizing texts with
  | nil => exact fun g hg => absurd hg List.not_mem_nil
  | cons p parts ih =>
    cases hp : p.write room r table with
    | mk result after =>
      obtain rfl : after = table := by
        have hafter : (p.write room r table).2 = after := by rw [hp]
        cases p with
        | script g => exact hafter.symm.trans (hstays g List.mem_cons_self)
        | source g => exact hafter.symm
      cases result with
      | error e =>
        rw [writeEach, Steps.bind_of_error hp] at hok
        cases hok
      | ok text =>
        rw [writeEach, Steps.bind_of_ok hp, bind_pure_comp, Steps.map_apply] at hok
        intro g hg
        rcases List.mem_cons.mp hg with rfl | hg
        · exact ⟨text, congrArg Prod.fst hp⟩
        · cases hrest : (writeEach room r parts after).1 with
          | error e =>
            rw [hrest] at hok
            cases hok
          | ok later => exact ih (fun g hg => hstays g (List.mem_cons_of_mem _ hg)) hrest g hg

/-- Expanding without the guard has the result of writing the body. -/
theorem expandUnguarded_sameResult {r r' : Renderer} {name : String} {m : Macro}
    {table' : MacroTable}
    (h : SameResult (r m.body) (r' m.body) (table.activate name) (table'.activate name)) :
    SameResult (expandUnguarded r name m) (expandUnguarded r' name m) table table' := by
  obtain ⟨result, hbody, hbody'⟩ := h
  have hback (u : MacroTable) : (u.activate name).deactivate name = u := by
    simp [MacroTable.activate, MacroTable.deactivate]
  exact ⟨result, by simp only [expandUnguarded, hbody, hback],
    by simp only [expandUnguarded, hbody', hback]⟩

/-- The renderer without the guard leaves the table alone, and the active names have no say in its
result. -/
theorem renderUnguarded_sameResult (hentries : InertEntries entries) (depth : Nat) :
    ∀ {f : Form}, f.Inert → ∀ active active' : List String,
      SameResult (renderUnguarded room depth f) (renderUnguarded room depth f) ⟨entries, active⟩
        ⟨entries, active'⟩ := by
  induction depth with
  | zero => exact fun _ _ _ => ⟨.error {}, rfl, rfl⟩
  | succ depth ih =>
    intro f hf active active'
    unfold SameResult
    change ∃ result,
      renderLevel expandUnguarded room (renderUnguarded room depth) f ⟨entries, active⟩ = _ ∧
      renderLevel expandUnguarded room (renderUnguarded room depth) f ⟨entries, active'⟩ = _
    cases written entries hf with
    | parts assemble run =>
      rw [run, run]
      exact (writeEach_sameResult fun g hg =>
        ih (hf.of_below (Form.below_of_mem_parts hg)) active active').map assemble
    | body name m lookup run =>
      rw [run, run]
      exact expandUnguarded_sameResult (ih (hentries.body lookup) _ _)

/-! ## How deep the renderer without the guard has to go -/

/-- The renderer without the guard finishes within `depth` forms inside each other. -/
def Settles (room : Room) (entries : List (String × Macro)) (depth : Nat) (f : Form) : Prop :=
  ∃ text, (renderUnguarded room depth f ⟨entries, []⟩).1 = .ok text

/-- Without any depth nothing is written. -/
theorem not_settles_zero : ¬ Settles room entries 0 f := by
  rintro ⟨text, h⟩
  cases h

/-- What is written inside a form finishes one level earlier. -/
theorem Settles.of_succ {depth : Nat} (hentries : InertEntries entries) (hf : f.Inert)
    (h : Settles room entries (depth + 1) f) :
    (∃ assemble : List String → String, (∀ expand room render active,
      renderLevel expand room render f ⟨entries, active⟩ =
        (assemble <$> writeEach room render f.parts) ⟨entries, active⟩) ∧
      ∀ g, .script g ∈ f.parts → g.Inert ∧ Settles room entries depth g) ∨
    ∃ name m, entries.lookup name = some m ∧ (∀ expand room render active,
      renderLevel expand room render f ⟨entries, active⟩ = expand render name m ⟨entries, active⟩) ∧
      Settles room entries depth m.body := by
  obtain ⟨text, htext⟩ := h
  change (renderLevel expandUnguarded room (renderUnguarded room depth) f ⟨entries, []⟩).1 = _
    at htext
  cases written entries hf with
  | parts assemble run =>
    refine Or.inl ⟨assemble, run, fun g hg => ⟨hf.of_below (Form.below_of_mem_parts hg), ?_⟩⟩
    rw [run, Steps.map_apply] at htext
    have hstays : ∀ g, .script g ∈ f.parts →
        (renderUnguarded room depth g ⟨entries, []⟩).2 = ⟨entries, []⟩ := by
      intro g hg
      obtain ⟨result, hrun, -⟩ := renderUnguarded_sameResult hentries depth
        (hf.of_below (Form.below_of_mem_parts hg)) [] []
      rw [hrun]
    cases hcodes : (writeEach room (renderUnguarded room depth) f.parts ⟨entries, []⟩).1 with
    | error e =>
      rw [hcodes] at htext
      cases htext
    | ok codes => exact ok_of_writeEach_ok hstays hcodes g hg
  | body name m lookup run =>
    refine Or.inr ⟨name, m, lookup, run, text, ?_⟩
    rw [run] at htext
    obtain ⟨result, hrun, hrun'⟩ :=
      renderUnguarded_sameResult hentries depth (hentries.body lookup) [name] []
    have hexpand : (expandUnguarded (renderUnguarded room depth) name m ⟨entries, []⟩).1 =
        (renderUnguarded room depth m.body ⟨entries, [name]⟩).1 := rfl
    rw [hexpand, hrun] at htext
    rw [hrun', ← htext]

/-- What finishes has the same result under every higher limit. -/
theorem Settles.sameResult (hentries : InertEntries entries) {depth : Nat} :
    ∀ {f : Form} {limit : Nat}, f.Inert → Settles room entries depth f → depth ≤ limit →
      ∀ active, SameResult (renderUnguarded room limit f) (renderUnguarded room depth f)
        ⟨entries, active⟩ ⟨entries, active⟩ := by
  induction depth with
  | zero => exact fun _ h => absurd h not_settles_zero
  | succ depth ih =>
    intro f limit hf h hle active
    obtain ⟨limit, rfl⟩ : ∃ n, limit = n + 1 := ⟨limit - 1, by omega⟩
    have hle : depth ≤ limit := by omega
    unfold SameResult
    change ∃ result,
      renderLevel expandUnguarded room (renderUnguarded room limit) f ⟨entries, active⟩ = _ ∧
      renderLevel expandUnguarded room (renderUnguarded room depth) f ⟨entries, active⟩ = _
    rcases h.of_succ hentries hf with ⟨assemble, run, hparts⟩ | ⟨name, m, hlookup, run, hbody⟩
    · rw [run, run]
      exact (writeEach_sameResult fun g hg =>
        ih (hparts g hg).1 (hparts g hg).2 hle active).map assemble
    · rw [run, run]
      exact expandUnguarded_sameResult (ih (hentries.body hlookup) hbody hle (name :: active))

/-- A macro that finishes does so first within some depth. -/
theorem Settles.exists_first {depth : Nat} (h : Settles room entries depth f) :
    ∃ first ≤ depth, Settles room entries first f ∧ ∀ k < first, ¬ Settles room entries k f := by
  classical
  have hex : ∃ k, Settles room entries k f := ⟨depth, h⟩
  exact ⟨Nat.find hex, Nat.find_min' hex h, Nat.find_spec hex, fun k => Nat.find_min hex⟩

/-! ## The guard -/

/-- No active macro finishes within less than `depth`. So whatever finishes within `depth` calls
none of them. -/
def Unsettled (room : Room) (entries : List (String × Macro)) (depth : Nat)
    (active : List String) : Prop :=
  ∀ name ∈ active, ∀ m, entries.lookup name = some m → ∀ k < depth, ¬ Settles room entries k m.body

/-- Where the renderer without the guard finishes no active name is called, so the guard makes no
difference, whatever is done about active names and whatever the limit. -/
theorem renderWith_expandOr_sameResult (hentries : InertEntries entries) (otherwise : Expander)
    (depth : Nat) : ∀ {f : Form} {active : List String} (limit : Nat), f.Inert →
      Settles room entries depth f → Unsettled room entries depth active →
      SameResult (renderWith (expandOr otherwise) room limit f) (renderUnguarded room limit f)
        ⟨entries, active⟩ ⟨entries, active⟩ := by
  induction depth using Nat.strong_induction_on with
  | h depth ih =>
    intro f active limit hf hsettles hunsettled
    obtain ⟨depth, rfl⟩ : ∃ d, depth = d + 1 := by
      cases depth with
      | zero => exact absurd hsettles not_settles_zero
      | succ d => exact ⟨d, rfl⟩
    cases limit with
    | zero => exact ⟨.error {}, rfl, rfl⟩
    | succ limit =>
      unfold SameResult
      change ∃ result,
        renderLevel (expandOr otherwise) room (renderWith (expandOr otherwise) room limit) f
          ⟨entries, active⟩ = _ ∧
        renderLevel expandUnguarded room (renderUnguarded room limit) f ⟨entries, active⟩ = _
      rcases hsettles.of_succ hentries hf with
        ⟨assemble, run, hparts⟩ | ⟨name, m, hlookup, run, hbody⟩
      · rw [run, run]
        have hfewer : Unsettled room entries depth active :=
          fun name hname m hlookup k hk => hunsettled name hname m hlookup k (by omega)
        exact (writeEach_sameResult fun g hg => ih depth (Nat.lt_succ_self _) limit
          (hparts g hg).1 (hparts g hg).2 hfewer).map assemble
      · -- an active macro would need more depth than is there for its own body
        have hidle : name ∉ active :=
          fun hname => hunsettled name hname m hlookup depth (Nat.lt_succ_self _) hbody
        obtain ⟨first, hle, hfirst, hmin⟩ := hbody.exists_first
        have hinner : Unsettled room entries first (name :: active) := by
          intro other hother m' hlookup' k hk
          rcases List.mem_cons.mp hother with rfl | hother
          · rw [hlookup, Option.some.injEq] at hlookup'
            rw [← hlookup']
            exact hmin k hk
          · exact hunsettled other hother m' hlookup' k (by omega)
        rw [run, run, expandOr_of_not_mem hidle]
        exact expandUnguarded_sameResult
          (ih first (by omega) limit (hentries.body hlookup) hfirst hinner)

/-- Where the renderer without the guard finishes, every renderer with it writes the same under the
same limit. -/
theorem Settles.renderWith_eq {depth : Nat} (hentries : InertEntries entries) (hf : f.Inert)
    (h : Settles room entries depth f) (otherwise : Expander) (limit : Nat) :
    renderWith (expandOr otherwise) room limit f ⟨entries, []⟩ =
      renderUnguarded room limit f ⟨entries, []⟩ := by
  have hnone : Unsettled room entries depth [] := fun _ hname => absurd hname List.not_mem_nil
  obtain ⟨result, hguarded, hunguarded⟩ :=
    renderWith_expandOr_sameResult hentries otherwise depth limit hf h hnone
  rw [hguarded, hunguarded]

/-- Under a higher limit the renderer with the guard writes what the one without it ends with. -/
theorem Settles.render_eq {depth limit : Nat} (hentries : InertEntries entries) (hf : f.Inert)
    (h : Settles room entries depth f) (hle : depth ≤ limit) :
    render room limit f ⟨entries, []⟩ = renderUnguarded room depth f ⟨entries, []⟩ := by
  obtain ⟨result, hhigher, hlower⟩ := h.sameResult hentries hf hle []
  calc render room limit f ⟨entries, []⟩
      = renderWith (expandOr expand) room limit f ⟨entries, []⟩ := by rw [expandOr_expand]; rfl
    _ = renderUnguarded room limit f ⟨entries, []⟩ := h.renderWith_eq hentries hf expand limit
    _ = renderUnguarded room depth f ⟨entries, []⟩ := by rw [hhigher, hlower]

/-- A call is reported only if the renderer without the guard never finishes. -/
theorem ReportsRecursion.not_settles (hentries : InertEntries entries) (hf : f.Inert)
    (h : ReportsRecursion room f ⟨entries, []⟩) (limit : Nat) : ¬ Settles room entries limit f := by
  obtain ⟨otherwise, depth, hdiffers⟩ := h
  intro hsettles
  refine hdiffers ((hsettles.renderWith_eq hentries hf otherwise depth).trans ?_)
  rw [← hsettles.renderWith_eq hentries hf expand depth, expandOr_expand]
  rfl

/-- The guard against recursive macros is exact. Where nothing defines macros, a recursive call is
reported only if the renderer without the guard finishes under no limit, and exactly then if there
is room for printing all forms of the data; and where that renderer finishes, the guarded one writes
the same, under the same limit and without one. -/
theorem reportsRecursion_iff_unguarded_diverges (hidle : table.active = []) (hform : f.Inert)
    (hbodies : ∀ body ∈ table.bodies, body.Inert) (room : Room) :
    (ReportsRecursion room f table →
      ∀ limit, ∃ after, renderUnguarded room limit f table = (.error {}, after)) ∧
    (room.holds (expansionHeight f table) = true → (ReportsRecursion room f table ↔
      ∀ limit, ∃ after, renderUnguarded room limit f table = (.error {}, after))) ∧
    ∀ limit text after, renderUnguarded room limit f table = (.ok text, after) →
      render room limit f table = (.ok text, after) ∧
        renderFully room f table = (.ok text, after) := by
  obtain ⟨entries, active⟩ := table
  obtain rfl : active = [] := hidle
  have hentries : InertEntries entries :=
    fun entry hentry => hbodies _ (List.mem_map_of_mem hentry)
  have honly : ReportsRecursion room f ⟨entries, []⟩ →
      ∀ limit, ∃ after, renderUnguarded room limit f ⟨entries, []⟩ = (.error {}, after) := by
    intro hreports limit
    cases hrun : renderUnguarded room limit f ⟨entries, []⟩ with
    | mk result after =>
      cases result with
      | error e => exact ⟨after, rfl⟩
      | ok text =>
        exact absurd ⟨text, by rw [hrun]⟩ (hreports.not_settles hentries hform limit)
  refine ⟨honly, fun hholds => ⟨honly, fun hdiverges => ?_⟩, fun limit text after hrun => ?_⟩
  · -- with the guard the form is written within the bound, without it not even then
    refine ⟨expandUnguarded, expansionBound f ⟨entries, []⟩, fun hsame => ?_⟩
    have hidle : (MacroTable.mk entries []).active = [] := rfl
    obtain ⟨text, htext⟩ := ((inScope_bound (f := f) hidle).kept room).ok hholds
    obtain ⟨after, hafter⟩ := hdiverges (expansionBound f ⟨entries, []⟩)
    rw [expandOr_expandUnguarded] at hsame
    rw [← hsame] at htext
    change (renderUnguarded room _ _ _).1 = _ at htext
    rw [hafter] at htext
    cases htext
  · have hsettles : Settles room entries limit f := ⟨text, by rw [hrun]⟩
    have hsame {limit' : Nat} (hle : limit ≤ limit') :
        render room limit' f ⟨entries, []⟩ = (.ok text, after) :=
      (hsettles.render_eq hentries hform hle).trans hrun
    refine ⟨hsame (Nat.le_refl _), ?_⟩
    rw [← hsame (Nat.le_max_left limit (expansionNeed f ⟨entries, []⟩))]
    exact ((inScope_self f _).render_eq room (Nat.le_max_right _ _)).symm

/-- Two macros that call each other: a call of the first is reported inside the second, and without
the guard it is never written to its end. The same call as an argument that is ignored does no
harm. -/
theorem reportsRecursion_mutual :
    let f : Form := .list [.word "a", .number "1"]
    let ignoring : Form := .list [.word "PI", f]
    let table : MacroTable := ⟨[("PI", ⟨[], .number "42"⟩),
      ("a", ⟨[], .list [.word "do", .list [.word "b"]]⟩),
      ("b", ⟨[], .list [.operator "+", .number "1", .list [.word "a"]]⟩)], []⟩
    ReportsRecursion (some 4) f table ∧
      (∀ limit, ∃ after, renderUnguarded (some 4) limit f table = (.error {}, after)) ∧
      ¬ ReportsRecursion (some 4) ignoring table ∧
      renderFully (some 4) ignoring table = (.ok "42", table) := by
  intro f ignoring table
  have hbodies : ∀ body ∈ table.bodies, body.Inert := by
    intro body hbody
    simp only [table, MacroTable.bodies, List.map_cons, List.map_nil, List.mem_cons,
      List.not_mem_nil, or_false] at hbody
    rcases hbody with rfl | rfl | rfl <;> cbv
  have hf : f.Inert := by cbv
  have hignoring : ignoring.Inert := by cbv
  have hreports : ReportsRecursion (some 4) f table := by
    refine ⟨fun _ _ _ => throw {}, 9, fun hsame => ?_⟩
    have hstops : (renderWith (expandOr fun _ _ _ => throw {}) (some 4) 9 f table).1 =
        .error {} := by cbv
    have hgoes : (render (some 4) 9 f table).1.isOk = true := by decide +kernel
    rw [← hsame, hstops] at hgoes
    cases hgoes
  have hrun : renderUnguarded (some 4) 2 ignoring table = (.ok "42", table) := by cbv
  have hheight : Room.holds (some 4) (expansionHeight f table) = true := by decide +kernel
  obtain ⟨-, hiff, -⟩ := reportsRecursion_iff_unguarded_diverges rfl hf hbodies (some 4)
  obtain ⟨hdiverges, -, hsame⟩ :=
    reportsRecursion_iff_unguarded_diverges rfl hignoring hbodies (some 4)
  refine ⟨hreports, (hiff hheight).mp hreports, fun hignored => ?_, (hsame _ _ _ hrun).2⟩
  obtain ⟨after, hafter⟩ := hdiverges hignored 2
  rw [hrun] at hafter
  cases hafter

end LispScript
