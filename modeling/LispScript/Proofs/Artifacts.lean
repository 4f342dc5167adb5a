import LispScript.Proofs.Outputs

/-!
# Which script stands where

In a batch that writes all its scripts each script is what its source compiles to when its turn
comes, and it stays unless a later one goes to the same file. Scripts in folders beside their
sources go to the same file only if their sources differ in nothing but the suffix: then the last
one stays, and nothing tells of the others.
-/

namespace LispScript

variable {target : Target} {ws : Workspace}

/-! ## Turns that all succeed -/

/-- A batch writes at most one script for each request. -/
theorem length_compileFiles_le (target : Target) (requests : List Request) (ws : Workspace) :
    (compileFiles target requests ws).1.length ≤ requests.length := by
  induction requests generalizing ws with
  | nil => exact le_rfl
  | cons request requests ih =>
    have hrest := ih (turn target request ws).2
    have hfirst : (turn target request ws).1.toList.length ≤ 1 := by
      cases (turn target request ws).1 <;> simp
    rw [compileFiles_cons, List.length_append, List.length_cons]
    omega

/-- A batch keeps all folders. -/
theorem compileFiles_keeps_folders (target : Target) {paths : List Path}
    (hproper : ∀ p ∈ paths, p.Proper) (hwell : ws.tree.WellFormed) :
    FileTree.Keeps (fun _ => True) ws.tree (compileFiles target (paths.map .found) ws).2.tree :=
  compileFiles_keeps hproper hwell fun _ _ _ _ _ _ _ _ _ => trivial

/-- The first of the turns of a batch that writes all its scripts, and what remains. -/
theorem saved_of_length_eq {p : Path} {paths : List Path} (hp : p.Proper)
    (hwell : ws.tree.WellFormed)
    (hall : (compileFiles target ((p :: paths).map .found) ws).1.length = (p :: paths).length) :
    ∃ source out place ws', Saved target p source out place ws ws' ∧
      (compileFiles target (paths.map .found) ws').1.length = paths.length ∧
      compileFiles target ((p :: paths).map .found) ws =
        (out :: (compileFiles target (paths.map .found) ws').1,
          (compileFiles target (paths.map .found) ws').2) := by
  have hrest := length_compileFiles_le target (paths.map .found) (turn target (.found p) ws).2
  rw [List.map_cons, compileFiles_cons] at hall ⊢
  rw [List.length_append, List.length_cons] at hall
  rw [List.length_map] at hrest
  rcases turn_outcome target hp hwell with ⟨hnone, -⟩ | ⟨source, out, place, hsome, hsaved⟩
  · rw [hnone, Option.toList_none, List.length_nil] at hall
    omega
  · rw [hsome, Option.toList_some, List.length_singleton] at hall
    refine ⟨source, out, place, _, hsaved, by omega, ?_⟩
    rw [hsome, Option.toList_some, List.singleton_append]

/-- The paths of the scripts, in the order of the sources. -/
theorem map_output_of_length_eq {paths : List Path} (hproper : ∀ p ∈ paths, p.Proper)
    (hwell : ws.tree.WellFormed)
    (hall : (compileFiles target (paths.map .found) ws).1.length = paths.length) :
    paths.map (·.output target.folder target.extension) =
      (compileFiles target (paths.map .found) ws).1.map .ok := by
  induction paths generalizing ws with
  | nil => rfl
  | cons p paths ih =>
    rw [List.forall_mem_cons] at hproper
    obtain ⟨source, out, place, ws', hsaved, hrest, hrun⟩ := saved_of_length_eq hproper.1 hwell hall
    rw [hrun, List.map_cons, List.map_cons, hsaved.output_eq,
      ih hproper.2 hsaved.keeps.wellFormed hrest]

/-- The turn of any source of a batch that writes all its scripts. -/
theorem saved_of_append {before after : List Path} {p : Path}
    (hproper : ∀ q ∈ before ++ p :: after, q.Proper) (hwell : ws.tree.WellFormed)
    (hall : (compileFiles target ((before ++ p :: after).map .found) ws).1.length =
      (before ++ p :: after).length) :
    ∃ source out place ws',
      Saved target p source out place (compileFiles target (before.map .found) ws).2 ws' ∧
      (compileFiles target (after.map .found) ws').1.length = after.length ∧
      (compileFiles target ((before ++ p :: after).map .found) ws).2 =
        (compileFiles target (after.map .found) ws').2 := by
  obtain ⟨hbefore, hrest⟩ := List.forall_mem_append.mp hproper
  have hwell' := (compileFiles_keeps_folders target hbefore hwell).wellFormed
  have hfront := length_compileFiles_le target (before.map .found) ws
  have hback := length_compileFiles_le target ((p :: after).map .found)
    (compileFiles target (before.map .found) ws).2
  rw [List.length_map] at hfront hback
  rw [List.map_append, compileFiles_append] at hall ⊢
  rw [List.length_append, List.length_append] at hall
  have hlater : (compileFiles target ((p :: after).map .found)
      (compileFiles target (before.map .found) ws).2).1.length = (p :: after).length := by omega
  obtain ⟨source, out, place, ws', hsaved, hafter, hrun⟩ :=
    saved_of_length_eq (hrest p List.mem_cons_self) hwell' hlater
  exact ⟨source, out, place, ws', hsaved, hafter, by rw [hrun]⟩

/-- The paths of all scripts lead to a place in the end. -/
theorem exists_place_of_length_eq {paths : List Path} (hproper : ∀ p ∈ paths, p.Proper)
    (hwell : ws.tree.WellFormed)
    (hall : (compileFiles target (paths.map .found) ws).1.length = paths.length) {p out : Path}
    (hp : p ∈ paths) (hout : p.output target.folder target.extension = .ok out) :
    ∃ place, (compileFiles target (paths.map .found) ws).2.tree.place out = .ok place := by
  obtain ⟨before, after, rfl⟩ := List.append_of_mem hp
  obtain ⟨source, out', place, ws', hsaved, -, hrun⟩ := saved_of_append hproper hwell hall
  obtain rfl : out' = out := Except.ok.inj (hsaved.output_eq.symm.trans hout)
  have hafter : ∀ q ∈ after, q.Proper := fun q hq => hproper q (by simp [hq])
  rw [hrun]
  exact ⟨place, (compileFiles_keeps_folders target hafter hsaved.keeps.wellFormed).place_eq
    hsaved.place_eq⟩

/-! ## What stays -/

/-- The file that `out` leads to has the script of the source at `p`, as the source and the session
are in `atTurn`. -/
def HoldsScript (target : Target) (tree : FileTree) (atTurn : Workspace) (p out : Path) : Prop :=
  ∃ source, atTurn.tree.source? p = some source ∧ tree.content? out =
    some (.text (withHeader target.header (compile target.limits source atTurn.macros).1.text))

/-- Some source among `later` has a script that goes to the file that `out` leads to. -/
def IsReplaced (target : Target) (tree : FileTree) (out : Path) (later : List Path) : Prop :=
  ∃ q ∈ later, ∃ other, q.output target.folder target.extension = .ok other ∧
    tree.place other = tree.place out

/-- A script stays if it is not replaced. -/
theorem holdsScript_of_saved {p out : Path} {source : String} {place : Place} {ws' : Workspace}
    {after : List Path} (hsaved : Saved target p source out place ws ws')
    (hproper : ∀ q ∈ after, q.Proper)
    (hall : (compileFiles target (after.map .found) ws').1.length = after.length)
    (hstays : ¬ IsReplaced target (compileFiles target (after.map .found) ws').2.tree out after) :
    HoldsScript target (compileFiles target (after.map .found) ws').2.tree ws p out := by
  have hwell := hsaved.keeps.wellFormed
  have hfolders := compileFiles_keeps_folders target hproper hwell
  have hplace := hfolders.place_eq hsaved.place_eq
  have hkeeps : FileTree.Keeps (· ≠ place) ws'.tree
      (compileFiles target (after.map .found) ws').2.tree := by
    refine compileFiles_keeps hproper hwell ?_
    intro q hq other hother _ tree found hkept hfound hsame
    obtain ⟨last, hlast⟩ := exists_place_of_length_eq hproper hwell hall hq hother
    -- where a path leads to does not depend on how far the batch has got
    have hunique := FileTree.place_unique (hkept.here_eq.trans hfolders.here_eq.symm) hlast hfound
    exact hstays ⟨q, hq, other, hother, by rw [hlast, hplace, hunique, hsame]⟩
  obtain ⟨modified, hentry⟩ := hsaved.content_eq
  have hfind := hkeeps.find?_eq hsaved.place_eq (not_not_intro rfl) hentry
  exact ⟨source, hsaved.source_eq, by rw [FileTree.content?, hfind]⟩

/-! ## Scripts beside their sources -/

/-- Two files in one folder whose names differ at most in the suffix. -/
def Path.SameStem (p q : Path) : Prop :=
  p.parent = q.parent ∧ (Path.splitSuffix p.name).1 = (Path.splitSuffix q.name).1

instance (p q : Path) : Decidable (p.SameStem q) :=
  inferInstanceAs (Decidable (_ ∧ _))

/-- Below one folder, paths have the same stem if they go through the same folders and the stems of
their last names agree. -/
theorem Path.sameStem_descend_iff (home : Path) (folder folder' : List String)
    (name name' : String) :
    (home.descend (folder ++ [name])).SameStem (home.descend (folder' ++ [name'])) ↔
      folder = folder' ∧ (Path.splitSuffix name).1 = (Path.splitSuffix name').1 := by
  have hparent (folder : List String) (name : String) :
      (home.descend (folder ++ [name])).parent = home.descend folder := by
    simp [Path.parent, Path.descend, ← List.append_assoc]
  rw [Path.SameStem, hparent, hparent, Path.name_descend, Path.name_descend,
    (Path.descend_injective home).eq_iff]

/-- The place of a script in the output folder tells the folder and the stem of its source. -/
theorem append_script_inj {folder folder' : List String} {outDir stem stem' extension : String} :
    folder ++ [outDir, stem ++ extension] = folder' ++ [outDir, stem' ++ extension] ↔
      folder = folder' ∧ stem = stem' := by
  constructor
  · intro h
    obtain ⟨hfolder, hlast⟩ := List.append_inj' h rfl
    simp only [List.cons.injEq, and_true, true_and] at hlast
    exact ⟨hfolder, String.append_left_inj extension |>.mp hlast⟩
  · rintro ⟨rfl, rfl⟩
    rfl

/-- Scripts have a suffix, whatever the environment says. -/
theorem targetExtension_ne_empty (env : Environment) : env.targetExtension ≠ "" := by
  unfold Environment.targetExtension Environment.dotted
  split
  · rename_i h
    rintro hempty
    simp [hempty] at h
  · intro hempty
    simpa using congrArg String.toList hempty

namespace Watcher

variable {w : Watcher} {tree tree' : FileTree} {home : Path} {base : Place}

/-- Scripts go to the same file just if their paths are the same, and this is so if their sources
differ in the suffix only. -/
theorem IsHome.place_output_eq_iff (h : w.IsHome tree home base) (hout : Path.IsOrdinary w.outDir)
    {extension : String} (hext : Path.IsTarget extension) {written : Place → Prop}
    (hkeeps : FileTree.Keeps written tree tree') {p q out other : Path} {modified modified' : Int}
    (hp : (p, modified) ∈ w.scan tree) (hq : (q, modified') ∈ w.scan tree)
    (hpout : p.output w.outDir extension = .ok out)
    (hqout : q.output w.outDir extension = .ok other) {place place' : Place}
    (hplace : tree'.place out = .ok place) (hplace' : tree'.place other = .ok place') :
    (place = place' ↔ p.SameStem q) ∧ (out = other ↔ p.SameStem q) := by
  obtain ⟨folder, name, rfl, hnames, -⟩ := h.found hp
  obtain ⟨folder', name', rfl, hnames', -⟩ := h.found hq
  rw [h.output_eq hout hext hnames] at hpout
  rw [h.output_eq hout hext hnames'] at hqout
  obtain rfl := Except.ok.inj hpout
  obtain rfl := Except.ok.inj hqout
  rw [h.place_output hout hext hnames hkeeps hplace,
    h.place_output hout hext hnames' hkeeps hplace', Path.sameStem_descend_iff,
    (Path.descend_injective home).eq_iff, List.append_assoc, List.append_assoc,
    List.append_right_inj, append_script_inj]
  exact ⟨Iff.rfl, Iff.rfl⟩

end Watcher

/-! ## Batches of sources that were found -/

/-- A batch of sources that a look found, which writes all its scripts. -/
structure IsFull (w : Watcher) (target : Target) (sources : List Path) (ws : Workspace) : Prop where
  root_proper : w.root.Proper
  wellFormed : ws.tree.WellFormed
  found (p : Path) (h : p ∈ sources) : ∃ modified, (p, modified) ∈ w.scan ws.tree
  length_eq : (compileFiles target (sources.map .found) ws).1.length = sources.length

/-- Scripts go to the folders that a watcher leaves out, and their suffix is not empty. -/
structure IsBeside (w : Watcher) (target : Target) : Prop where
  folder_eq : target.folder = w.outDir
  ordinary : Path.IsOrdinary w.outDir
  extension_ne : target.extension ≠ ""

namespace IsFull

variable {w : Watcher} {sources : List Path}

/-- In a batch that writes everything, the paths of all sources can be spelled. -/
theorem proper (h : IsFull w target sources ws) : ∀ p ∈ sources, p.Proper := by
  intro p hp
  obtain ⟨modified, hmem⟩ := h.found p hp
  obtain ⟨home, base, hhome⟩ := Watcher.exists_isHome h.wellFormed h.root_proper hmem
  exact hhome.proper_of_found h.found p hp

/-- A batch that writes everything writes to the outputs of its sources, in their order. -/
theorem map_output (h : IsFull w target sources ws) :
    sources.map (·.output target.folder target.extension) =
      (compileFiles target (sources.map .found) ws).1.map .ok :=
  map_output_of_length_eq h.proper h.wellFormed h.length_eq

/-- In a batch that writes everything, each source has an output. -/
theorem exists_output (h : IsFull w target sources ws) {p : Path} (hp : p ∈ sources) :
    ∃ out, p.output target.folder target.extension = .ok out := by
  have hmem := List.mem_map_of_mem (f := (·.output target.folder target.extension)) hp
  rw [h.map_output] at hmem
  obtain ⟨out, -, hout⟩ := List.mem_map.mp hmem
  exact ⟨out, hout.symm⟩

/-- The last script that goes to a file stays there. -/
theorem holdsScript (h : IsFull w target sources ws) {before after : List Path} {p : Path}
    (hsplit : sources = before ++ p :: after) {out : Path}
    (hout : p.output target.folder target.extension = .ok out)
    (hstays : ¬ IsReplaced target (compileFiles target (sources.map .found) ws).2.tree out after) :
    HoldsScript target (compileFiles target (sources.map .found) ws).2.tree
      (compileFiles target (before.map .found) ws).2 p out := by
  subst hsplit
  obtain ⟨source, out', place, ws', hsaved, hafter, hrun⟩ :=
    saved_of_append h.proper h.wellFormed h.length_eq
  obtain rfl : out' = out := Except.ok.inj (hsaved.output_eq.symm.trans hout)
  rw [hrun] at hstays ⊢
  exact holdsScript_of_saved hsaved (fun q hq => h.proper q (by simp [hq])) hafter hstays

/-- In folders beside the sources, two scripts are one file just if their sources have the same
stem. -/
theorem sameFile_iff_sameStem (h : IsFull w target sources ws) (hbeside : IsBeside w target)
    {p q out other : Path} (hp : p ∈ sources) (hq : q ∈ sources)
    (hpout : p.output target.folder target.extension = .ok out)
    (hqout : q.output target.folder target.extension = .ok other) :
    ((compileFiles target (sources.map .found) ws).2.tree.place out =
        (compileFiles target (sources.map .found) ws).2.tree.place other ↔ p.SameStem q) ∧
      (out = other ↔ p.SameStem q) := by
  obtain ⟨place, hplace⟩ := exists_place_of_length_eq h.proper h.wellFormed h.length_eq hp hpout
  obtain ⟨place', hplace'⟩ := exists_place_of_length_eq h.proper h.wellFormed h.length_eq hq hqout
  obtain ⟨modified, hmem⟩ := h.found p hp
  obtain ⟨modified', hmem'⟩ := h.found q hq
  obtain ⟨home, base, hhome⟩ := Watcher.exists_isHome h.wellFormed h.root_proper hmem
  have hkeeps := compileFiles_keeps_folders target h.proper h.wellFormed
  have hext : Path.IsTarget target.extension :=
    ⟨Path.isSuffix_of_output hpout, hbeside.extension_ne⟩
  rw [hbeside.folder_eq] at hpout hqout
  rw [hplace, hplace', Except.ok.injEq]
  exact hhome.place_output_eq_iff hbeside.ordinary hext hkeeps hmem hmem' hpout hqout hplace hplace'

/-- A source is as before the batch when its turn comes. -/
theorem source?_atTurn (h : IsFull w target sources ws) (hbeside : IsBeside w target)
    {before after : List Path} {p : Path} (hsplit : sources = before ++ p :: after) :
    (compileFiles target (before.map .found) ws).2.tree.source? p = ws.tree.source? p := by
  have hp : p ∈ sources := by simp [hsplit]
  obtain ⟨out, hout⟩ := h.exists_output hp
  obtain ⟨modified, hmem⟩ := h.found p hp
  obtain ⟨home, base, hhome⟩ := Watcher.exists_isHome h.wellFormed h.root_proper hmem
  have hkeeps := hhome.keeps_compileFiles h.wellFormed hbeside.ordinary hbeside.folder_eq
    ⟨Path.isSuffix_of_output hout, hbeside.extension_ne⟩
    fun q (hq : q ∈ before) => h.found q (by simp [hsplit, hq])
  simp only [FileTree.source?, FileTree.content?, hhome.find?_eq hkeeps hmem]

/-- Sources of different stems have scripts at different paths. -/
theorem nodup_written (h : IsFull w target sources ws) (hbeside : IsBeside w target)
    (hstems : sources.Pairwise fun p q => ¬ p.SameStem q) :
    (compileFiles target (sources.map .found) ws).1.Nodup := by
  have hnodup : (sources.map (·.output target.folder target.extension)).Nodup := by
    refine List.pairwise_map.mpr (hstems.imp_of_mem fun {p q} hp hq hdiffer hsame => hdiffer ?_)
    obtain ⟨out, hout⟩ := h.exists_output hp
    exact (h.sameFile_iff_sameStem hbeside hp hq hout (hsame.symm.trans hout)).2.mp rfl
  rw [h.map_output] at hnodup
  exact hnodup.of_map

/-- A script is not replaced if no later source has the stem of its source. -/
theorem not_isReplaced (h : IsFull w target sources ws) (hbeside : IsBeside w target)
    (hstems : sources.Pairwise fun p q => ¬ p.SameStem q) {before after : List Path} {p out : Path}
    (hsplit : sources = before ++ p :: after)
    (hout : p.output target.folder target.extension = .ok out) :
    ¬ IsReplaced target (compileFiles target (sources.map .found) ws).2.tree out after := by
  rintro ⟨q, hq, other, hother, hsame⟩
  have hdiffer : ¬ p.SameStem q := by
    rw [hsplit, List.pairwise_append, List.pairwise_cons] at hstems
    exact hstems.2.1.1 q hq
  have hp : p ∈ sources := by simp [hsplit]
  have hq' : q ∈ sources := by simp [hsplit, hq]
  exact hdiffer ((h.sameFile_iff_sameStem hbeside hp hq' hout hother).1.mp hsame.symm)

end IsFull

/-- The command that compiles once reports a success if all scripts were written. -/
theorem compileOnce_of_length_eq {limits : Limits} {env : Environment} {root : Path}
    {outDir : Option String} {w : Watcher} (hw : Watcher.new env root none [] outDir = .ok w)
    {sources : List Path}
    (hsources : (w.scan ws.tree).map Prod.fst = sources)
    (hall : (compileFiles (.of limits env outDir none) (sources.map .found) ws).1.length =
      sources.length) :
    compileOnce limits env root outDir ws = (.ok { exit := 0, output := "", waits := [] },
      (compileFiles (.of limits env outDir none) (sources.map .found) ws).2) := by
  have hwatcher : newWatcher env root none outDir ws = (.ok w, ws) := by
    rw [newWatcher, hw]
    rfl
  have hrequests (request : Path × Int → Request) (h : ∀ item, request item = .found item.1) :
      (w.scan ws.tree).map request = sources.map .found := by
    rw [← hsources, List.map_map]
    exact List.map_congr_left fun item _ => h item
  have hbatch : (liftM (compileFiles (.of limits env outDir none) (sources.map .found)) :
      CommandM (List Path)) ws =
        (.ok (compileFiles (.of limits env outDir none) (sources.map .found) ws).1,
          (compileFiles (.of limits env outDir none) (sources.map .found) ws).2) := rfl
  rw [compileOnce, Steps.bind_of_ok hwatcher, Steps.get_bind]
  dsimp only
  rw [hrequests, Steps.bind_of_ok hbatch, hall, List.length_map, if_pos rfl]
  · rfl
  · exact fun _ => rfl

/-- What a batch that writes all its scripts leaves. The scripts go to the paths that belong to the
sources. Each file has the script of the last source that goes there, as the source and the session
were at its turn. If the folders for scripts stand beside the sources, no source was changed by
then, and scripts go to the same file just if they go to the same path, from sources that differ in
the suffix only. Without such sources, every one keeps its own script. -/
theorem artifacts_stay_until_replaced {limits : Limits} {env : Environment}
    {folder header : Option String} {w : Watcher} {ws ws' : Workspace} {target : Target}
    {sources written : List Path} (hroot : w.root.Proper) (hwell : ws.tree.WellFormed)
    (htarget : target = .of limits env folder header)
    (hsources : sources = (w.scan ws.tree).map Prod.fst)
    (hrun : compileFiles target (sources.map .found) ws = (written, ws'))
    (hall : written.length = sources.length) :
    sources.map (·.output target.folder target.extension) = written.map .ok ∧
    (∀ before p after, sources = before ++ p :: after →
      ∃ out, p.output target.folder target.extension = .ok out ∧
        (¬ IsReplaced target ws'.tree out after →
          HoldsScript target ws'.tree (compileFiles target (before.map .found) ws).2 p out)) ∧
    (target.folder = w.outDir → Path.IsOrdinary w.outDir →
      (∀ p ∈ sources, ∀ q ∈ sources, ∀ out other,
        p.output target.folder target.extension = .ok out →
        q.output target.folder target.extension = .ok other →
        (ws'.tree.place out = ws'.tree.place other ↔ p.SameStem q) ∧
          (out = other ↔ p.SameStem q)) ∧
      (∀ before p after, sources = before ++ p :: after →
        (compileFiles target (before.map .found) ws).2.tree.source? p = ws.tree.source? p) ∧
      (sources.Pairwise (fun p q => ¬ p.SameStem q) →
        written.Nodup ∧ ∀ before p after, sources = before ++ p :: after →
          ∃ out, p.output target.folder target.extension = .ok out ∧
            HoldsScript target ws'.tree (compileFiles target (before.map .found) ws).2 p out)) := by
  obtain ⟨rfl, rfl⟩ : (compileFiles target (sources.map .found) ws).1 = written ∧
      (compileFiles target (sources.map .found) ws).2 = ws' := by simp [hrun]
  have hfull : IsFull w target sources ws := ⟨hroot, hwell, by simp [hsources], hall⟩
  refine ⟨hfull.map_output, ?_, fun hfolder hordinary => ?_⟩
  · intro before p after hsplit
    obtain ⟨out, hout⟩ := hfull.exists_output (p := p) (by simp [hsplit])
    exact ⟨out, hout, hfull.holdsScript hsplit hout⟩
  have hbeside : IsBeside w target :=
    ⟨hfolder, hordinary, htarget ▸ targetExtension_ne_empty env⟩
  refine ⟨?_, ?_, fun hstems => ⟨hfull.nodup_written hbeside hstems, ?_⟩⟩
  · intro p hp q hq out other
    exact hfull.sameFile_iff_sameStem hbeside hp hq
  · intro before p after
    exact hfull.source?_atTurn hbeside
  · intro before p after hsplit
    obtain ⟨out, hout⟩ := hfull.exists_output (p := p) (by simp [hsplit])
    have hstays := hfull.not_isReplaced hbeside hstems hsplit hout
    exact ⟨out, hout, hfull.holdsScript hsplit hout hstays⟩

/-- Two sources of one name in different folders, of which the second uses a macro of the first. -/
theorem artifacts_stay_until_replaced_folders :
    let w : Watcher := ⟨.ofString ".", .blank, [".clj", ".cljs"], "out", [], false⟩
    let ws : Workspace :=
      { tree := ⟨[(["home"], .folder),
          (["home", "a.clj"], .file (.text "(defmacro m [] (f))") 1),
          (["home", "lib"], .folder), (["home", "lib", "a.clj"], .file (.text "(m)") 2)],
          ["home"], 9⟩
        macros := .start true, log := [] }
    let target := Target.of .usual [] none none
    let first := Path.ofString "a.clj"
    let second := Path.ofString "lib/a.clj"
    let out := Path.ofString "lib/out/a.js"
    let batch := compileFiles target ([first, second].map .found) ws
    (w.scan ws.tree).map Prod.fst = [first, second] ∧ batch.1.length = 2 ∧ batch.1.Nodup ∧
      HoldsScript target batch.2.tree (compileFiles target ([first].map .found) ws).2 second out ∧
      batch.2.tree.content? out = some (.text "import core;\n\nf();") := by
  intro w ws target first second out batch
  have hscan : w.scan ws.tree = [(first, 1), (second, 2)] :=
    Watcher.scan_of_ordered (by decide +kernel) (by decide +kernel)
  have hsources : [first, second] = (w.scan ws.tree).map Prod.fst := by rw [hscan]; rfl
  have hrun : compileFiles target ([first, second].map .found) ws = (batch.1, batch.2) :=
    Prod.mk.eta.symm
  have hall : batch.1.length = [first, second].length := by decide +kernel
  have hroot : w.root.Proper := by decide +kernel
  have hwell : ws.tree.WellFormed := by decide +kernel
  have hordinary : Path.IsOrdinary w.outDir := by decide +kernel
  have hstems : [first, second].Pairwise fun p q => ¬ p.SameStem q := by decide +kernel
  have htarget : target = Target.of .usual [] none none := rfl
  obtain ⟨-, -, hbeside⟩ := artifacts_stay_until_replaced hroot hwell htarget hsources hrun hall
  obtain ⟨-, -, hkept⟩ := hbeside (by decide +kernel) hordinary
  obtain ⟨hnodup, hholds⟩ := hkept hstems
  obtain ⟨out', hout', hscript⟩ := hholds [first] second [] rfl
  have hsame : second.output target.folder target.extension = .ok out := by decide +kernel
  obtain rfl : out = out' := Except.ok.inj (hsame.symm.trans hout')
  exact ⟨hsources.symm, hall, hnodup, hscript, by decide +kernel⟩

/-- Two sources that differ in the suffix only: the run of the command is a success, but nothing is
left of the script of the first. -/
theorem script_replaced_without_notice :
    let w : Watcher := ⟨.ofString ".", .seconds 1, [".clj", ".cljs"], "out", [], false⟩
    let ws : Workspace :=
      { tree := ⟨[(["home"], .folder), (["home", "a.clj"], .file (.text "(f)") 1),
          (["home", "a.cljs"], .file (.text "(g)") 2)], ["home"], 9⟩
        macros := .start true, log := [] }
    let target := Target.of .usual [] none none
    let sources := [Path.ofString "a.clj", Path.ofString "a.cljs"]
    let out := Path.ofString "out/a.js"
    let batch := compileFiles target (sources.map .found) ws
    Watcher.new [] (.ofString ".") none [] none = .ok w ∧
      (w.scan ws.tree).map Prod.fst = sources ∧
      compileOnce .usual [] (.ofString ".") none ws =
        (.ok { exit := 0, output := "", waits := [] }, batch.2) ∧
      batch.1 = [out, out] ∧ ¬ HoldsScript target batch.2.tree ws (.ofString "a.clj") out := by
  intro w ws target sources out batch
  have hnew : Watcher.new [] (.ofString ".") none [] none = .ok w := rfl
  have hscan : w.scan ws.tree = [(.ofString "a.clj", 1), (.ofString "a.cljs", 2)] :=
    Watcher.scan_of_ordered (by decide +kernel) (by decide +kernel)
  have hsources : (w.scan ws.tree).map Prod.fst = sources := by rw [hscan]; rfl
  have hwritten : batch.1 = [out, out] := by decide +kernel
  refine ⟨hnew, hsources, ?_, hwritten, ?_⟩
  · exact compileOnce_of_length_eq hnew hsources (by rw [hwritten]; rfl)
  · rintro ⟨source, hsource, hcontent⟩
    have hread : ws.tree.source? (.ofString "a.clj") = some "(f)" := by decide +kernel
    obtain rfl : source = "(f)" := Option.some.inj (hsource.symm.trans hread)
    have hleft : batch.2.tree.content? out = some (.text "import core;\n\ng();") := by
      decide +kernel
    have hmade : withHeader target.header (compile target.limits "(f)" ws.macros).1.text =
        "import core;\n\nf();" := by decide +kernel
    rw [hleft, hmade] at hcontent
    simp at hcontent

end LispScript
