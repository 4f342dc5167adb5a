import LispScript.Command
import LispScript.Proofs.Batches
import LispScript.Proofs.Watching

/-!
# Scripts are not sources

Two rules that know nothing of each other keep the scripts of a watcher from being compiled again: a
script goes to a folder of a fixed name beside its source, and a look leaves out what lies in a
folder of that name. All sources of a look lie below one folder, the root of the watcher or the
folder of the root if that is a file. Below it the place of every script is left out, so a batch
changes nothing that the next look would find.
-/

namespace LispScript.Watcher

variable {w : Watcher} {tree tree' : FileTree}

/-! ## Sources -/

/-- The root is a source itself, or sources lie below it and outside the folders for scripts. -/
theorem mem_scan_cases {p : Path} {modified : Int} (h : (p, modified) ∈ w.scan tree) :
    p = w.root ∧ (∃ content, tree.find? w.root = some (.file content modified)) ∨
      tree.isFolder w.root = true ∧
        ∃ names, p = w.root.descend names ∧ w.outDir ∉ names.dropLast := by
  have hmem := (mem_scan_iff.mp h).1
  cases hfind : tree.find? w.root with
  | none => simp [candidates_of_nothing hfind] at hmem
  | some entry =>
    cases entry with
    | file content time =>
      rw [candidates_of_file hfind, List.mem_singleton] at hmem
      obtain ⟨rfl, rfl⟩ := Prod.mk.inj hmem
      exact .inl ⟨rfl, content, rfl⟩
    | folder =>
      obtain ⟨base, hbase, hfolder⟩ := FileTree.find?_eq_some_iff.mp hfind
      rw [candidates_of_folder hbase hfolder, List.mem_map] at hmem
      obtain ⟨⟨names, time⟩, hitem, hpair⟩ := hmem
      have hadmits := (List.mem_filter.mp hitem).2
      simp only [admits, Bool.and_eq_true, Bool.not_eq_true', List.contains_eq_mem,
        decide_eq_false_iff_not] at hadmits
      exact .inr ⟨by simp [FileTree.isFolder, hfind], names, (Prod.mk.inj hpair).1.symm, hadmits.1⟩

/-- The places for the scripts of sources below `base`. -/
def IsScriptPlace (w : Watcher) (base place : Place) : Prop :=
  ∃ folder name, place = base ++ folder ++ [w.outDir, name]

/-- A place below the base is no place for scripts if no folder on the way has the name of the
output folder. -/
theorem not_isScriptPlace (base : Place) {folder : Place} (name : String) (h : w.outDir ∉ folder) :
    ¬ w.IsScriptPlace base (base ++ folder ++ [name]) := by
  rintro ⟨front, last, hsame⟩
  rw [List.append_assoc, List.append_assoc, List.append_right_inj,
    List.append_cons front w.outDir [last]] at hsame
  have hfolder := (List.append_inj' hsame rfl).1
  exact h (hfolder ▸ by simp)

/-- A folder below which all sources of a look lie. Writing scripts there does not change what is
found. -/
structure IsHome (w : Watcher) (tree : FileTree) (home : Path) (base : Place) : Prop where
  proper : home.Proper
  place_eq : tree.place home = .ok base
  found {p : Path} {modified : Int} (h : (p, modified) ∈ w.scan tree) :
    ∃ folder name, p = home.descend (folder ++ [name]) ∧
      (∀ n ∈ folder ++ [name], Path.IsOrdinary n) ∧ w.outDir ∉ folder ∧
      tree.place p = .ok (base ++ folder ++ [name]) ∧
      ∃ content, tree.entry? (base ++ folder ++ [name]) = some (.file content modified)
  scan_eq {tree' : FileTree} (h : FileTree.Keeps (w.IsScriptPlace base) tree tree') :
    w.scan tree' = w.scan tree

/-- Sources stay as they are if scripts are written. -/
theorem IsHome.find?_eq {home : Path} {base : Place} (h : w.IsHome tree home base)
    (hkeeps : FileTree.Keeps (w.IsScriptPlace base) tree tree') {p : Path} {modified : Int}
    (hp : (p, modified) ∈ w.scan tree) : tree'.find? p = tree.find? p := by
  obtain ⟨folder, name, -, -, hfree, hplace, content, hentry⟩ := h.found hp
  have hstays := hkeeps.find?_eq hplace (not_isScriptPlace base name hfree) hentry
  exact hstays.trans (FileTree.find?_eq_some_iff.mpr ⟨_, hplace, hentry⟩).symm

/-- Looks that find the same are the same. -/
theorem scan_eq_of_mem_iff (h : tree.WellFormed) (h' : tree'.WellFormed)
    (hmem : ∀ item, item ∈ w.scan tree' ↔ item ∈ w.scan tree) : w.scan tree' = w.scan tree := by
  have hperm : (w.scan tree').Perm (w.scan tree) :=
    (List.perm_ext_iff_of_nodup (nodup_scan h').of_map (nodup_scan h).of_map).mpr hmem
  exact hperm.eq_of_pairwise (fun a b _ _ hab hba => absurd hba (lt_asymm hab))
    (pairwise_scan h') (pairwise_scan h)

/-- A root that is a folder has all sources below it. -/
theorem isHome_of_folder (h : tree.WellFormed) (hroot : w.root.Proper) {base : Place}
    (hplace : tree.place w.root = .ok base) (hfolder : tree.entry? base = some .folder) :
    w.IsHome tree w.root base := by
  have hisFolder : tree.isFolder w.root = true := FileTree.isFolder_iff.mpr ⟨base, hplace, hfolder⟩
  refine ⟨hroot, hplace, fun {p modified} hmem => ?_, fun {tree'} hkeeps => ?_⟩
  · obtain ⟨names, hne, rfl, hnames, hout, -, content, hfind⟩ :=
      ((isLook_scan h).ofFolder hisFolder p modified).mp hmem
    obtain ⟨folder, name, rfl⟩ := (List.eq_nil_or_concat names).resolve_left hne
    rw [List.concat_eq_append] at *
    rw [List.dropLast_concat] at hout
    have hdots : ∀ n ∈ folder ++ [name], n ≠ ".." := fun n hn => (hnames n hn).1.2.2.2
    obtain ⟨found, hleads, hentry⟩ := FileTree.find?_eq_some_iff.mp hfind
    obtain rfl := FileTree.eq_append_of_place hplace hdots hleads
    rw [← List.append_assoc] at hleads hentry
    exact ⟨folder, name, rfl, fun n hn => (hnames n hn).1, hout, hleads, content, hentry⟩
  · have hplace' := hkeeps.place_eq hplace
    have hisFolder' : tree'.isFolder w.root = true :=
      FileTree.isFolder_iff.mpr ⟨base, hplace', hkeeps.folder hfolder⟩
    refine scan_eq_of_mem_iff h hkeeps.wellFormed fun ⟨p, modified⟩ => ?_
    rw [(isLook_scan h).ofFolder hisFolder, (isLook_scan hkeeps.wellFormed).ofFolder hisFolder']
    refine exists_congr fun names => and_congr_right fun hne => and_congr_right fun hp =>
      and_congr_right fun hnames => and_congr_right fun hout => and_congr_right fun _ =>
      exists_congr fun content => ?_
    have hdots : ∀ n ∈ names, n ≠ ".." := fun n hn => (hnames n hn).1.2.2.2
    rw [hp, h.find?_descend_iff hplace hdots,
      hkeeps.wellFormed.find?_descend_iff hplace' hdots]
    obtain ⟨folder, name, rfl⟩ := (List.eq_nil_or_concat names).resolve_left hne
    rw [List.concat_eq_append, List.dropLast_concat] at hout
    rw [List.concat_eq_append, ← List.append_assoc]
    exact hkeeps.file_iff (not_isScriptPlace base name hout)

/-- A root that is a file has its folder as the home of the only source. -/
theorem isHome_of_file (h : tree.WellFormed) (hroot : w.root.Proper) {content : Content}
    {modified : Int} (hfile : tree.find? w.root = some (.file content modified)) :
    ∃ base, w.IsHome tree w.root.parent base := by
  obtain ⟨place, hplace, hentry⟩ := FileTree.find?_eq_some_iff.mp hfile
  -- the last name of the root is no double dots, which lead to a folder
  obtain hfolder | ⟨base, name, rfl, hbase, hname, hlast⟩ := h.place_cases hroot hplace
  · rw [hentry] at hfolder
    cases hfolder
  · have hdescend := Path.eq_parent_descend hlast
    have hparent : tree.place w.root.parent = .ok base := by
      rw [hdescend] at hplace
      obtain ⟨base', hbase', hfollow, -⟩ := FileTree.place_descend hplace
      have hsame := FileTree.eq_append_of_follow (by simpa using hname.1.2.2.2) hfollow
      rw [hbase', (List.append_inj' hsame rfl).1]
    have hscan {other : FileTree} (hother : other.WellFormed)
        (hfind : other.find? w.root = some (.file content modified)) :
        w.scan other = if w.root.suffix ∈ w.extensions then [(w.root, modified)] else [] :=
      (isLook_scan hother).ofFile hfind
    refine ⟨base, hroot.parent, hparent, fun {p time} hmem => ?_, fun {tree'} hkeeps => ?_⟩
    · rw [hscan h hfile] at hmem
      split_ifs at hmem
      · obtain ⟨rfl, rfl⟩ := Prod.mk.inj (List.mem_singleton.mp hmem)
        refine ⟨[], name, hdescend, by simpa using hname.1, List.not_mem_nil, ?_, content, ?_⟩
        · simpa using hplace
        · simpa using hentry
      · simp at hmem
    · have hnot : ¬ w.IsScriptPlace base (base ++ [name]) := by
        simpa using not_isScriptPlace (w := w) base name List.not_mem_nil
      rw [hscan h hfile, hscan hkeeps.wellFormed (hkeeps.find?_eq hplace hnot hentry)]

/-- If a look finds anything, the sources have a common home. -/
theorem exists_isHome (h : tree.WellFormed) (hroot : w.root.Proper) {item : Path × Int}
    (hitem : item ∈ w.scan tree) : ∃ home base, w.IsHome tree home base := by
  cases hfind : tree.find? w.root with
  | none =>
    rw [(isLook_scan h).ofNothing hfind] at hitem
    cases hitem
  | some entry =>
    cases entry with
    | file content modified =>
      obtain ⟨base, hhome⟩ := isHome_of_file h hroot hfind
      exact ⟨_, base, hhome⟩
    | folder =>
      obtain ⟨base, hplace, hfolder⟩ := FileTree.find?_eq_some_iff.mp hfind
      exact ⟨_, base, isHome_of_folder h hroot hplace hfolder⟩

/-! ## Scripts -/

section Scripts

variable {home : Path} {base : Place} {target : Target} {ws : Workspace}

/-- The script of a source goes to the folder for scripts beside it. -/
theorem IsHome.output_eq (h : w.IsHome tree home base) (hout : Path.IsOrdinary w.outDir)
    {extension : String} (hext : Path.IsTarget extension) {folder : List String} {name : String}
    (hnames : ∀ n ∈ folder ++ [name], Path.IsOrdinary n) :
    (home.descend (folder ++ [name])).output w.outDir extension =
      .ok (home.descend (folder ++ [w.outDir, (Path.splitSuffix name).1 ++ extension])) := by
  have hsplit : (home.descend (folder ++ [name])).names = (home.names ++ folder) ++ [name] := by
    simp [Path.descend]
  rw [Path.output_eq (h.proper.descend hnames) hsplit hout hext]
  simp [Path.descend]

/-- As long as folders stay, the path of a script leads to a place for scripts. -/
theorem IsHome.place_output (h : w.IsHome tree home base) (hout : Path.IsOrdinary w.outDir)
    {extension : String} (hext : Path.IsTarget extension) {folder : List String} {name : String}
    (hnames : ∀ n ∈ folder ++ [name], Path.IsOrdinary n) {written : Place → Prop}
    (hkeeps : FileTree.Keeps written tree tree') {place : Place}
    (hplace : tree'.place (home.descend
      (folder ++ [w.outDir, (Path.splitSuffix name).1 ++ extension])) = .ok place) :
    place = base ++ folder ++ [w.outDir, (Path.splitSuffix name).1 ++ extension] := by
  obtain ⟨hslash, hempty, -⟩ := hnames name (by simp)
  have hscript := Path.isOrdinary_stem_append hslash hempty hext
  have hdots : ∀ n ∈ folder ++ [w.outDir, (Path.splitSuffix name).1 ++ extension], n ≠ ".." := by
    simp only [List.forall_mem_append, List.forall_mem_cons] at hnames ⊢
    exact ⟨fun n hn => (hnames.1 n hn).2.2.2, hout.2.2.2, hscript.2.2.2, by simp⟩
  rw [List.append_assoc]
  exact FileTree.eq_append_of_place (hkeeps.place_eq h.place_eq) hdots hplace

/-- The paths of a look can be spelled. -/
theorem IsHome.proper_of_found (h : w.IsHome tree home base) {paths : List Path}
    (hpaths : ∀ p ∈ paths, ∃ modified, (p, modified) ∈ w.scan tree) : ∀ p ∈ paths, p.Proper := by
  intro p hp
  obtain ⟨modified, hmem⟩ := hpaths p hp
  obtain ⟨folder, name, rfl, hnames, -⟩ := h.found hmem
  exact h.proper.descend hnames

/-- Compiling sources that were found writes to places for scripts only. -/
theorem IsHome.keeps_compileFiles (h : w.IsHome ws.tree home base) (hwell : ws.tree.WellFormed)
    (hout : Path.IsOrdinary w.outDir) (hfolder : target.folder = w.outDir)
    (hext : Path.IsTarget target.extension) {paths : List Path}
    (hpaths : ∀ p ∈ paths, ∃ modified, (p, modified) ∈ w.scan ws.tree) :
    FileTree.Keeps (w.IsScriptPlace base) ws.tree
      (compileFiles target (paths.map .found) ws).2.tree := by
  refine compileFiles_keeps (h.proper_of_found hpaths) hwell ?_
  intro p hp out hpout other tree place hkeeps hplace
  obtain ⟨modified, hmem⟩ := hpaths p hp
  obtain ⟨folder, name, rfl, hnames, -⟩ := h.found hmem
  rw [hfolder, h.output_eq hout hext hnames] at hpout
  obtain rfl := Except.ok.inj hpout
  exact ⟨folder, _, h.place_output hout hext hnames hkeeps hplace⟩

/-- The script of a source is not found, unless the root was a file, is a folder now and has the
name of the folders for scripts. -/
theorem output_not_mem_scan (hroot : w.root.Proper) (hwell : tree.WellFormed)
    (hout : Path.IsOrdinary w.outDir) {extension : String} (hext : Path.IsTarget extension)
    {p : Path} {modified : Int} (hmem : (p, modified) ∈ w.scan tree) :
    ∃ out, p.output w.outDir extension = .ok out ∧ ∀ later : FileTree,
      (p = w.root → w.root.name = w.outDir → later.isFolder w.root = false) →
      ∀ time, (out, time) ∉ w.scan later := by
  rcases mem_scan_cases hmem with ⟨rfl, content, hfile⟩ | ⟨hisFolder, -⟩
  · obtain ⟨base, hhome⟩ := isHome_of_file hwell hroot hfile
    obtain ⟨folder, name, hp, hnames, -⟩ := hhome.found hmem
    have houtput := hhome.output_eq hout hext hnames
    rw [← hp] at houtput
    refine ⟨_, houtput, fun later hkind time hfound => ?_⟩
    rcases mem_scan_cases hfound with ⟨hsame, -⟩ | ⟨hlater, names, hsame, -⟩
    · have hlength := congrArg List.length (Path.descend_injective _ (hsame.trans hp))
      simp at hlength
    · rw [hp, Path.descend_descend, ← hp] at hsame
      have hlist := Path.descend_injective _ hsame
      rw [List.append_assoc, List.append_right_inj] at hlist
      have hname : w.root.name = w.outDir := by
        rw [hp, Path.name_descend]
        exact (List.cons.inj hlist).1.symm
      rw [hkind rfl hname] at hlater
      cases hlater
  · obtain ⟨base, hplace, hentry⟩ := FileTree.isFolder_iff.mp hisFolder
    have hhome := isHome_of_folder hwell hroot hplace hentry
    obtain ⟨folder, name, rfl, hnames, -⟩ := hhome.found hmem
    refine ⟨_, hhome.output_eq hout hext hnames, fun later _ time hfound => ?_⟩
    rcases mem_scan_cases hfound with ⟨hsame, -⟩ | ⟨-, names, hsame, hadmitted⟩
    · have hlength := congrArg (List.length ∘ Path.names) hsame
      simp [Path.descend] at hlength
    · obtain rfl := Path.descend_injective _ hsame
      exact hadmitted (by simp)

/-- A watcher that has just looked reports nothing until something changes. -/
theorem changed_scan (hwell : tree.WellFormed) :
    ({ w with seen := w.scan tree } : Watcher).changed (w.scan tree) = [] := by
  rw [List.eq_nil_iff_forall_not_mem]
  intro p hp
  obtain ⟨modified, hmem, hnew⟩ := mem_changed_iff.mp hp
  exact hnew ((lookup_scan hwell).mpr hmem)

/-- Compiles the sources that a look reports. -/
def compileChanged (target : Target) (changed : List Path) : StateM Workspace Unit := do
  let _ ← compileFiles target (changed.map .found)

/-- This is what the command does with a report. -/
theorem handleChanges_eq (limits : Limits) (env : Environment) (outDir : Option String) :
    handleChanges limits env outDir = compileChanged (.of limits env outDir none) := rfl

/-- A look whose report is compiled changes nothing that is found. -/
theorem poll_compileChanged_keeps (hroot : w.root.Proper) (hwell : ws.tree.WellFormed)
    (hout : Path.IsOrdinary w.outDir) (hfolder : target.folder = w.outDir)
    (hext : Path.IsTarget target.extension) :
    w.scan (w.poll (compileChanged target) ws).2.tree = w.scan ws.tree ∧
      ∀ p modified, (p, modified) ∈ w.scan ws.tree →
        (w.poll (compileChanged target) ws).2.tree.find? p = ws.tree.find? p := by
  rw [poll_eq]
  by_cases hchanged : w.changed (w.scan ws.tree) = []
  · rw [if_pos hchanged]
    exact ⟨rfl, fun _ _ _ => rfl⟩
  · rw [if_neg hchanged]
    have hpaths : ∀ p ∈ w.changed (w.scan ws.tree), ∃ modified, (p, modified) ∈ w.scan ws.tree := by
      intro p hp
      obtain ⟨modified, hmem, -⟩ := mem_changed_iff.mp hp
      exact ⟨modified, hmem⟩
    obtain ⟨first, hfirst⟩ := List.exists_mem_of_ne_nil _ hchanged
    obtain ⟨modified, hmem⟩ := hpaths first hfirst
    obtain ⟨home, base, hhome⟩ := exists_isHome hwell hroot hmem
    -- the entry that the look adds to the log has no say in the files
    generalize hlog : ws.log ++ _ = log
    have hhome' : w.IsHome ({ ws with log } : Workspace).tree home base := hhome
    have hkeeps := hhome'.keeps_compileFiles hwell hout hfolder hext hpaths
    exact ⟨hhome.scan_eq hkeeps, fun p time hp => hhome.find?_eq hkeeps hp⟩

/-- Scripts are not compiled again and do not replace sources. What is found has a script at a path
that no look finds at any time, but for a root that turns from a file into a folder and has the name
of the folders for scripts. After a look whose report is compiled all sources are as they were, and
the next look has nothing to report. -/
theorem scripts_are_never_fed_back (hroot : w.root.Proper) (hwell : ws.tree.WellFormed)
    (hout : Path.IsOrdinary w.outDir) (hfolder : target.folder = w.outDir)
    (hext : Path.IsTarget target.extension) :
    (∀ p modified, (p, modified) ∈ w.scan ws.tree →
      ∃ out, p.output w.outDir target.extension = .ok out ∧ ∀ later : FileTree,
        (p = w.root → w.root.name = w.outDir → later.isFolder w.root = false) →
        ∀ time, (out, time) ∉ w.scan later) ∧
    (∀ p modified, (p, modified) ∈ w.scan ws.tree →
      (w.poll (compileChanged target) ws).2.tree.find? p = ws.tree.find? p) ∧
    ∀ handle, ((w.poll (compileChanged target) ws).1.2.poll handle
      (w.poll (compileChanged target) ws).2).1.1 = [] := by
  obtain ⟨hscan, hfind⟩ := poll_compileChanged_keeps hroot hwell hout hfolder hext
  refine ⟨fun p modified => output_not_mem_scan hroot hwell hout hext, hfind, fun handle => ?_⟩
  have hseen : (w.poll (compileChanged target) ws).1.2 = { w with seen := w.scan ws.tree } := by
    rw [poll_eq]
  rw [hseen, poll_eq]
  change ({ w with seen := w.scan ws.tree } : Watcher).changed (w.scan _) = []
  rw [hscan]
  exact changed_scan hwell

/-- A source with the suffix of scripts: its script is beside it, and the next look leaves it
alone. -/
theorem scripts_are_never_fed_back_suffix :
    let w : Watcher := ⟨.ofString ".", .whole 1, [".clj", ".js"], "out", [], false⟩
    let ws : Workspace :=
      { tree := ⟨[(["home"], .folder), (["home", "lib"], .folder),
          (["home", "lib", "b.js"], .file (.text "(f)") 1)], ["home"], 9⟩
        macros := .start true, log := [] }
    let look := w.poll (handleChanges .usual [] none) ws
    (.ofString "lib/b.js", 1) ∈ w.scan ws.tree ∧
      (∃ out, (Path.ofString "lib/b.js").output "out" ".js" = .ok out ∧
        ∀ (later : FileTree) (time : Int), (out, time) ∉ w.scan later) ∧
      look.2.tree.find? (.ofString "lib/b.js") = ws.tree.find? (.ofString "lib/b.js") ∧
      (look.1.2.poll (handleChanges .usual [] none) look.2).1.1 = [] := by
  intro w ws look
  have hmem : (.ofString "lib/b.js", 1) ∈ w.scan ws.tree := mem_scan_iff.mpr (by decide +kernel)
  have hroot : w.root.Proper := by decide +kernel
  have hwell : ws.tree.WellFormed := by decide +kernel
  have hordinary : Path.IsOrdinary w.outDir := by decide +kernel
  have hfolder : (Target.of .usual [] none none).folder = w.outDir := by decide +kernel
  have hext : Path.IsTarget (Target.of .usual [] none none).extension := by decide +kernel
  obtain ⟨hscripts, hkept, hnothing⟩ :=
    scripts_are_never_fed_back hroot hwell hordinary hfolder hext
  obtain ⟨out, hout, hfree⟩ := hscripts _ _ hmem
  have hbelow : Path.ofString "lib/b.js" ≠ w.root := by decide +kernel
  refine ⟨hmem, ⟨out, hout, fun later => hfree later fun hsame => absurd hsame hbelow⟩, ?_, ?_⟩
  · have hfind := hkept _ _ hmem
    rwa [← handleChanges_eq] at hfind
  · have hreport := hnothing (handleChanges .usual [] none)
    rwa [← handleChanges_eq] at hreport

/-- A root that is a file at first and then a folder with a script in it, where the folders for
scripts have the name of the root. -/
theorem script_found_where_root_turns :
    let w : Watcher := ⟨.ofString "a.clj", .whole 1, [".clj", ".js"], "a.clj", [], false⟩
    let tree : FileTree :=
      ⟨[(["home"], .folder), (["home", "a.clj"], .file (.text "(f)") 1)], ["home"], 9⟩
    let later : FileTree :=
      ⟨[(["home"], .folder), (["home", "a.clj"], .folder),
        (["home", "a.clj", "a.js"], .file (.text "(f)") 2)], ["home"], 9⟩
    tree.WellFormed ∧ later.WellFormed ∧ w.root.Proper ∧ Path.IsOrdinary w.outDir ∧
      Path.IsTarget ".js" ∧ (w.root, 1) ∈ w.scan tree ∧
      w.root.output w.outDir ".js" = .ok (.ofString "a.clj/a.js") ∧
      (.ofString "a.clj/a.js", 2) ∈ w.scan later := by
  intro w tree later
  refine ⟨by decide +kernel, by decide +kernel, by decide +kernel, by decide +kernel,
    by decide +kernel, mem_scan_iff.mpr ?_, by decide +kernel, mem_scan_iff.mpr ?_⟩
  · decide +kernel
  · decide +kernel

end Scripts

end LispScript.Watcher
