import LispScript.Proofs.Trees
import LispScript.Watcher

/-!
# What a watcher reports

A look finds exactly the sources that lie below the root of the watcher, each once, in the order of
their paths. What the watcher remembers is always what its last look found, whatever happened to the
files since, and while the last report was handled. So each look reports the differences between two
looks, and no change is lost or told twice.
-/

namespace LispScript.Watcher

/-! ## One look -/

/-- The files that a watcher of a folder looks for: those below the root with one of the suffixes,
not hidden and not in a folder for scripts. -/
def IsSource (w : Watcher) (tree : FileTree) (p : Path) (modified : Int) : Prop :=
  ∃ names, names ≠ [] ∧ p = w.root.descend names ∧
    (∀ name ∈ names, Path.IsOrdinary name ∧ name.toList.head? ≠ some '.') ∧
    w.outDir ∉ names.dropLast ∧ p.suffix ∈ w.extensions ∧
    ∃ content, tree.find? p = some (.file content modified)

/-- What a look is to find. -/
structure IsLook (w : Watcher) (tree : FileTree) (found : List (Path × Int)) : Prop where
  ordered : found.Pairwise fun a b => a.1.segments < b.1.segments
  ofFolder (h : tree.isFolder w.root = true) (p : Path) (modified : Int) :
    (p, modified) ∈ found ↔ w.IsSource tree p modified
  ofFile {content : Content} {modified : Int}
    (h : tree.find? w.root = some (.file content modified)) :
    found = if w.root.suffix ∈ w.extensions then [(w.root, modified)] else []
  ofNothing (h : tree.find? w.root = none) : found = []

variable {w : Watcher} {tree : FileTree}

/-- The files below a folder are those whose places start with it. -/
theorem mem_filesBelow_iff (h : tree.WellFormed) {folder : Place} {names : List String}
    {modified : Int} :
    (names, modified) ∈ filesBelow tree folder ↔
      ∃ content, tree.entry? (folder ++ names) = some (.file content modified) := by
  unfold filesBelow
  rw [List.mem_filterMap]
  constructor
  · rintro ⟨⟨place, entry⟩, hmem, hitem⟩
    cases entry with
    | folder => simp at hitem
    | file content time =>
      dsimp only at hitem
      split_ifs at hitem with hprefix
      simp only [Option.some.injEq, Prod.mk.injEq] at hitem
      obtain ⟨rfl, rfl⟩ := hitem
      obtain ⟨names, rfl⟩ := List.isPrefixOf_iff_prefix.mp hprefix
      rw [List.drop_left]
      exact ⟨content, h.file_mem_iff.mp hmem⟩
  · rintro ⟨content, hentry⟩
    refine ⟨(folder ++ names, .file content modified), h.file_mem_iff.mpr hentry, ?_⟩
    simp [List.isPrefixOf_iff_prefix]

/-- Each file below a folder is listed once. -/
theorem pairwise_filesBelow (h : tree.WellFormed) (folder : Place) :
    (filesBelow tree folder).Pairwise fun a b => a.1 ≠ b.1 := by
  unfold filesBelow
  rw [List.pairwise_filterMap]
  have hkeys : tree.entries.Pairwise fun a b => a.1 ≠ b.1 := List.pairwise_map.mp h.nodup
  refine hkeys.imp fun {a b} hne x hx y hy hsame => hne ?_
  obtain ⟨place, entry⟩ := a
  obtain ⟨place', entry'⟩ := b
  -- both are files below the folder, so the same names lead to both
  cases entry with
  | folder => simp at hx
  | file _ _ =>
    cases entry' with
    | folder => simp at hy
    | file _ _ =>
      dsimp only at hx hy
      split_ifs at hx hy with hprefix hprefix'
      obtain ⟨names, rfl⟩ := List.isPrefixOf_iff_prefix.mp hprefix
      obtain ⟨names', rfl⟩ := List.isPrefixOf_iff_prefix.mp hprefix'
      simp only [List.drop_left, Option.some.injEq] at hx hy
      subst hx hy
      exact congrArg (folder ++ ·) hsame

/-- The candidates of a folder are the files below it that the watcher admits. -/
theorem candidates_of_folder {place : Place} (hplace : tree.place w.root = .ok place)
    (hfolder : tree.entry? place = some .folder) :
    w.candidates tree = ((filesBelow tree place).filter fun item => w.admits item.1).map
      fun item => (w.root.descend item.1, item.2) := by
  unfold candidates
  rw [hplace]
  simp only [hfolder]
  rfl

/-- A root that is a file is the only candidate. -/
theorem candidates_of_file {content : Content} {modified : Int}
    (h : tree.find? w.root = some (.file content modified)) :
    w.candidates tree = [(w.root, modified)] := by
  obtain ⟨place, hplace, hentry⟩ := FileTree.find?_eq_some_iff.mp h
  unfold candidates
  rw [hplace]
  simp only [hentry]

/-- A root that leads nowhere has no candidates. -/
theorem candidates_of_nothing (h : tree.find? w.root = none) : w.candidates tree = [] := by
  unfold candidates
  unfold FileTree.find? at h
  cases hplace : tree.place w.root with
  | error e => rfl
  | ok place =>
    rw [hplace] at h
    simp only at h ⊢
    rw [h]

/-- A look finds the candidates with one of the suffixes. -/
theorem mem_scan_iff {p : Path} {modified : Int} :
    (p, modified) ∈ w.scan tree ↔
      (p, modified) ∈ w.candidates tree ∧ p.suffix ∈ w.extensions := by
  simp [scan, Path.hasExtension]

/-- Among ordinary names the hidden ones are those that start with a dot. -/
theorem admits_iff {names : List String} (hnames : ∀ name ∈ names, Path.IsOrdinary name) :
    w.admits names = true ↔
      w.outDir ∉ names.dropLast ∧ ∀ name ∈ names, name.toList.head? ≠ some '.' := by
  have hhidden : ∀ name ∈ names,
      (Path.isHiddenName name = false ↔ name.toList.head? ≠ some '.') := by
    intro name hname
    obtain ⟨-, -, hdot, hdots⟩ := hnames name hname
    simp [Path.isHiddenName, hdot, hdots]
  simp only [admits, Path.isHidden, Bool.and_eq_true, Bool.not_eq_true', List.contains_eq_mem,
    decide_eq_false_iff_not, List.any_eq_false, Bool.not_eq_true]
  exact and_congr_right fun _ => forall₂_congr hhidden

/-- The candidates of a folder are the files below it that are not hidden and no scripts. -/
theorem mem_candidates_iff_of_folder (h : tree.WellFormed) (hroot : tree.isFolder w.root = true)
    {p : Path} {modified : Int} :
    (p, modified) ∈ w.candidates tree ↔ ∃ names, names ≠ [] ∧ p = w.root.descend names ∧
      (∀ name ∈ names, Path.IsOrdinary name ∧ name.toList.head? ≠ some '.') ∧
      w.outDir ∉ names.dropLast ∧ ∃ content, tree.find? p = some (.file content modified) := by
  obtain ⟨base, hbase, hfolder⟩ := FileTree.isFolder_iff.mp hroot
  rw [candidates_of_folder hbase hfolder, List.mem_map]
  constructor
  · rintro ⟨⟨names, time⟩, hitem, hpair⟩
    obtain ⟨rfl, rfl⟩ := Prod.mk.inj hpair
    rw [List.mem_filter, mem_filesBelow_iff h] at hitem
    obtain ⟨⟨content, hentry⟩, hadmits⟩ := hitem
    have hnames : ∀ name ∈ names, Path.IsOrdinary name := fun name hname =>
      (h.isName_of_entry? hentry name (List.mem_append_right _ hname)).1
    have hne : names ≠ [] := by
      rintro rfl
      rw [List.append_nil, hfolder] at hentry
      cases hentry
    obtain ⟨hout, hvisible⟩ := (admits_iff hnames).mp hadmits
    exact ⟨names, hne, rfl, fun name hmem => ⟨hnames name hmem, hvisible name hmem⟩, hout, content,
      (h.find?_descend_iff hbase fun name hmem => (hnames name hmem).2.2.2).mpr hentry⟩
  · rintro ⟨names, -, rfl, hnames, hout, content, hfind⟩
    have hentry := (h.find?_descend_iff hbase fun name hmem => (hnames name hmem).1.2.2.2).mp hfind
    have hadmits := (admits_iff fun name hmem => (hnames name hmem).1).mpr
      ⟨hout, fun name hmem => (hnames name hmem).2⟩
    exact ⟨(names, modified), List.mem_filter.mpr
      ⟨(mem_filesBelow_iff h).mpr ⟨content, hentry⟩, hadmits⟩, rfl⟩

/-- No two candidates have the same path. -/
theorem pairwise_candidates (h : tree.WellFormed) :
    (w.candidates tree).Pairwise fun a b => a.1.segments ≠ b.1.segments := by
  cases hfind : tree.find? w.root with
  | none => simp [candidates_of_nothing hfind]
  | some entry =>
    cases entry with
    | file content modified => simp [candidates_of_file hfind]
    | folder =>
      obtain ⟨base, hbase, hfolder⟩ := FileTree.find?_eq_some_iff.mp hfind
      rw [candidates_of_folder hbase hfolder, List.pairwise_map]
      refine ((pairwise_filesBelow h base).filter _).imp fun hne hsame => hne ?_
      rw [Path.segments_descend, Path.segments_descend] at hsame
      exact List.append_cancel_left hsame

/-- A look finds paths in strictly rising order. -/
theorem pairwise_scan (h : tree.WellFormed) :
    (w.scan tree).Pairwise fun a b => a.1.segments < b.1.segments := by
  have hsorted : (w.scan tree).Pairwise fun a b => a.1.le b.1 = true := by
    refine List.pairwise_mergeSort (fun a b c hab hbc => ?_) (fun a b => ?_) _
    · rw [Path.le_iff] at hab hbc ⊢
      exact le_trans hab hbc
    · rw [Bool.or_eq_true, Path.le_iff, Path.le_iff]
      exact le_total _ _
  have hdistinct : (w.scan tree).Pairwise fun a b => a.1.segments ≠ b.1.segments :=
    (List.mergeSort_perm _ _).pairwise_iff (fun hne => Ne.symm hne) |>.mpr
      ((pairwise_candidates h).filter _)
  refine (hsorted.and hdistinct).imp fun {a b} hab => ?_
  exact lt_of_le_of_ne (Path.le_iff.mp hab.1) hab.2

/-- Each look finds what it is to find. -/
theorem isLook_scan (h : tree.WellFormed) : w.IsLook tree (w.scan tree) where
  ordered := pairwise_scan h
  ofFolder hroot p modified := by
    rw [mem_scan_iff, mem_candidates_iff_of_folder h hroot]
    constructor
    · rintro ⟨⟨names, hne, hp, hnames, hout, hfile⟩, hsuffix⟩
      exact ⟨names, hne, hp, hnames, hout, hsuffix, hfile⟩
    · rintro ⟨names, hne, hp, hnames, hout, hsuffix, hfile⟩
      exact ⟨⟨names, hne, hp, hnames, hout, hfile⟩, hsuffix⟩
  ofFile hfile := by
    unfold scan
    rw [candidates_of_file hfile]
    by_cases hsuffix : w.root.suffix ∈ w.extensions <;>
      simp [Path.hasExtension, hsuffix]
  ofNothing hnothing := by
    unfold scan
    rw [candidates_of_nothing hnothing]
    simp

/-- A look at files that are listed in the order of their paths. -/
theorem scan_of_ordered {found : List (Path × Int)}
    (h : ((w.candidates tree).filter fun item => item.1.hasExtension w.extensions) = found)
    (hordered : found.Pairwise fun a b => a.1.le b.1 = true) : w.scan tree = found := by
  subst h
  exact List.mergeSort_of_pairwise hordered

/-- A look finds nothing twice. -/
theorem nodup_scan (h : tree.WellFormed) : ((w.scan tree).map Prod.fst).Nodup := by
  refine List.pairwise_map.mpr ((pairwise_scan h).imp fun {a b} hlt hsame => ?_)
  rw [hsame] at hlt
  exact lt_irrefl _ hlt

/-- The time that a look found for a path is the one that it lists. -/
theorem lookup_scan (h : tree.WellFormed) {p : Path} {modified : Int} :
    (w.scan tree).lookup p = some modified ↔ (p, modified) ∈ w.scan tree :=
  Table.lookup_eq_some_iff_mem (nodup_scan h)

/-- A look that did not find a source with a time found it with another or not at all. -/
theorem not_mem_scan_iff (h : tree.WellFormed) {p : Path} {modified : Int} :
    (p, modified) ∉ w.scan tree ↔ (∀ old, (p, old) ∉ w.scan tree) ∨
      ∃ old, (p, old) ∈ w.scan tree ∧ old ≠ modified := by
  constructor
  · intro hnot
    by_cases hold : ∃ old, (p, old) ∈ w.scan tree
    · obtain ⟨old, hold⟩ := hold
      exact .inr ⟨old, hold, fun hsame => hnot (hsame ▸ hold)⟩
    · exact .inl fun old hmem => hold ⟨old, hmem⟩
  · rintro (habsent | ⟨old, hold, hne⟩) hsame
    · exact habsent modified hsame
    · have htime := (lookup_scan h).mpr hold
      rw [(lookup_scan h).mpr hsame] at htime
      exact hne (Option.some.inj htime).symm

/-! ## Look after look -/

/-- A look reports what it finds and did not find before, and passes it on once if there is any. -/
theorem poll_eq (handle : List Path → StateM Workspace Unit) (w : Watcher) (ws : Workspace) :
    w.poll handle ws =
      ((w.changed (w.scan ws.tree), { w with seen := w.scan ws.tree }),
        if w.changed (w.scan ws.tree) = [] then ws
        else (handle (w.changed (w.scan ws.tree)) { ws with
          log := ws.log ++ [⟨.debug, toString (w.changed (w.scan ws.tree)).length ++
            " changed file(s)"⟩] }).2) := by
  change (do
    let changed := w.changed (w.scan ws.tree)
    if !changed.isEmpty then
      Workspace.note [⟨.debug, toString changed.length ++ " changed file(s)"⟩]
      handle changed
    return (changed, { w with seen := w.scan ws.tree }) : StateM Workspace _) ws = _
  cases w.changed (w.scan ws.tree) <;> rfl

/-- The watcher before the look with a number, if each look meets the files of its own moment. -/
def atLook (handle : ℕ → List Path → StateM Workspace Unit) (moments : ℕ → Workspace)
    (w : Watcher) : ℕ → Watcher
  | 0 => w
  | k + 1 => ((atLook handle moments w k).poll (handle k) (moments k)).1.2

/-- What a watcher remembers is what its last look found. -/
theorem atLook_succ (handle : ℕ → List Path → StateM Workspace Unit) (moments : ℕ → Workspace)
    (w : Watcher) (k : ℕ) :
    w.atLook handle moments (k + 1) = { w with seen := w.scan (moments k).tree } := by
  induction k with
  | zero =>
    rw [atLook, poll_eq]
    rfl
  | succ k ih =>
    rw [atLook, poll_eq, ih]
    rfl

/-- A path is reported if its time differs from the one that is remembered. -/
theorem mem_changed_iff {found : List (Path × Int)} {p : Path} :
    p ∈ w.changed found ↔ ∃ modified, (p, modified) ∈ found ∧ w.seen.lookup p ≠ some modified := by
  simp [changed]

/-- What is reported is in the order of the look. -/
theorem pairwise_changed (h : tree.WellFormed) {w' : Watcher} :
    (w'.changed (w.scan tree)).Pairwise fun p q => p.segments < q.segments :=
  List.pairwise_map.mpr ((pairwise_scan h).filter _)

/-- No change is missed and none is reported twice. Whatever happens to the files between looks and
while reports are handled, a look finds the sources as they are, reports in order those that the
look before did not find or found with another time, and passes the report on once unless it is
empty. -/
theorem polls_report_changes {w : Watcher} (hnew : w.seen = []) {moments : ℕ → Workspace}
    (htrees : ∀ k, (moments k).tree.WellFormed)
    (handle : ℕ → List Path → StateM Workspace Unit) (k : ℕ) :
    w.IsLook (moments k).tree (w.scan (moments k).tree) ∧
    ∃ changed,
      (w.atLook handle moments k).poll (handle k) (moments k) =
        ((changed, w.atLook handle moments (k + 1)),
          if changed = [] then moments k
          else (handle k changed { moments k with log := (moments k).log ++
            [⟨.debug, toString changed.length ++ " changed file(s)"⟩] }).2) ∧
      (changed.Pairwise fun p q => p.segments < q.segments) ∧
      ∀ p, p ∈ changed ↔ ∃ modified, (p, modified) ∈ w.scan (moments k).tree ∧
        ∀ j, k = j + 1 → (∀ old, (p, old) ∉ w.scan (moments j).tree) ∨
          ∃ old, (p, old) ∈ w.scan (moments j).tree ∧ old ≠ modified := by
  refine ⟨isLook_scan (htrees k), (w.atLook handle moments k).changed (w.scan (moments k).tree),
    ?_, pairwise_changed (htrees k), fun p => ?_⟩
  · have hscan : (w.atLook handle moments k).scan (moments k).tree = w.scan (moments k).tree := by
      cases k with
      | zero => rfl
      | succ j => rw [atLook_succ]; rfl
    have hnext := poll_eq (handle k) (w.atLook handle moments k) (moments k)
    rw [hscan] at hnext
    rw [hnext, atLook, hnext]
  · rw [mem_changed_iff]
    refine exists_congr fun modified => and_congr_right fun _ => ?_
    cases k with
    | zero => simp [atLook, hnew]
    | succ j =>
      rw [atLook_succ]
      simp only [Nat.add_right_cancel_iff, forall_eq', Ne, lookup_scan (htrees j)]
      exact not_mem_scan_iff (htrees j)

/-- Between two looks one source is changed, one stays and one is new, and a hidden file appears. -/
theorem polls_report_changes_edited :
    let file (name : String) (modified : Int) : Place × Entry :=
      (["home", name], .file (.text "(f)") modified)
    let ws (files : List (Place × Entry)) : Workspace :=
      { tree := ⟨(["home"], .folder) :: files, ["home"], 9⟩, macros := .start true, log := [] }
    let before := ws [file "a.clj" 1, file "b.clj" 1]
    let after := ws [file ".c.clj" 1, file "a.clj" 2, file "b.clj" 1, file "d.clj" 1]
    let moments (k : ℕ) := if k = 0 then before else after
    let w : Watcher := ⟨.ofString ".", .blank, [".clj"], "out", [], false⟩
    let handle (_ : ℕ) (_ : List Path) : StateM Workspace Unit := pure ()
    ∃ changed, ((w.atLook handle moments 1).poll (handle 1) (moments 1)).1.1 = changed ∧
      ∀ p ∈ [".c.clj", "a.clj", "b.clj", "d.clj"],
        Path.ofString p ∈ changed ↔ p ∈ ["a.clj", "d.clj"] := by
  intro file ws before after moments w handle
  have htrees (k : ℕ) : (moments k).tree.WellFormed := by
    by_cases hk : k = 0
    · rw [show moments k = before from if_pos hk]
      decide +kernel
    · rw [show moments k = after from if_neg hk]
      decide +kernel
  have hbefore : w.scan before.tree = [(.ofString "a.clj", 1), (.ofString "b.clj", 1)] :=
    scan_of_ordered (by decide +kernel) (by decide +kernel)
  have hafter : w.scan after.tree =
      [(.ofString "a.clj", 2), (.ofString "b.clj", 1), (.ofString "d.clj", 1)] :=
    scan_of_ordered (by decide +kernel) (by decide +kernel)
  obtain ⟨-, changed, hpoll, -, hchanged⟩ := polls_report_changes (w := w) rfl htrees handle 1
  refine ⟨changed, by rw [hpoll], ?_⟩
  have hmem (p : Path) : p ∈ changed ↔
      p ∈ ((w.scan after.tree).filter fun item => item ∉ w.scan before.tree).map Prod.fst := by
    have hnew : (∃ modified, (p, modified) ∈ w.scan after.tree ∧
        (p, modified) ∉ w.scan before.tree) ↔ _ :=
      exists_congr fun modified => and_congr_right fun _ => not_mem_scan_iff (htrees 0)
    simpa [hchanged, moments] using hnew.symm
  simp only [hmem, hbefore, hafter]
  decide +kernel

end LispScript.Watcher
