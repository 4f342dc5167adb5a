import LispScript.FileTree
import LispScript.Proofs.Paths
import LispScript.Proofs.Steps
import LispScript.Proofs.Tables

/-!
# Trees of files

The entries of a tree hang together: each lies in a folder, under a name that leads to it. The steps
of the program keep a tree so. They make folders where nothing was, and write a file at the place
that its path leads to; all folders and all other files stay, and so every path that led somewhere
leads there again.
-/

namespace LispScript

namespace FileTree

/-! ## Entries -/

/-- The root is a folder. -/
theorem entry?_nil (tree : FileTree) : tree.entry? [] = some .folder := rfl

/-- Elsewhere the list of entries decides. -/
theorem entry?_of_ne_nil {tree : FileTree} {place : Place} (h : place ≠ []) :
    tree.entry? place = tree.entries.lookup place := if_neg h

/-- What is put at a place stands there, and everything else stays. -/
theorem entry?_put {tree : FileTree} {place : Place} (h : place ≠ []) (entry : Entry)
    (other : Place) :
    FileTree.entry? (tree.put place entry) other =
      if other = place then some entry else tree.entry? other := by
  by_cases hother : other = []
  · rw [hother, if_neg (Ne.symm h)]
    rfl
  · rw [entry?_of_ne_nil hother, entry?_of_ne_nil hother]
    exact Table.lookup_assign place entry tree.entries other

/-! ## Trees that hang together -/

/-- A name that a file or folder can have. -/
def IsName (name : String) : Prop :=
  Path.IsOrdinary name ∧ '\x00' ∉ name.toList

instance (name : String) : Decidable (IsName name) :=
  inferInstanceAs (Decidable (_ ∧ _))

/-- A tree of files and folders. -/
structure WellFormed (tree : FileTree) : Prop where
  /-- Nothing stands at a place twice. -/
  nodup : (tree.entries.map Prod.fst).Nodup
  names : ∀ place ∈ tree.entries.map Prod.fst, ∀ name ∈ place, IsName name
  /-- Everything lies in a folder. -/
  parent : ∀ place ∈ tree.entries.map Prod.fst, tree.entry? place.dropLast = some .folder
  /-- The root is no file. -/
  root : ∀ item ∈ tree.entries, item.1 = [] → item.2 = .folder
  here : tree.entry? tree.here = some .folder

instance (tree : FileTree) : Decidable tree.WellFormed :=
  decidable_of_iff
    ((tree.entries.map Prod.fst).Nodup ∧
      (∀ place ∈ tree.entries.map Prod.fst, ∀ name ∈ place, IsName name) ∧
      (∀ place ∈ tree.entries.map Prod.fst, tree.entry? place.dropLast = some .folder) ∧
      (∀ item ∈ tree.entries, item.1 = [] → item.2 = .folder) ∧
      tree.entry? tree.here = some .folder)
    ⟨fun ⟨h₁, h₂, h₃, h₄, h₅⟩ => ⟨h₁, h₂, h₃, h₄, h₅⟩,
      fun h => ⟨h.nodup, h.names, h.parent, h.root, h.here⟩⟩

namespace WellFormed

variable {tree : FileTree} {place : Place} {entry : Entry}

/-- In a tree that hangs together each place has the entry that is listed for it. -/
theorem entry?_eq_some_iff (h : tree.WellFormed) (hne : place ≠ []) :
    tree.entry? place = some entry ↔ (place, entry) ∈ tree.entries := by
  rw [entry?_of_ne_nil hne]
  exact Table.lookup_eq_some_iff_mem h.nodup

/-- Whatever there is lies in a folder. -/
theorem parent_of_entry? (h : tree.WellFormed) (hentry : tree.entry? place = some entry) :
    tree.entry? place.dropLast = some .folder := by
  by_cases hne : place = []
  · rw [hne]
    rfl
  · exact h.parent place (List.mem_map_of_mem ((h.entry?_eq_some_iff hne).mp hentry))

/-- Whatever there is has names that can be used. -/
theorem isName_of_entry? (h : tree.WellFormed) (hentry : tree.entry? place = some entry) :
    ∀ name ∈ place, IsName name := by
  by_cases hne : place = []
  · simp [hne]
  · exact h.names place (List.mem_map_of_mem ((h.entry?_eq_some_iff hne).mp hentry))

/-- Files are entries, and they do not stand at the root. -/
theorem file_mem_iff (h : tree.WellFormed) {content : Content} {modified : Int} :
    (place, .file content modified) ∈ tree.entries ↔
      tree.entry? place = some (.file content modified) := by
  by_cases hne : place = []
  · subst hne
    refine iff_of_false (fun hmem => ?_) (by simp [entry?_nil])
    have hroot := h.root _ hmem rfl
    simp at hroot
  · exact (h.entry?_eq_some_iff hne).symm

/-- What leads to an entry is a folder. -/
theorem folder_of_entry? (h : tree.WellFormed) {names : List String} (hnames : names ≠ [])
    (hentry : tree.entry? (place ++ names) = some entry) : tree.entry? place = some .folder := by
  induction names using List.reverseRecOn generalizing entry with
  | nil => exact absurd rfl hnames
  | append_singleton names name ih =>
    have hparent := h.parent_of_entry? hentry
    rw [← List.append_assoc, List.dropLast_concat] at hparent
    by_cases hempty : names = []
    · simpa [hempty] using hparent
    · exact ih hempty hparent

end WellFormed

/-! ## Following a path -/

/-- Names are followed one after the other. -/
theorem follow_append (tree : FileTree) (place : Place) (front back : List String) :
    tree.follow place (front ++ back) = tree.follow place front >>= (tree.follow · back) := by
  induction front generalizing place with
  | nil => rfl
  | cons name front ih =>
    simp only [List.cons_append, follow]
    split
    · rfl
    · rfl
    · exact ih _

/-- Names without double dots lead straight down. -/
theorem eq_append_of_follow {tree : FileTree} {place found : Place} {names : List String}
    (hnames : ∀ name ∈ names, name ≠ "..") (h : tree.follow place names = .ok found) :
    found = place ++ names := by
  induction names generalizing place with
  | nil =>
    cases h
    simp
  | cons name names ih =>
    rw [List.forall_mem_cons] at hnames
    rw [follow] at h
    split at h
    · cases h
    · cases h
    · rw [if_neg hnames.1] at h
      rw [ih hnames.2 h, List.append_assoc, List.singleton_append]

/-- Where names lead to, if anywhere, is the same in all trees. -/
theorem follow_unique {tree tree' : FileTree} {place found found' : Place} {names : List String}
    (h : tree.follow place names = .ok found) (h' : tree'.follow place names = .ok found') :
    found = found' := by
  induction names generalizing place with
  | nil => exact Except.ok.inj (h.symm.trans h')
  | cons name names ih =>
    rw [follow] at h h'
    split at h
    · cases h
    · cases h
    · split at h'
      · cases h'
      · cases h'
      · exact ih h h'

/-- The names of an entry lead to it. -/
theorem WellFormed.follow_of_entry? {tree : FileTree} (h : tree.WellFormed) {place : Place}
    {names : List String} {entry : Entry} (hnames : ∀ name ∈ names, name ≠ "..")
    (hentry : tree.entry? (place ++ names) = some entry) :
    tree.follow place names = .ok (place ++ names) := by
  induction names generalizing place with
  | nil => simp [follow]
  | cons name names ih =>
    rw [List.forall_mem_cons] at hnames
    have hfolder := h.folder_of_entry? (List.cons_ne_nil name names) hentry
    rw [List.append_cons] at hentry ⊢
    rw [follow, hfolder]
    simpa [hnames.1] using ih hnames.2 hentry

/-- The place from which the names of a path are followed. -/
def start (tree : FileTree) (root : Path.Root) : Place :=
  if root = .workingFolder then tree.here else []

/-- Paths start in a folder. -/
theorem WellFormed.entry?_start {tree : FileTree} (h : tree.WellFormed) (root : Path.Root) :
    tree.entry? (tree.start root) = some .folder := by
  unfold start
  split
  · exact h.here
  · rfl

/-- A path leads to a place if its names can be followed and none of them holds a zero. -/
theorem place_eq_ok_iff {tree : FileTree} {p : Path} {found : Place} :
    tree.place p = .ok found ↔ (∀ name ∈ p.names, '\x00' ∉ name.toList) ∧
      tree.follow (tree.start p.root) p.names = .ok found := by
  unfold place start
  by_cases hzero : p.names.any (·.toList.contains '\x00') = true
  · rw [if_pos hzero]
    simp only [List.any_eq_true, List.contains_iff_mem] at hzero
    obtain ⟨name, hname, hmem⟩ := hzero
    exact iff_of_false (by simp) fun h => h.1 name hname hmem
  · rw [if_neg hzero]
    have hfree : ∀ name ∈ p.names, '\x00' ∉ name.toList := by simpa using hzero
    rw [and_iff_right hfree]
    dsimp only
    split <;> simp_all

/-- Two trees with the same working folder cannot disagree on where a path leads. -/
theorem place_unique {tree tree' : FileTree} (hhere : tree'.here = tree.here) {p : Path}
    {found found' : Place} (h : tree.place p = .ok found) (h' : tree'.place p = .ok found') :
    found = found' := by
  have hfollow := (place_eq_ok_iff.mp h').2
  rw [start, hhere] at hfollow
  exact follow_unique (place_eq_ok_iff.mp h).2 hfollow

/-- The start of a path leads to the place from which the rest leads on. -/
theorem place_descend {tree : FileTree} {p : Path} {names : List String} {found : Place}
    (h : tree.place (p.descend names) = .ok found) :
    ∃ base, tree.place p = .ok base ∧ tree.follow base names = .ok found ∧
      ∀ name ∈ names, '\x00' ∉ name.toList := by
  obtain ⟨hzero, hfollow⟩ := place_eq_ok_iff.mp h
  change ∀ name ∈ p.names ++ names, _ at hzero
  change tree.follow (tree.start p.root) (p.names ++ names) = _ at hfollow
  rw [List.forall_mem_append] at hzero
  rw [follow_append] at hfollow
  cases hbase : tree.follow (tree.start p.root) p.names with
  | error cause =>
    rw [hbase] at hfollow
    cases hfollow
  | ok base =>
    rw [hbase] at hfollow
    exact ⟨base, place_eq_ok_iff.mpr ⟨hzero.1, hbase⟩, hfollow, hzero.2⟩

/-- A path goes on from the place that its front leads to. -/
theorem place_descend_of_ok {tree : FileTree} {p : Path} {names : List String} {base found : Place}
    (hbase : tree.place p = .ok base) (hzero : ∀ name ∈ names, '\x00' ∉ name.toList)
    (h : tree.follow base names = .ok found) : tree.place (p.descend names) = .ok found := by
  obtain ⟨hfront, hfollow⟩ := place_eq_ok_iff.mp hbase
  refine place_eq_ok_iff.mpr ⟨List.forall_mem_append.mpr ⟨hfront, hzero⟩, ?_⟩
  change tree.follow (tree.start p.root) (p.names ++ names) = _
  rw [follow_append, hfollow]
  exact h

/-- What is found at a path is the entry at its place. -/
theorem find?_eq_some_iff {tree : FileTree} {p : Path} {entry : Entry} :
    tree.find? p = some entry ↔ ∃ place, tree.place p = .ok place ∧
      tree.entry? place = some entry := by
  unfold find?
  split <;> simp_all

/-- A path is a folder if there is one at its place. -/
theorem isFolder_iff {tree : FileTree} {p : Path} :
    tree.isFolder p = true ↔ ∃ place, tree.place p = .ok place ∧
      tree.entry? place = some .folder := by
  rw [isFolder, beq_iff_eq, find?_eq_some_iff]

/-- Names without double dots lead down. -/
theorem eq_append_of_place {tree : FileTree} {p : Path} {names : List String} {base found : Place}
    (hbase : tree.place p = .ok base) (hnames : ∀ name ∈ names, name ≠ "..")
    (h : tree.place (p.descend names) = .ok found) : found = base ++ names := by
  obtain ⟨base', hbase', hfollow, -⟩ := place_descend h
  obtain rfl : base = base' := by simpa [hbase] using hbase'
  exact eq_append_of_follow hnames hfollow

/-- Names without double dots lead to what stands at these names. -/
theorem WellFormed.find?_descend_iff {tree : FileTree} (h : tree.WellFormed) {p : Path}
    {names : List String} {base : Place} {entry : Entry} (hbase : tree.place p = .ok base)
    (hnames : ∀ name ∈ names, name ≠ "..") :
    tree.find? (p.descend names) = some entry ↔ tree.entry? (base ++ names) = some entry := by
  rw [find?_eq_some_iff]
  constructor
  · rintro ⟨found, hplace, hentry⟩
    rwa [← eq_append_of_place hbase hnames hplace]
  · intro hentry
    have hzero : ∀ name ∈ names, '\x00' ∉ name.toList := fun name hname =>
      (h.isName_of_entry? hentry name (List.mem_append_right _ hname)).2
    exact ⟨_, place_descend_of_ok hbase hzero (h.follow_of_entry? hnames hentry), hentry⟩

/-- A path leads to a folder, or to a name in a folder. -/
theorem WellFormed.place_cases {tree : FileTree} (h : tree.WellFormed) {p : Path} (hp : p.Proper)
    {found : Place} (hplace : tree.place p = .ok found) :
    tree.entry? found = some .folder ∨
      ∃ folder name, found = folder ++ [name] ∧ tree.entry? folder = some .folder ∧
        IsName name ∧ p.names.getLast? = some name := by
  obtain ⟨hzero, hfollow⟩ := place_eq_ok_iff.mp hplace
  rcases List.eq_nil_or_concat p.names with hnil | ⟨front, last, hlast⟩
  · left
    rw [hnil] at hfollow
    cases hfollow
    exact h.entry?_start p.root
  · rw [List.concat_eq_append] at hlast
    rw [hlast, follow_append] at hfollow
    cases hfront : tree.follow (tree.start p.root) front with
    | error cause =>
      rw [hfront] at hfollow
      cases hfollow
    | ok folder =>
      rw [hfront] at hfollow
      change tree.follow folder [last] = .ok found at hfollow
      rw [follow] at hfollow
      split at hfollow
      · cases hfollow
      · cases hfollow
      · -- the last name leads up to a folder or down from one
        rename_i hfolder
        by_cases hdots : last = ".."
        · left
          rw [if_pos hdots] at hfollow
          cases hfollow
          exact h.parent_of_entry? hfolder
        · right
          rw [if_neg hdots] at hfollow
          cases hfollow
          have hmem : last ∈ p.names := by simp [hlast]
          obtain ⟨hslash, hempty, hdot⟩ := hp last hmem
          exact ⟨folder, last, rfl, hfolder, ⟨⟨hslash, hempty, hdot, hdots⟩, hzero last hmem⟩,
            by simp [hlast]⟩

/-! ## What steps keep -/

/-- The second tree is well formed, has all folders of the first, and the same files but for those
at places that may be written. -/
structure Keeps (written : Place → Prop) (tree tree' : FileTree) : Prop where
  here_eq : tree'.here = tree.here
  folder {place : Place} (h : tree.entry? place = some .folder) : tree'.entry? place = some .folder
  file_iff {place : Place} {content : Content} {modified : Int} (h : ¬ written place) :
    tree'.entry? place = some (.file content modified) ↔
      tree.entry? place = some (.file content modified)
  wellFormed : tree'.WellFormed

namespace Keeps

variable {written written' : Place → Prop} {tree tree' tree'' : FileTree}

/-- A tree keeps itself. -/
theorem refl (h : tree.WellFormed) : Keeps written tree tree :=
  ⟨rfl, id, fun _ => Iff.rfl, h⟩

/-- What is kept by one step and by the next is kept by both. -/
theorem trans (h : Keeps written tree tree') (h' : Keeps written tree' tree'') :
    Keeps written tree tree'' :=
  ⟨h'.here_eq.trans h.here_eq, fun hfolder => h'.folder (h.folder hfolder),
    fun hnot => (h'.file_iff hnot).trans (h.file_iff hnot), h'.wellFormed⟩

/-- More places may be written. -/
theorem mono (h : Keeps written tree tree') (hle : ∀ place, written place → written' place) :
    Keeps written' tree tree' :=
  ⟨h.here_eq, h.folder, fun hnot => h.file_iff fun hw => hnot (hle _ hw), h.wellFormed⟩

/-- Names that led somewhere lead there again. -/
theorem follow_eq (h : Keeps written tree tree') {place found : Place} {names : List String}
    (hfollow : tree.follow place names = .ok found) : tree'.follow place names = .ok found := by
  induction names generalizing place with
  | nil => exact hfollow
  | cons name names ih =>
    rw [follow] at hfollow ⊢
    split at hfollow
    · cases hfollow
    · cases hfollow
    · rename_i hfolder
      rw [h.folder hfolder]
      exact ih hfollow

/-- A path leads where it led before. -/
theorem place_eq (h : Keeps written tree tree') {p : Path} {found : Place}
    (hplace : tree.place p = .ok found) : tree'.place p = .ok found := by
  obtain ⟨hzero, hfollow⟩ := place_eq_ok_iff.mp hplace
  have hstart : tree'.start p.root = tree.start p.root := by rw [start, start, h.here_eq]
  exact place_eq_ok_iff.mpr ⟨hzero, hstart ▸ h.follow_eq hfollow⟩

/-- A file that is not written stays as it is. -/
theorem find?_eq (h : Keeps written tree tree') {p : Path} {place : Place} {content : Content}
    {modified : Int} (hplace : tree.place p = .ok place) (hnot : ¬ written place)
    (hfile : tree.entry? place = some (.file content modified)) :
    tree'.find? p = some (.file content modified) :=
  find?_eq_some_iff.mpr ⟨place, h.place_eq hplace, (h.file_iff hnot).mpr hfile⟩

end Keeps

/-- A folder stays if it is not replaced. -/
theorem entry?_put_of_folder {tree : FileTree} {folder place : Place} {name : String}
    (hfree : tree.entry? (folder ++ [name]) ≠ some .folder) (entry : Entry)
    (hplace : tree.entry? place = some .folder) :
    FileTree.entry? (tree.put (folder ++ [name]) entry) place = some .folder := by
  have hother : place ≠ folder ++ [name] := by
    rintro rfl
    exact hfree hplace
  rw [entry?_put (by simp), if_neg hother, hplace]

/-- An entry in a folder keeps a tree well formed if it does not replace a folder. -/
theorem WellFormed.put {tree : FileTree} (h : tree.WellFormed) {folder : Place} {name : String}
    (hfolder : tree.entry? folder = some .folder) (hname : IsName name)
    (hfree : tree.entry? (folder ++ [name]) ≠ some .folder) (entry : Entry) :
    (tree.put (folder ++ [name]) entry).WellFormed := by
  have hstays {place : Place} (hplace : tree.entry? place = some .folder) :=
    entry?_put_of_folder hfree entry hplace
  refine ⟨Table.nodup_keys_assign h.nodup, fun place hplace => ?_, fun place hplace => ?_,
    fun item hitem hroot => ?_, hstays h.here⟩
  · rcases Table.mem_keys_assign.mp hplace with rfl | hplace
    · rw [List.forall_mem_append]
      exact ⟨h.isName_of_entry? hfolder, by simpa using hname⟩
    · exact h.names place hplace
  · rcases Table.mem_keys_assign.mp hplace with rfl | hplace
    · rw [List.dropLast_concat]
      exact hstays hfolder
    · exact hstays (h.parent place hplace)
  · have hother : item.1 ≠ folder ++ [name] := by simp [hroot]
    have hbefore := (Table.mem_assign hitem).resolve_left fun hsame =>
      hother (congrArg Prod.fst hsame)
    exact h.root item hbefore hroot

/-- Putting an entry into a folder, where no other folder stands, keeps all but that place. -/
theorem WellFormed.keeps_put {tree : FileTree} (h : tree.WellFormed) {folder : Place}
    {name : String} (hfolder : tree.entry? folder = some .folder) (hname : IsName name)
    (hfree : tree.entry? (folder ++ [name]) ≠ some .folder) (entry : Entry) :
    Keeps (· = folder ++ [name]) tree (tree.put (folder ++ [name]) entry) := by
  refine ⟨rfl, entry?_put_of_folder hfree entry, fun {place _ _} hplace => ?_,
    h.put hfolder hname hfree entry⟩
  rw [entry?_put (by simp), if_neg hplace]

/-! ## The steps -/

/-- No place is written. -/
def nowhere : Place → Prop := fun _ => False

/-- Making a folder fails and changes nothing, or puts one where nothing was. -/
theorem makeFolder_cases (p : Path) (tree : FileTree) :
    (∃ e, makeFolder p tree = (.error e, tree)) ∨
      ∃ place, tree.place p = .ok place ∧ tree.entry? place = none ∧
        makeFolder p tree = (.ok (), tree.put place .folder) := by
  unfold makeFolder
  rw [Steps.get_bind]
  cases hplace : tree.place p with
  | error e => exact .inl ⟨e, rfl⟩
  | ok place =>
    cases hentry : tree.entry? place with
    | some entry => exact .inl ⟨.onPath .exists p, by simp [hentry]; rfl⟩
    | none => exact .inr ⟨place, rfl, hentry, by simp [hentry]; rfl⟩

/-- Making a folder keeps all that there is. -/
theorem makeFolder_keeps {p : Path} (hp : p.Proper) {tree : FileTree} (h : tree.WellFormed) :
    Keeps nowhere tree (makeFolder p tree).2 := by
  rcases makeFolder_cases p tree with ⟨e, hmake⟩ | ⟨place, hplace, hnone, hmake⟩
  · rw [hmake]
    exact .refl h
  · rcases h.place_cases hp hplace with hfolder | ⟨folder, name, rfl, hfolder, hname, -⟩
    · rw [hnone] at hfolder
      cases hfolder
    · rw [hmake]
      have hkeeps := h.keeps_put hfolder hname (by rw [hnone]; simp) .folder
      refine ⟨hkeeps.here_eq, hkeeps.folder, fun {other content modified} _ => ?_,
        hkeeps.wellFormed⟩
      by_cases hother : other = folder ++ [name]
      · rw [hother, entry?_put (by simp), if_pos rfl, hnone]
        simp
      · exact hkeeps.file_iff hother

/-- So does making a folder that may be there already. -/
theorem ensureFolder_keeps {p : Path} (hp : p.Proper) {tree : FileTree} (h : tree.WellFormed) :
    Keeps nowhere tree (ensureFolder p tree).2 := by
  have hmake := makeFolder_keeps hp h
  unfold ensureFolder
  split
  · rename_i heq
    rw [heq] at hmake
    split <;> exact hmake
  · exact hmake

/-- So does making a folder with those above it. -/
theorem ensureFolders_keeps {p : Path} (hp : p.Proper) {tree : FileTree} (h : tree.WellFormed)
    (missing : Nat) : Keeps nowhere tree (ensureFolders p missing tree).2 := by
  induction missing generalizing p tree with
  | zero => exact ensureFolder_keeps hp h
  | succ missing ih =>
    have hfirst := ensureFolder_keeps hp h
    unfold ensureFolders
    split
    · rename_i q tree' heq
      rw [heq] at hfirst
      split
      · exact hfirst
      · have habove := ih hp.parent hfirst.wellFormed
        cases hrun : ensureFolders p.parent missing tree' with
        | mk result tree'' =>
          rw [hrun] at habove
          cases result with
          | error e =>
            rw [Steps.bind_of_error hrun]
            exact hfirst.trans habove
          | ok done =>
            rw [Steps.bind_of_ok hrun]
            exact (hfirst.trans habove).trans (ensureFolder_keeps hp habove.wellFormed)
    · exact hfirst

/-- Making folders changes no file. -/
theorem makeFolders_keeps {p : Path} (hp : p.Proper) {tree : FileTree} (h : tree.WellFormed) :
    Keeps nowhere tree (makeFolders p tree).2 :=
  ensureFolders_keeps hp h p.names.length

/-- Writing a text fails and changes nothing, or puts a file with the present time at the place of
its path. -/
theorem writeText_cases (p : Path) (text : String) (tree : FileTree) :
    (∃ e, writeText p text tree = (.error e, tree)) ∨
      ∃ place, tree.place p = .ok place ∧ tree.entry? place ≠ some .folder ∧
        writeText p text tree = (.ok (), { tree.put place (.file (.text text) tree.clock) with
          clock := tree.clock + 1 }) := by
  have hwrite : (∃ e, writeAt p (.text text) tree.clock tree = (.error e, tree)) ∨
      ∃ place, tree.place p = .ok place ∧ tree.entry? place ≠ some .folder ∧
        writeAt p (.text text) tree.clock tree =
          (.ok (), tree.put place (.file (.text text) tree.clock)) := by
    unfold writeAt
    rw [Steps.get_bind]
    cases hplace : tree.place p with
    | error e => exact .inl ⟨e, rfl⟩
    | ok place =>
      by_cases hfolder : tree.entry? place = some .folder
      · exact .inl ⟨.onPath .isFolder p, by simp only [hfolder, if_true]; rfl⟩
      · exact .inr ⟨place, rfl, hfolder, by simp only [hfolder, if_false]; rfl⟩
  unfold writeText
  rw [Steps.get_bind]
  rcases hwrite with ⟨e, hwrite⟩ | ⟨place, hplace, hfolder, hwrite⟩
  · exact .inl ⟨e, Steps.bind_of_error hwrite⟩
  · exact .inr ⟨place, hplace, hfolder, Steps.bind_of_ok hwrite⟩

/-- A text that is written stands at the place that its path leads to, and no other file changes. -/
theorem writeText_keeps {p : Path} (hp : p.Proper) {tree tree' : FileTree} (h : tree.WellFormed)
    {text : String} (hrun : writeText p text tree = (.ok (), tree')) :
    ∃ place, tree'.place p = .ok place ∧ Keeps (· = place) tree tree' ∧
      ∃ modified, tree'.entry? place = some (.file (.text text) modified) := by
  rcases writeText_cases p text tree with ⟨e, hwrite⟩ | ⟨place, hplace, hfree, hwrite⟩
  · rw [hwrite] at hrun
    cases hrun
  · rw [hwrite] at hrun
    obtain rfl := (Prod.mk.inj hrun).2
    rcases h.place_cases hp hplace with hfolder | ⟨folder, name, rfl, hfolder, hname, -⟩
    · exact absurd hfolder hfree
    · have hput := h.keeps_put hfolder hname hfree (.file (.text text) tree.clock)
      have hwell := hput.wellFormed
      have hkeeps : Keeps (· = folder ++ [name]) tree
          { tree.put (folder ++ [name]) (.file (.text text) tree.clock) with
            clock := tree.clock + 1 } :=
        ⟨hput.here_eq, hput.folder, hput.file_iff,
          ⟨hwell.nodup, hwell.names, hwell.parent, hwell.root, hwell.here⟩⟩
      refine ⟨folder ++ [name], hkeeps.place_eq hplace, hkeeps, tree.clock, ?_⟩
      exact (entry?_put (by simp) _ _).trans (if_pos rfl)

/-- A failed writing changes nothing. -/
theorem writeText_error {p : Path} {text : String} {tree tree' : FileTree} {e : FileError}
    (hrun : writeText p text tree = (.error e, tree')) : tree' = tree := by
  rcases writeText_cases p text tree with ⟨e', hwrite⟩ | ⟨place, -, -, hwrite⟩
  · rw [hwrite] at hrun
    exact (Prod.mk.inj hrun).2.symm
  · rw [hwrite] at hrun
    cases (Prod.mk.inj hrun).1

end FileTree

end LispScript
