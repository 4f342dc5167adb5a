import LispScript.Path
import LispScript.Proofs.Lines
import Mathlib

/-!
# Names, paths and their order

Paths that are spelled by a text have names that no slash, no single dot and no empty text stands
for. On such paths the place of a script is a plain one: the name of its folder and its own name
take the place of the name of the source. The order of paths is the order of their segments, name by
name and character by character.
-/

namespace LispScript

/-! ## Order -/

namespace Text

/-- Texts are compared character by character. -/
theorem charsBefore_iff {cs ds : List Char} : charsBefore cs ds = true ↔ cs < ds := by
  induction cs, ds using charsBefore.induct with
  | case1 cs => simp [charsBefore]
  | case2 d ds => simp [charsBefore]
  | case3 cs d ds ih =>
    rw [charsBefore, if_pos rfl, ih, List.cons_lt_cons_iff]
    simp
  | case4 c cs d ds hne =>
    rw [charsBefore, if_neg hne, decide_eq_true_iff, List.cons_lt_cons_iff]
    simp only [hne, false_and, or_false]
    rfl

/-- Lists of names are compared name by name. -/
theorem listNotAfter_iff {ss ts : List String} : listNotAfter ss ts = true ↔ ss ≤ ts := by
  rw [← not_lt]
  induction ss, ts using listNotAfter.induct with
  | case1 ts => simp [listNotAfter]
  | case2 s ss => simp [listNotAfter]
  | case3 ss t ts ih =>
    rw [listNotAfter, if_pos rfl, ih, List.cons_lt_cons_iff]
    simp
  | case4 s ss t ts hne =>
    rw [listNotAfter, if_neg hne, charsBefore_iff, List.cons_lt_cons_iff,
      ← String.lt_iff_toList_lt]
    simp only [Ne.symm hne, false_and, or_false, not_lt]
    exact ⟨le_of_lt, fun hle => lt_of_le_of_ne hle hne⟩

end Text

namespace Path

/-- Paths are compared by their segments. -/
theorem le_iff {p q : Path} : p.le q = true ↔ p.segments ≤ q.segments :=
  Text.listNotAfter_iff

/-- The path that names lead to from `p`. -/
def descend (p : Path) (names : List String) : Path :=
  { p with names := p.names ++ names }

/-- Going down from a path puts names behind its segments. -/
theorem segments_descend (p : Path) (names : List String) :
    (p.descend names).segments = p.segments ++ names := by
  obtain ⟨root, front⟩ := p
  cases root <;> rfl

/-- Different names lead to different paths. -/
theorem descend_injective (p : Path) : Function.Injective p.descend := by
  intro names names' h
  have hnames : p.names ++ names = p.names ++ names' := congrArg Path.names h
  exact List.append_cancel_left hnames

/-- Going down twice is going down once. -/
theorem descend_descend (p : Path) (names names' : List String) :
    (p.descend names).descend names' = p.descend (names ++ names') := by
  simp [descend]

/-- The name of a path is the last one that was gone down by. -/
theorem name_descend (p : Path) (names : List String) (name : String) :
    (p.descend (names ++ [name])).name = name := by
  simp [Path.name, descend]

/-- A path leads on from that of its folder by its last name. -/
theorem eq_parent_descend {p : Path} {name : String} (h : p.names.getLast? = some name) :
    p = p.parent.descend [name] := by
  have hnames := List.dropLast_append_getLast? name h
  simp [descend, Path.parent, hnames]

/-! ## Names -/

/-- A name that leads to something of its own, below the place it is used at. -/
def IsOrdinary (name : String) : Prop :=
  '/' ∉ name.toList ∧ name ≠ "" ∧ name ≠ "." ∧ name ≠ ".."

instance (name : String) : Decidable (IsOrdinary name) :=
  inferInstanceAs (Decidable (_ ∧ _))

/-- A path whose names can be spelled. Double dots are among them. -/
def Proper (p : Path) : Prop :=
  ∀ name ∈ p.names, '/' ∉ name.toList ∧ name ≠ "" ∧ name ≠ "."

instance (p : Path) : Decidable p.Proper :=
  inferInstanceAs (Decidable (∀ name ∈ p.names, _))

/-- Every path that a text spells is proper. -/
theorem proper_ofString (s : String) : (ofString s).Proper := by
  intro name hname
  simp only [ofString, List.mem_filter, List.mem_map, decide_eq_true_eq] at hname
  obtain ⟨⟨piece, hpiece, rfl⟩, hempty, hdot⟩ := hname
  refine ⟨?_, hempty, hdot⟩
  rw [String.toList_ofList]
  exact Text.not_mem_of_mem_cutAt hpiece

/-- The folder of a path that can be spelled can be spelled. -/
theorem Proper.parent {p : Path} (h : p.Proper) : p.parent.Proper :=
  fun name hname => h name (List.mem_of_mem_dropLast hname)

/-- So can one such path from another. -/
theorem Proper.join {p q : Path} (hp : p.Proper) (hq : q.Proper) : (p.join q).Proper := by
  unfold Path.join
  split
  · intro name hname
    rcases List.mem_append.mp hname with hname | hname
    · exact hp name hname
    · exact hq name hname
  · exact hq

/-- So can what ordinary names lead to. -/
theorem Proper.descend {p : Path} {names : List String} (hp : p.Proper)
    (hnames : ∀ name ∈ names, IsOrdinary name) : (p.descend names).Proper := by
  intro name hname
  rcases List.mem_append.mp hname with hname | hname
  · exact hp name hname
  · obtain ⟨hslash, hempty, hdot, -⟩ := hnames name hname
    exact ⟨hslash, hempty, hdot⟩

/-- An ordinary name spells the path of that name. -/
theorem ofString_of_isOrdinary {s : String} (h : IsOrdinary s) :
    ofString s = { root := .workingFolder, names := [s] } := by
  obtain ⟨hslash, hempty, hdot, -⟩ := h
  have hrun : s.toList.takeWhile (· == '/') = [] := by
    cases hs : s.toList with
    | nil => rfl
    | cons c cs =>
      have hc : c ≠ '/' := by
        rintro rfl
        simp [hs] at hslash
      rw [List.takeWhile_cons_of_neg (by simpa using hc)]
  simp [ofString, Root.ofChars, hrun, Text.cutAt_of_not_mem hslash, hempty, hdot]

/-! ## Suffixes -/

/-- A name is its stem and its suffix. -/
theorem splitSuffix_append (name : String) :
    (splitSuffix name).1 ++ (splitSuffix name).2 = name := by
  unfold splitSuffix
  simp only
  split
  · rename_i h
    obtain ⟨hlt, -, -⟩ := h
    have hwhole : name.toList.reverse.takeWhile (· != '.') ++
        name.toList.reverse.dropWhile (· != '.') = name.toList.reverse :=
      List.takeWhile_append_dropWhile
    cases hdrop : name.toList.reverse.dropWhile (· != '.') with
    | nil =>
      have hlength := congrArg List.length hwhole
      rw [hdrop] at hlength
      simp only [List.append_nil, List.length_reverse] at hlength hlt
      omega
    | cons c front =>
      obtain rfl : c = '.' := by
        have hne : name.toList.reverse.dropWhile (· != '.') ≠ [] := by simp [hdrop]
        have hhead := List.head_dropWhile_not (· != '.') hne
        simpa [hdrop] using hhead
      rw [hdrop] at hwhole
      have hname := congrArg List.reverse hwhole
      rw [List.reverse_append, List.reverse_reverse, List.reverse_cons] at hname
      apply String.toList_injective
      rw [String.toList_append, String.toList_ofList, String.toList_ofList, List.reverse_cons,
        List.dropLast_concat]
      simpa using hname
  · exact String.append_empty

/-- A name that is not empty has a stem. -/
theorem stem_ne_empty {name : String} (h : name ≠ "") : (splitSuffix name).1 ≠ "" := by
  unfold splitSuffix
  simp only
  split
  · rename_i hsplit
    intro hempty
    have htext := congrArg String.toList hempty
    rw [String.toList_ofList] at htext
    exact hsplit.2.1 htext
  · exact h

/-- The suffix of a script, which is not empty. -/
def IsTarget (suffix : String) : Prop :=
  isSuffix suffix = true ∧ suffix ≠ ""

instance (suffix : String) : Decidable (IsTarget suffix) :=
  inferInstanceAs (Decidable (_ ∧ _))

/-- A stem with the suffix of a script is an ordinary name: it is too long to be made of dots. -/
theorem isOrdinary_stem_append {name target : String} (hslash : '/' ∉ name.toList)
    (hname : name ≠ "") (htarget : IsTarget target) :
    IsOrdinary ((splitSuffix name).1 ++ target) := by
  obtain ⟨hsuffix, hempty⟩ := htarget
  simp only [isSuffix, Bool.and_eq_true, Bool.or_eq_true, Bool.not_eq_true', List.isEmpty_iff,
    bne_iff_ne, List.contains_eq_mem, decide_eq_false_iff_not] at hsuffix
  obtain ⟨hfree, hnil | ⟨-, hone⟩⟩ := hsuffix
  · exact absurd (String.toList_eq_nil_iff.mp hnil) hempty
  · have hstem : (splitSuffix name).1.toList.length ≠ 0 := by
      rw [Ne, List.length_eq_zero_iff, String.toList_eq_nil_iff]
      exact stem_ne_empty hname
    have htail : target.toList.length ≠ 0 := by
      rw [Ne, List.length_eq_zero_iff, String.toList_eq_nil_iff]
      exact hempty
    have hlong : 3 ≤ ((splitSuffix name).1 ++ target).toList.length := by
      rw [String.toList_append, List.length_append]
      omega
    refine ⟨?_, ?_, ?_, ?_⟩
    · rw [String.toList_append, List.mem_append, not_or]
      refine ⟨fun hmem => hslash ?_, hfree⟩
      rw [← splitSuffix_append name, String.toList_append]
      exact List.mem_append_left _ hmem
    all_goals
      intro heq
      rw [heq] at hlong
      exact absurd hlong (by decide)

/-! ## Scripts -/

/-- The output of a path that can be spelled can be spelled. -/
theorem Proper.output {p out : Path} {outDir target : String} (h : p.Proper)
    (hout : p.output outDir target = .ok out) : out.Proper := by
  unfold Path.output at hout
  cases hname : p.nameWithSuffix target with
  | error e =>
    rw [hname] at hout
    cases hout
  | ok name =>
    rw [hname] at hout
    cases hout
    exact (h.parent.join (proper_ofString outDir)).join (proper_ofString name)

/-- The script of a source is named like it, in a folder of the given name beside it. -/
theorem output_eq {p : Path} {folder : List String} {name outDir target : String} (hp : p.Proper)
    (hnames : p.names = folder ++ [name]) (hout : IsOrdinary outDir) (htarget : IsTarget target) :
    p.output outDir target =
      .ok { p with names := folder ++ [outDir, (splitSuffix name).1 ++ target] } := by
  obtain ⟨hslash, hname, -⟩ := hp name (by simp [hnames])
  have hlast : p.name = name := by simp [Path.name, hnames]
  have hparent : p.parent = { p with names := folder } := by simp [Path.parent, hnames]
  have hsuffix : p.nameWithSuffix target = .ok ((splitSuffix name).1 ++ target) := by
    simp [nameWithSuffix, htarget.1, hlast, hname]
  unfold Path.output
  rw [hsuffix, hparent, ofString_of_isOrdinary hout]
  change Except.ok (Path.join _ (ofString ((splitSuffix name).1 ++ target))) = _
  rw [ofString_of_isOrdinary (isOrdinary_stem_append hslash hname htarget)]
  simp [Path.join]

/-- Only a proper suffix gives a script. -/
theorem isSuffix_of_output {p out : Path} {outDir extension : String}
    (h : p.output outDir extension = .ok out) : isSuffix extension = true := by
  by_contra hnot
  have hbad : p.nameWithSuffix extension = .error (.invalidSuffix extension) := by
    simp [nameWithSuffix, hnot]
  rw [output, hbad] at h
  cases h

end Path

end LispScript
