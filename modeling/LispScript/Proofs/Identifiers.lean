import LispScript.Identifier
import LispScript.Proofs.Lexeme

/-!
# Identifiers of words

Every word gets an identifier that the script accepts, and different variables get different
identifiers. What is spelled out in an identifier is a character that is no capital with capitals
behind it. Variables are written without capitals, so an identifier falls apart into its spellings
before each character that is no capital, and only the name of a predicate has a capital behind its
first two letters.
-/

namespace LispScript.Identifier

/-- The characters of words that identifiers cannot hold. -/
def spelledOut : List Char := replacements.map Prod.fst

/-- The characters an identifier can start with. -/
def isStart (c : Char) : Bool :=
  c.isAlpha || c == '_'

/-- The characters an identifier can go on with. Points stand between its parts. -/
def isPart (c : Char) : Bool :=
  c.isAlphanum || c == '_' || c == '.'

/-- A text that is an identifier of the script, with points in it or without. -/
def isDotted : List Char → Bool
  | [] => false
  | c :: cs => isStart c && cs.all isPart

/-- A word that starts with a small letter and has no capitals. -/
def isVariable (cs : List Char) : Bool :=
  isWord cs && startsWith Char.isLower cs && cs.all (!Char.isUpper ·)

/-! ## Replacements one after the other -/

/-- What becomes of a character if only the first replacement that fits it is made. -/
def firstReplacement (rs : List (Char × List Char)) (c : Char) : List Char :=
  (rs.lookup c).getD [c]

/-- A character that none of the replacements fits stays as it is. -/
theorem firstReplacement_of_not_mem {rs : List (Char × List Char)} {c : Char}
    (h : c ∉ rs.map Prod.fst) : firstReplacement rs c = [c] := by
  have hnone : rs.lookup c = none := by
    rw [List.lookup_eq_none_iff]
    intro r hr
    simpa using fun hc : c = r.1 => h (hc ▸ List.mem_map_of_mem hr)
  rw [firstReplacement, hnone, Option.getD_none]

/-- Replacements all over the text, one after the other, come to a single pass over it if none of
them brings in a character that a later one replaces. -/
theorem foldl_replaceAll {rs : List (Char × List Char)}
    (h : rs.Pairwise fun r later => later.1 ∉ r.2) (cs : List Char) :
    rs.foldl (fun cs r => replaceAll r.1 r.2 cs) cs = cs.flatMap (firstReplacement rs) := by
  induction rs generalizing cs with
  | nil => exact (List.flatMap_singleton' cs).symm
  | cons r rs ih =>
    obtain ⟨hr, hrs⟩ := List.pairwise_cons.mp h
    rw [List.foldl_cons, ih hrs, replaceAll, List.flatMap_assoc]
    refine List.flatMap_congr fun c _ => ?_
    by_cases hc : c = r.1
    · -- The later replacements leave alone what the first one has brought in.
      have hkept : r.2.flatMap (firstReplacement rs) = r.2.flatMap ([·]) := by
        refine List.flatMap_congr fun d hd => firstReplacement_of_not_mem fun hmem => ?_
        obtain ⟨later, hlater, rfl⟩ := List.mem_map.mp hmem
        exact hr later hlater hd
      have hfits : (c == r.1) = true := beq_iff_eq.mpr hc
      rw [if_pos hc, hkept, List.flatMap_singleton', firstReplacement, List.lookup_cons, hfits]
      rfl
    · have hfits : (c == r.1) = false := beq_eq_false_iff_ne.mpr hc
      rw [if_neg hc, List.flatMap_singleton, firstReplacement, firstReplacement, List.lookup_cons,
        hfits]

/-! ## Spellings -/

/-- What stands in an identifier for a character of a word. -/
def spelling (c : Char) : List Char :=
  firstReplacement replacements c

/-- The identifier of a word is found in one pass: each character of the name is spelled on its
own, because no replacement brings in a character that is replaced after it. -/
theorem toList_mangle (name : String) :
    (mangle name).toList = (predicateName name).toList.flatMap spelling := by
  have hapart : replacements.Pairwise fun r later => later.1 ∉ r.2 := by decide
  rw [mangle, String.toList_ofList]
  exact foldl_replaceAll hapart _

/-- A character that identifiers can hold is spelled as it is. -/
theorem spelling_of_not_mem {c : Char} (h : c ∉ spelledOut) : spelling c = [c] :=
  firstReplacement_of_not_mem h

/-- A property of spellings holds for all if it does for those that are not the character itself,
and for the characters that are not spelled out. -/
theorem spelling_induction {motive : Char → List Char → Prop}
    (spelled : ∀ c ∈ spelledOut, motive c (spelling c)) (same : ∀ c ∉ spelledOut, motive c [c])
    (c : Char) : motive c (spelling c) := by
  by_cases hc : c ∈ spelledOut
  · exact spelled c hc
  · rw [spelling_of_not_mem hc]
    exact same c hc

/-- No spelling holds a character that would have to be spelled out. -/
theorem not_mem_of_mem_spelling (c : Char) : ∀ d ∈ spelling c, d ∉ spelledOut := by
  induction c using spelling_induction with
  | spelled c hc =>
    have hall : spelledOut.all (fun c => (spelling c).all (· ∉ spelledOut)) = true := by decide
    simpa using List.all_eq_true.mp hall c hc
  | same c hc => simpa using hc

/-- No identifier does. -/
theorem not_mem_of_mem_mangle {name : String} {c : Char} (h : c ∈ (mangle name).toList) :
    c ∉ spelledOut := by
  rw [toList_mangle, List.mem_flatMap] at h
  obtain ⟨d, -, hc⟩ := h
  exact not_mem_of_mem_spelling d c hc

/-- A name without anything to spell out is its own identifier. -/
theorem mangle_of_not_mem {name : String} (h : ∀ c ∈ name.toList, c ∉ spelledOut) :
    mangle name = name := by
  have hquestion : name.toList.getLast? ≠ some '?' := by
    intro hlast
    exact h '?' (List.mem_of_getLast? hlast) (by decide)
  have hname : predicateName name = name := if_neg hquestion
  have hspelling : name.toList.flatMap spelling = name.toList.flatMap ([·]) :=
    List.flatMap_congr fun c hc => spelling_of_not_mem (h c hc)
  apply String.toList_injective
  rw [toList_mangle, hname, hspelling, List.flatMap_singleton']

/-! ## Words become identifiers -/

/-- The upper-case form of a character of words consists of such characters. -/
theorem all_upperCase {c : Char} (h : isWordChar c = true) :
    (Text.upperCase c).toList.all isWordChar = true := by
  have hascii : ∀ n ∈ List.range' 33 94, isWordChar (Char.ofNat n) = true →
      ((Text.upperCodePoints n).map Char.ofNat).all isWordChar = true := by decide +kernel
  obtain ⟨hlow, hhigh⟩ := visible_of_isWordChar h
  have hmem : c.toNat ∈ List.range' 33 94 := by
    rw [List.mem_range'_1]
    omega
  rw [Text.upperCase, String.toList_ofList]
  exact hascii c.toNat hmem (by rwa [Char.ofNat_toNat])

/-- Capitalizing keeps to the characters of words. -/
theorem all_capitalize {s : String} (h : s.toList.all isWordChar = true) :
    (capitalize s).toList.all isWordChar = true := by
  unfold capitalize
  cases hs : s.toList with
  | nil => rfl
  | cons c cs =>
    rw [hs, List.all_cons, Bool.and_eq_true] at h
    simp only [String.toList_append, String.toList_ofList, List.all_append, Bool.and_eq_true]
    exact ⟨all_upperCase h.1, h.2⟩

/-- The name of a predicate consists of characters of words if the question does. -/
theorem all_predicateName {name : String} (h : name.toList.all isWordChar = true) :
    (predicateName name).toList.all isWordChar = true := by
  unfold predicateName
  simp only
  split
  · have hfront : (String.ofList name.toList.dropLast).toList.all isWordChar = true := by
      rw [String.toList_ofList, List.all_eq_true] at *
      exact fun c hc => h c (List.mem_of_mem_dropLast hc)
    simp only [String.toList_append, List.all_append, Bool.and_eq_true]
    exact ⟨by decide, all_capitalize hfront⟩
  · exact h

/-- A question that is a word becomes a word. -/
theorem isWord_predicateName {name : String} (h : isWord name.toList = true) :
    isWord (predicateName name).toList = true := by
  have hchars := all_predicateName (all_isWordChar_of_isWord h)
  by_cases hquestion : name.toList.getLast? = some '?'
  · have hname : predicateName name = "is" ++ capitalize (String.ofList name.toList.dropLast) :=
      if_pos hquestion
    rw [hname] at hchars ⊢
    rw [String.toList_append] at hchars ⊢
    simp only [show "is".toList = ['i', 's'] from rfl, List.cons_append, List.all_cons,
      Bool.and_eq_true] at hchars
    simpa only [show "is".toList = ['i', 's'] from rfl, List.cons_append, isWord, List.all_cons,
      Bool.and_eq_true] using ⟨by decide, hchars.2⟩
  · have hname : predicateName name = name := if_neg hquestion
    rwa [hname]

/-- A character of words is spelled with characters of identifiers, and one that can start a word
with one that can start an identifier. -/
theorem all_isPart_spelling {c : Char} (h : isWordChar c = true) :
    (spelling c).all isPart = true := by
  induction c using spelling_induction with
  | spelled c hc =>
    have hall : spelledOut.all (fun c => (spelling c).all isPart) = true := by decide
    exact List.all_eq_true.mp hall c hc
  | same c hc =>
    simp only [isWordChar, isWordStart, Bool.or_eq_true, beq_iff_eq] at h
    simp only [spelledOut, replacements, List.map_cons, List.map_nil, List.mem_cons,
      List.not_mem_nil, or_false, not_or] at hc
    simp only [List.all_cons, List.all_nil, Bool.and_true, isPart, Char.isAlphanum,
      Bool.or_eq_true, beq_iff_eq]
    tauto

/-- What a word can start with is spelled as something that an identifier can start with. -/
theorem isDotted_spelling {c : Char} (h : isWordStart c = true) :
    isDotted (spelling c) = true := by
  induction c using spelling_induction with
  | spelled c hc =>
    have hall : spelledOut.all (fun c => isDotted (spelling c)) = true := by decide
    exact List.all_eq_true.mp hall c hc
  | same c hc =>
    simp only [isWordStart, Bool.or_eq_true, beq_iff_eq] at h
    simp only [spelledOut, replacements, List.map_cons, List.map_nil, List.mem_cons,
      List.not_mem_nil, or_false, not_or] at hc
    simp only [isDotted, List.all_nil, Bool.and_true, isStart, Bool.or_eq_true, beq_iff_eq]
    tauto

/-- An identifier can go on with any further parts. -/
theorem isDotted_append {cs ds : List Char} (hcs : isDotted cs = true)
    (hds : ds.all isPart = true) : isDotted (cs ++ ds) = true := by
  cases cs with
  | nil => cases hcs
  | cons c cs =>
    simp only [isDotted, Bool.and_eq_true] at hcs
    simp only [List.cons_append, isDotted, List.all_append, hcs.1, hcs.2, hds, Bool.and_self]

/-- The identifier of a word is one that the script accepts. -/
theorem isDotted_mangle {name : String} (h : isWord name.toList = true) :
    isDotted (mangle name).toList = true := by
  have hword := isWord_predicateName h
  rw [toList_mangle]
  cases hname : (predicateName name).toList with
  | nil => simp [hname, isWord] at hword
  | cons c cs =>
    simp only [hname, isWord, Bool.and_eq_true, List.all_eq_true] at hword
    rw [List.flatMap_cons]
    apply isDotted_append (isDotted_spelling hword.1)
    rw [List.all_flatMap, List.all_eq_true]
    exact fun d hd => all_isPart_spelling (hword.2 d hd)

/-- All characters of an identifier are ones that it can go on with. -/
theorem all_isPart_of_isDotted {cs : List Char} (h : isDotted cs = true) :
    cs.all isPart = true := by
  cases cs with
  | nil => cases h
  | cons c cs =>
    simp only [isDotted, isStart, Bool.and_eq_true, Bool.or_eq_true] at h
    simp only [List.all_cons, isPart, Char.isAlphanum, Bool.and_eq_true, Bool.or_eq_true]
    tauto

/-! ## Different variables stay different -/

/-- A character of variables: one of words that is no capital. -/
def isSmall (c : Char) : Bool :=
  isWordChar c && !c.isUpper

/-- One character that is no capital, and capitals behind it. -/
def isSpelling : List Char → Bool
  | [] => false
  | c :: cs => !c.isUpper && cs.all Char.isUpper

/-- The spelling of a small character is one character that is no capital, and capitals. -/
theorem isSpelling_spelling {c : Char} (h : isSmall c = true) : isSpelling (spelling c) = true := by
  induction c using spelling_induction with
  | spelled c hc =>
    have hall : spelledOut.all (fun c => isSpelling (spelling c)) = true := by decide
    exact List.all_eq_true.mp hall c hc
  | same c hc =>
    simp only [isSmall, Bool.and_eq_true] at h
    simp only [isSpelling, h.2, List.all_nil, Bool.and_self]

/-- What is spelled out begins with an underscore. -/
theorem startsWith_of_spelledOut {c : Char} (h : c ∈ spelledOut) :
    startsWith (· == '_') (spelling c) = true := by
  have hall : spelledOut.all (startsWith (· == '_') <| spelling ·) = true := by decide
  exact List.all_eq_true.mp hall c h

/-- Small characters with the same spelling are the same. -/
theorem spelling_injective {c d : Char} (hc : isSmall c = true) (hd : isSmall d = true)
    (h : spelling c = spelling d) : c = d := by
  have hne : ∀ c ∈ spelledOut, ∀ d, isSmall d = true → spelling c ≠ [d] := by
    intro c hc d hd hspelling
    have hstart := startsWith_of_spelledOut hc
    rw [hspelling] at hstart
    obtain rfl := beq_iff_eq.mp hstart
    exact absurd hd (by decide)
  have hspelled : ∀ c ∈ spelledOut, ∀ d ∈ spelledOut, spelling c = spelling d → c = d := by
    have hnodup : (spelledOut.map spelling).Nodup := by decide
    exact List.inj_on_of_nodup_map hnodup
  by_cases hc' : c ∈ spelledOut <;> by_cases hd' : d ∈ spelledOut
  · exact hspelled c hc' d hd' h
  · rw [spelling_of_not_mem hd'] at h
    exact absurd h (hne c hc' d hd)
  · rw [spelling_of_not_mem hc'] at h
    exact absurd h.symm (hne d hd' c hc)
  · rw [spelling_of_not_mem hc', spelling_of_not_mem hd'] at h
    exact List.singleton_inj.mp h

/-- A text of spellings does not start with a capital. -/
theorem startsWith_flatMap_spelling {cs : List Char} (h : cs.all isSmall = true) :
    startsWith Char.isUpper (cs.flatMap spelling) = false := by
  cases cs with
  | nil => rfl
  | cons c cs =>
    simp only [List.all_cons, Bool.and_eq_true] at h
    have hspelling := isSpelling_spelling h.1
    rw [List.flatMap_cons]
    cases hc : spelling c with
    | nil => simp [hc, isSpelling] at hspelling
    | cons first capitals =>
      simp only [hc, isSpelling, Bool.and_eq_true, Bool.not_eq_true'] at hspelling
      exact hspelling.1

/-- A spelling ends where the next character that is no capital begins. -/
theorem eq_of_spelling_append {u v u' v' : List Char} (hu : isSpelling u = true)
    (hu' : isSpelling u' = true) (hv : startsWith Char.isUpper v = false)
    (hv' : startsWith Char.isUpper v' = false) (h : u ++ v = u' ++ v') : u = u' ∧ v = v' := by
  cases u with
  | nil => cases hu
  | cons c capitals =>
    cases u' with
    | nil => cases hu'
    | cons c' capitals' =>
      simp only [isSpelling, Bool.and_eq_true] at hu hu'
      simp only [List.cons_append, List.cons.injEq] at h
      have hcapitals := congrArg (List.takeWhile Char.isUpper) h.2
      have hrest := congrArg (List.dropWhile Char.isUpper) h.2
      rw [takeWhile_append_stop hu.2 hv, takeWhile_append_stop hu'.2 hv'] at hcapitals
      rw [dropWhile_append_stop hu.2 hv, dropWhile_append_stop hu'.2 hv'] at hrest
      exact ⟨by rw [h.1, hcapitals], hrest⟩

/-- Texts without capitals that are spelled alike are the same. -/
theorem flatMap_spelling_injective {cs ds : List Char} (hcs : cs.all isSmall = true)
    (hds : ds.all isSmall = true) (h : cs.flatMap spelling = ds.flatMap spelling) : cs = ds := by
  induction cs generalizing ds with
  | nil =>
    cases ds with
    | nil => rfl
    | cons d ds =>
      simp only [List.all_cons, Bool.and_eq_true] at hds
      have hspelling := isSpelling_spelling hds.1
      obtain ⟨hd, -⟩ : spelling d = [] ∧ _ := by simpa using h.symm
      rw [hd] at hspelling
      cases hspelling
  | cons c cs ih =>
    simp only [List.all_cons, Bool.and_eq_true] at hcs
    cases ds with
    | nil =>
      have hspelling := isSpelling_spelling hcs.1
      obtain ⟨hc, -⟩ : spelling c = [] ∧ _ := by simpa using h
      rw [hc] at hspelling
      cases hspelling
    | cons d ds =>
      simp only [List.all_cons, Bool.and_eq_true] at hds
      rw [List.flatMap_cons, List.flatMap_cons] at h
      obtain ⟨hfirst, hrest⟩ := eq_of_spelling_append (isSpelling_spelling hcs.1)
        (isSpelling_spelling hds.1) (startsWith_flatMap_spelling hcs.2)
        (startsWith_flatMap_spelling hds.2) h
      rw [spelling_injective hcs.1 hds.1 hfirst, ih hcs.2 hds.2 hrest]

/-- All characters of a variable are small. -/
theorem all_isSmall_of_isVariable {cs : List Char} (h : isVariable cs = true) :
    cs.all isSmall = true := by
  simp only [isVariable, Bool.and_eq_true] at h
  have hchars := List.all_eq_true.mp (all_isWordChar_of_isWord h.1.1)
  rw [List.all_eq_true]
  intro c hc
  simpa [isSmall, hchars c hc] using List.all_eq_true.mp h.2 c hc

/-- The capital of a small letter. -/
theorem upperCase_of_isLower {c : Char} (h : c.isLower = true) :
    (Text.upperCase c).toList = [c.toUpper] ∧ c.toUpper.isUpper = true ∧
      c.toUpper.toNat + 32 = c.toNat := by
  have hletters : ∀ n ∈ List.range' 97 26,
      (Text.upperCodePoints n).map Char.ofNat = [(Char.ofNat n).toUpper] ∧
        (Char.ofNat n).toUpper.isUpper = true ∧ (Char.ofNat n).toUpper.toNat + 32 = n := by
    decide +kernel
  have hmem : c.toNat ∈ List.range' 97 26 := by
    simp only [Char.isLower, Bool.and_eq_true, decide_eq_true_eq, ge_iff_le,
      UInt32.le_iff_toNat_le, Char.toNat_val] at h
    rw [List.mem_range'_1]
    exact ⟨h.1, Nat.lt_succ_of_le h.2⟩
  obtain ⟨hcapital, hupper, hcode⟩ := hletters c.toNat hmem
  rw [Char.ofNat_toNat] at hcapital hupper hcode
  refine ⟨?_, hupper, hcode⟩
  rw [Text.upperCase, String.toList_ofList, hcapital]

/-- A variable that asks a question has a small letter before the question mark. -/
theorem exists_of_question {cs : List Char} (h : isVariable cs = true)
    (hquestion : cs.getLast? = some '?') :
    ∃ c front, cs = c :: (front ++ ['?']) ∧ c.isLower = true ∧ front.all isSmall = true := by
  obtain ⟨front, rfl⟩ := List.getLast?_eq_some_iff.mp hquestion
  have hsmall := all_isSmall_of_isVariable h
  simp only [isVariable, Bool.and_eq_true] at h
  cases front with
  | nil => exact absurd h.1.2 (by decide)
  | cons c front =>
    simp only [List.cons_append, List.all_cons, List.all_append, Bool.and_eq_true] at hsmall
    exact ⟨c, front, rfl, h.1.2, hsmall.2.1⟩

/-- A question becomes a predicate: a capital stands behind its first two letters. -/
theorem toList_mangle_question {name : String} {c : Char} {front : List Char}
    (hname : name.toList = c :: (front ++ ['?'])) (hc : c.isLower = true) :
    (mangle name).toList = 'i' :: 's' :: c.toUpper :: front.flatMap spelling := by
  obtain ⟨hcapital, hupper, -⟩ := upperCase_of_isLower hc
  have hpredicate : (predicateName name).toList = 'i' :: 's' :: c.toUpper :: front := by
    have hlast : name.toList.getLast? = some '?' := by
      rw [hname, ← List.cons_append, List.getLast?_concat]
    have hfront : name.toList.dropLast = c :: front := by
      rw [hname, ← List.cons_append, List.dropLast_concat]
    have hquestion : predicateName name = "is" ++ capitalize (String.ofList name.toList.dropLast) :=
      if_pos hlast
    rw [hquestion, hfront, String.toList_append, capitalize, String.toList_ofList]
    simp only [String.toList_append, hcapital, String.toList_ofList]
    rfl
  have hspelling : spelling c.toUpper = [c.toUpper] := by
    apply spelling_of_not_mem
    intro hmem
    have hnone : spelledOut.all (!Char.isUpper ·) = true := by decide
    simp [eq_false_of_all_not hnone _ hmem] at hupper
  rw [toList_mangle, hpredicate]
  simp only [List.flatMap_cons, hspelling]
  rfl

/-- A letter in front of a text of spellings is spelled as it is. -/
theorem eq_cons_of_flatMap_spelling {cs more : List Char} {c : Char} (hc : c ≠ '_')
    (h : cs.flatMap spelling = c :: more) : ∃ ds, cs = c :: ds ∧ ds.flatMap spelling = more := by
  cases cs with
  | nil => cases h
  | cons d ds =>
    rw [List.flatMap_cons] at h
    by_cases hd : d ∈ spelledOut
    · have hstart := startsWith_of_spelledOut hd
      cases hspelling : spelling d with
      | nil => simp [hspelling, startsWith] at hstart
      | cons first capitals =>
        rw [hspelling] at h hstart
        obtain ⟨rfl, -⟩ := List.cons.inj h
        exact absurd (beq_iff_eq.mp hstart) hc
    · rw [spelling_of_not_mem hd] at h
      obtain ⟨rfl, hmore⟩ := List.cons.inj h
      exact ⟨ds, rfl, hmore⟩

/-- In the identifier of a plain variable no capital stands there. -/
theorem flatMap_spelling_ne {cs rest : List Char} {u : Char} (h : isVariable cs = true)
    (hu : u.isUpper = true) : cs.flatMap spelling ≠ 'i' :: 's' :: u :: rest := by
  intro hidentifier
  obtain ⟨cs, rfl, hmore⟩ := eq_cons_of_flatMap_spelling (by decide) hidentifier
  obtain ⟨cs, rfl, hrest⟩ := eq_cons_of_flatMap_spelling (by decide) hmore
  have hsmall := all_isSmall_of_isVariable h
  simp only [List.all_cons, Bool.and_eq_true] at hsmall
  have hstart := startsWith_flatMap_spelling hsmall.2.2
  rw [hrest, startsWith, hu] at hstart
  cases hstart

/-- Different variables have different identifiers. -/
theorem mangle_injective {a b : String} (ha : isVariable a.toList = true)
    (hb : isVariable b.toList = true) (h : mangle a = mangle b) : a = b := by
  apply String.toList_injective
  have hplain : ∀ {name : String}, name.toList.getLast? ≠ some '?' →
      (mangle name).toList = name.toList.flatMap spelling := by
    intro name hname
    rw [toList_mangle, show predicateName name = name from if_neg hname]
  have hidentifier := congrArg String.toList h
  by_cases hqa : a.toList.getLast? = some '?' <;> by_cases hqb : b.toList.getLast? = some '?'
  · obtain ⟨c, front, hacs, hc, hfront⟩ := exists_of_question ha hqa
    obtain ⟨d, back, hbcs, hd, hback⟩ := exists_of_question hb hqb
    rw [toList_mangle_question hacs hc, toList_mangle_question hbcs hd] at hidentifier
    simp only [List.cons.injEq, true_and] at hidentifier
    have hcode := (upperCase_of_isLower hc).2.2
    rw [hidentifier.1, (upperCase_of_isLower hd).2.2] at hcode
    rw [hacs, hbcs, Char.toNat_inj.mp hcode, flatMap_spelling_injective hfront hback hidentifier.2]
  · obtain ⟨c, front, hacs, hc, -⟩ := exists_of_question ha hqa
    rw [toList_mangle_question hacs hc, hplain hqb] at hidentifier
    exact absurd hidentifier.symm (flatMap_spelling_ne hb (upperCase_of_isLower hc).2.1)
  · obtain ⟨d, back, hbcs, hd, -⟩ := exists_of_question hb hqb
    rw [toList_mangle_question hbcs hd, hplain hqa] at hidentifier
    exact absurd hidentifier (flatMap_spelling_ne ha (upperCase_of_isLower hd).2.1)
  · rw [hplain hqa, hplain hqb] at hidentifier
    exact flatMap_spelling_injective (all_isSmall_of_isVariable ha) (all_isSmall_of_isVariable hb)
      hidentifier

/-- Identifiers have nothing left to spell out, so they are their own identifiers. Every word gets
one that the script accepts, and variables share one only if they are the same. -/
theorem mangle_keeps_variables_apart :
    (∀ name : String, ∀ c ∈ ['-', '<', '>', '?', '!'], c ∉ (mangle name).toList) ∧
    (∀ name : String, mangle (mangle name) = mangle name) ∧
    (∀ name : String, isWord name.toList = true → isDotted (mangle name).toList = true) ∧
    ∀ a b : String, isVariable a.toList = true → isVariable b.toList = true →
      (mangle a = mangle b ↔ a = b) := by
  refine ⟨?_, ?_, fun name => isDotted_mangle, ?_⟩
  · intro name c hc hmem
    exact not_mem_of_mem_mangle hmem hc
  · intro name
    apply mangle_of_not_mem
    exact fun c => not_mem_of_mem_mangle
  · intro a b ha hb
    refine ⟨mangle_injective ha hb, ?_⟩
    rintro rfl
    rfl

/-- Signs at either end and inside of a word, and a predicate beside the plain name that comes
closest to it. -/
theorem mangle_keeps_variables_apart_question :
    isDotted (mangle "!x.y->z?1").toList = true ∧ mangle "a-b?" ≠ mangle "is-a-b" := by
  obtain ⟨-, -, hdotted, hapart⟩ := mangle_keeps_variables_apart
  refine ⟨hdotted _ (by decide), ?_⟩
  rw [Ne, hapart _ _ (by decide) (by decide)]
  decide

end LispScript.Identifier
