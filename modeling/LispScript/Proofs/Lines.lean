import LispScript.Script.Layout

/-!
# Lines of a text

Cutting a text at a separator is undone by putting the separator between the pieces, and a text that
is put together at a separator is cut into the pieces of its two sides. Code that does not end in an
empty line is moved to the right as a whole: each of its lines gets a tab and a newline, and nothing
else is changed.
-/

namespace LispScript

namespace Text

variable {sep : Char}

/-- Cutting leaves at least one piece. -/
theorem cutAt_ne_nil (sep : Char) (cs : List Char) : cutAt sep cs ≠ [] := by
  cases cs with
  | nil => simp [cutAt]
  | cons c cs =>
    rw [cutAt]
    split
    · simp
    · split <;> simp

/-- A text without the separator is one piece. -/
theorem cutAt_of_not_mem {cs : List Char} (h : sep ∉ cs) : cutAt sep cs = [cs] := by
  induction cs with
  | nil => rfl
  | cons c cs ih =>
    rw [List.mem_cons, not_or] at h
    rw [cutAt, if_neg (Ne.symm h.1), ih h.2]

/-- At a separator a text falls apart into the pieces of its two sides. -/
theorem cutAt_append_sep (front back : List Char) :
    cutAt sep (front ++ sep :: back) = cutAt sep front ++ cutAt sep back := by
  induction front with
  | nil => simp [cutAt]
  | cons c front ih =>
    by_cases hc : c = sep
    · simp [cutAt, hc, ih]
    · cases hfront : cutAt sep front with
      | nil => exact absurd hfront (cutAt_ne_nil sep front)
      | cons piece pieces => simp [cutAt, hc, ih, hfront]

/-- No piece holds the separator. -/
theorem not_mem_of_mem_cutAt {cs piece : List Char} (h : piece ∈ cutAt sep cs) : sep ∉ piece := by
  induction cs generalizing piece with
  | nil => simp_all [cutAt]
  | cons c cs ih =>
    rw [cutAt] at h
    split at h
    · rcases List.mem_cons.mp h with rfl | h
      · exact List.not_mem_nil
      · exact ih h
    · rename_i hc
      cases hcut : cutAt sep cs with
      | nil => exact absurd hcut (cutAt_ne_nil sep cs)
      | cons first rest =>
        rw [hcut] at h ih
        rcases List.mem_cons.mp h with rfl | h
        · have hfirst := ih List.mem_cons_self
          simp [Ne.symm hc, hfirst]
        · exact ih (List.mem_cons_of_mem _ h)

/-- Pieces that end in the separator are found again, and then those of the rest. -/
theorem cutAt_flatMap {pieces : List (List Char)} (h : ∀ piece ∈ pieces, sep ∉ piece)
    (rest : List Char) :
    cutAt sep (pieces.flatMap (· ++ [sep]) ++ rest) = pieces ++ cutAt sep rest := by
  induction pieces with
  | nil => rfl
  | cons piece pieces ih =>
    rw [List.forall_mem_cons] at h
    have hshape : (piece :: pieces).flatMap (· ++ [sep]) ++ rest =
        piece ++ sep :: (pieces.flatMap (· ++ [sep]) ++ rest) := by simp
    rw [hshape, cutAt_append_sep, cutAt_of_not_mem h.1, ih h.2]
    rfl

/-- A text without the separator in front is part of the first piece. -/
theorem cutAt_append_of_not_mem {front cs first : List Char} {rest : List (List Char)}
    (hfront : sep ∉ front) (hcs : cutAt sep cs = first :: rest) :
    cutAt sep (front ++ cs) = (front ++ first) :: rest := by
  induction front with
  | nil => exact hcs
  | cons c front ih =>
    rw [List.mem_cons, not_or] at hfront
    rw [List.cons_append, cutAt, if_neg (Ne.symm hfront.1), ih hfront.2]
    rfl

/-- The last piece of a text is what stands behind the last separator. -/
theorem exists_of_cutAt_concat {cs last : List Char} {front : List (List Char)}
    (h : cutAt sep cs = front ++ [last]) :
    sep ∉ last ∧ (front = [] ∧ cs = last ∨
      ∃ before, front = cutAt sep before ∧ cs = before ++ sep :: last) := by
  have hlast : sep ∉ last := not_mem_of_mem_cutAt (h ▸ List.mem_concat_self)
  refine ⟨hlast, ?_⟩
  by_cases hmem : sep ∈ cs
  · obtain ⟨back, before, hcs, hback⟩ := List.eq_append_cons_of_mem (List.mem_reverse.mpr hmem)
    obtain rfl : cs = before.reverse ++ sep :: back.reverse := by
      simpa using congrArg List.reverse hcs
    rw [← List.mem_reverse] at hback
    rw [cutAt_append_sep, cutAt_of_not_mem hback] at h
    obtain ⟨hfront, hlast⟩ := List.append_inj' h rfl
    exact Or.inr ⟨before.reverse, hfront.symm, by rw [(List.cons.inj hlast).1]⟩
  · rw [cutAt_of_not_mem hmem, ← List.nil_append [cs]] at h
    obtain ⟨hfront, hlast⟩ := List.append_inj' h rfl
    exact Or.inl ⟨hfront.symm, (List.cons.inj hlast).1⟩

/-- Where two texts meet, the last piece of the first and the first piece of the second become
one. -/
theorem cutAt_append {cs ds last first : List Char} {front back : List (List Char)}
    (hcs : cutAt sep cs = front ++ [last]) (hds : cutAt sep ds = first :: back) :
    cutAt sep (cs ++ ds) = front ++ (last ++ first) :: back := by
  obtain ⟨hlast, ⟨rfl, rfl⟩ | ⟨before, rfl, rfl⟩⟩ := exists_of_cutAt_concat hcs
  · exact cutAt_append_of_not_mem hlast hds
  · rw [List.append_assoc, List.cons_append, cutAt_append_sep, cutAt_append_of_not_mem hlast hds]

/-- There is a last piece. -/
theorem exists_concat_of_cutAt (sep : Char) (cs : List Char) :
    ∃ front last, cutAt sep cs = front ++ [last] :=
  ⟨_, _, (List.dropLast_concat_getLast (cutAt_ne_nil sep cs)).symm⟩

/-- The last piece is the end of the text. -/
theorem last_suffix_of_cutAt {cs last : List Char} {front : List (List Char)}
    (h : cutAt sep cs = front ++ [last]) : last <:+ cs := by
  obtain ⟨-, ⟨-, rfl⟩ | ⟨before, -, rfl⟩⟩ := exists_of_cutAt_concat h
  · exact List.suffix_rfl
  · exact (List.suffix_cons _ _).trans (List.suffix_append _ _)

/-- The first piece is the start of the text. -/
theorem first_prefix_of_cutAt {cs first : List Char} {rest : List (List Char)}
    (h : cutAt sep cs = first :: rest) : first <+: cs := by
  by_cases hmem : sep ∈ cs
  · obtain ⟨front, back, rfl, hfront⟩ := List.eq_append_cons_of_mem hmem
    rw [cutAt_append_sep, cutAt_of_not_mem hfront] at h
    obtain rfl : front = first := (List.cons.inj h).1
    exact List.prefix_append _ _
  · rw [cutAt_of_not_mem hmem] at h
    obtain rfl : cs = first := (List.cons.inj h).1
    exact List.prefix_rfl

/-- Cutting a text loses nothing but separators. -/
theorem flatMap_filter_cutAt {p : Char → Bool} (hsep : p sep = false) (cs : List Char) :
    (cutAt sep cs).flatMap (List.filter p) = cs.filter p := by
  fun_induction cutAt sep cs with
  | case1 => rfl
  | case2 cs ih =>
    rw [List.flatMap_cons, ih, List.filter_nil, List.nil_append,
      List.filter_cons_of_neg (by simp [hsep])]
  | case3 c cs _ hcut => exact absurd hcut (cutAt_ne_nil sep cs)
  | case4 c cs _ piece pieces hcut ih =>
    rw [hcut, List.flatMap_cons] at ih
    rw [List.flatMap_cons, List.filter_cons, List.filter_cons, ← ih]
    split <;> rfl

/-- What is kept by writing texts one after the other holds of texts that are joined, if it holds of
each of them and of the separator. -/
theorem joinWith_induction {P : String → Prop} (hempty : P "")
    (happend : ∀ {a b : String}, P a → P b → P (a ++ b)) {between : String} (hbetween : P between)
    {texts : List String} (h : ∀ s ∈ texts, P s) : P (joinWith between texts) := by
  fun_induction joinWith between texts with
  | case1 => exact hempty
  | case2 s => exact h s List.mem_cons_self
  | case3 s t rest ih =>
    rw [List.forall_mem_cons] at h
    exact happend (happend h.1 hbetween) (ih h.2)

end Text

namespace Script

open Text (lines)

/-- The lines of a text, each behind a tab and before a newline. -/
def indented (cs : List Char) : List Char :=
  (lines cs).flatMap fun line => '\t' :: (line ++ ['\n'])

/-- Moving a text to the right puts in nothing but tabs and newlines. -/
theorem filter_indented {p : Char → Bool} (htab : p '\t' = false) (hnewline : p '\n' = false)
    (cs : List Char) : (indented cs).filter p = cs.filter p := by
  have hline : ∀ line : List Char, ('\t' :: (line ++ ['\n'])).filter p = line.filter p := by
    intro line
    simp [htab, hnewline]
  rw [indented, List.filter_flatMap, ← Text.flatMap_filter_cutAt hnewline cs]
  simp only [hline]
  rfl

/-- Code that does not end in a newline has the lines of its text. -/
theorem codeLines_of_getLast {code : String} {c : Char} (hlast : code.toList.getLast? = some c)
    (hc : c ≠ '\n') : codeLines code = (lines code.toList).map String.ofList := by
  obtain ⟨cs, hcs⟩ := List.getLast?_eq_some_iff.mp hlast
  obtain ⟨front, last, hfront⟩ := Text.exists_concat_of_cutAt '\n' cs
  have hend : '\n' ∉ [c] := fun hmem => hc (List.mem_singleton.mp hmem).symm
  have hlines := Text.cutAt_append hfront (Text.cutAt_of_not_mem hend)
  have hkeep : ((front ++ [last ++ [c]]).reverse.dropWhile List.isEmpty).reverse =
      front ++ [last ++ [c]] := by simp
  rw [codeLines, lines, hcs, hlines]
  split
  · rename_i only honly
    rw [honly]
    rfl
  · rw [hkeep]

/-- Code that does not end in a newline is indented line by line. -/
theorem toList_indent {code : String} {c : Char} (hlast : code.toList.getLast? = some c)
    (hc : c ≠ '\n') : (indent code).toList = indented code.toList := by
  rw [indent, codeLines_of_getLast hlast hc, String.toList_join, indented, List.map_map,
    List.flatMap_map]
  congr 1
  funext line
  simp [indentLine]

/-- A statement is its code with a semicolon, moved to the right. -/
theorem toList_statement (code : String) :
    (statement code).toList = indented (code.toList ++ [';']) := by
  have hlast : (code ++ ";").toList.getLast? = some ';' := by simp
  rw [statement, toList_indent hlast (by decide), String.toList_append]
  rfl

end Script

end LispScript
