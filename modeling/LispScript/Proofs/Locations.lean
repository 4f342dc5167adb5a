import LispScript.Proofs.Lines
import LispScript.Proofs.Splitting

/-!
# Places and offsets

A place tells an offset of a text by the number of its line and the column on that line. Nothing is
lost by this: the line that a place shows is the line of that number, the column lies on it or just
behind it, and the two numbers give the offset back.
-/

namespace LispScript

/-- The offset at which a line starts: the lines before it have a newline each. -/
def lineStart (source : List Char) (line : Nat) : Nat :=
  (((Text.lines source).take (line - 1)).map (·.length + 1)).sum

/-- The place tells the offset `pos` of a text. -/
structure Location.Tells (place : Location) (source : List Char) (pos : Nat) : Prop where
  line_pos : 1 ≤ place.line
  line_eq : (Text.lines source)[place.line - 1]? = some place.context.toList
  column_pos : 1 ≤ place.column
  column_le : place.column ≤ place.context.length + 1
  offset_eq : lineStart source place.line + (place.column - 1) = pos

namespace Location

/-- On the first line the column counts from the start of the text. -/
theorem ofOffset_of_le {line : List Char} {pos : Nat} (hline : '\n' ∉ line)
    (hpos : pos ≤ line.length) (more : List Char) (hmore : more.head? ∈ [none, some '\n']) :
    ofOffset (line ++ more) pos = ⟨1, pos + 1, String.ofList line⟩ := by
  have hall : ∀ {cs : List Char}, cs ⊆ line → ∀ c ∈ cs, (c != '\n') = true := by
    intro cs hcs c hc
    rw [bne_iff_ne]
    rintro rfl
    exact hline (hcs hc)
  have htake : (line ++ more).take pos = line.take pos := List.take_append_of_le_length hpos
  have hdrop : (line ++ more).drop pos = line.drop pos ++ more := List.drop_append_of_le_length hpos
  have hstart : (line.take pos).reverse.takeWhile (· != '\n') = (line.take pos).reverse := by
    apply List.takeWhile_eq_self_iff.mpr
    intro c hc
    exact hall (List.take_subset pos line) c (List.mem_reverse.mp hc)
  have hrest : (line.drop pos ++ more).takeWhile (· != '\n') = line.drop pos := by
    rw [List.takeWhile_append_of_pos (hall (List.drop_subset pos line))]
    have hstop : more.takeWhile (· != '\n') = [] := by
      cases more with
      | nil => rfl
      | cons c more =>
        obtain rfl : c = '\n' := by simpa using hmore
        rfl
    rw [hstop, List.append_nil]
  have hcount : (line.take pos).count '\n' = 0 :=
    List.count_eq_zero.mpr fun hmem => hline (List.take_subset pos line hmem)
  simp only [ofOffset, htake, hdrop, hstart, hrest, hcount, List.reverse_reverse,
    List.take_append_drop, List.length_take, Nat.min_eq_left hpos, Nat.zero_add]

/-- A newline ends the first line. -/
theorem lines_append_newline {line : List Char} (hline : '\n' ∉ line) (more : List Char) :
    Text.lines (line ++ '\n' :: more) = line :: Text.lines more := by
  rw [Text.lines, Text.cutAt_append_sep, Text.cutAt_of_not_mem hline]
  rfl

/-- A place on a first line tells the offset on that line. -/
theorem tells_first {source line : List Char} {rest : List (List Char)} {pos : Nat}
    (hlines : Text.lines source = line :: rest) (hpos : pos ≤ line.length) :
    Tells ⟨1, pos + 1, String.ofList line⟩ source pos where
  line_pos := Nat.le_refl 1
  line_eq := by simp [hlines]
  column_pos := Nat.succ_le_succ (Nat.zero_le pos)
  column_le := by simpa using hpos
  offset_eq := by simp [lineStart]

/-- Below one more line, a place tells an offset that is larger by the length of that line. -/
theorem Tells.below {place : Location} {line more : List Char} {pos : Nat}
    (h : place.Tells more pos) (hline : '\n' ∉ line) :
    (place.below 1).Tells (line ++ '\n' :: more) (pos + (line.length + 1)) := by
  obtain ⟨number, column, context⟩ := place
  obtain ⟨n, rfl⟩ : ∃ n, number = n + 1 := Nat.exists_eq_add_of_le' h.line_pos
  have hlines := lines_append_newline hline more
  refine ⟨Nat.le_add_left 1 (n + 1), ?_, h.column_pos, h.column_le, ?_⟩
  · rw [hlines]
    exact h.line_eq
  · have hoffset := h.offset_eq
    simp only [lineStart, Nat.add_sub_cancel] at hoffset
    simp only [Location.below, lineStart, hlines, Nat.add_sub_cancel, List.take_succ_cons,
      List.map_cons, List.sum_cons]
    omega

/-- The place of an offset tells that offset. -/
theorem tells_ofOffset {source : List Char} {pos : Nat} (h : pos ≤ source.length) :
    (ofOffset source pos).Tells source pos := by
  by_cases hnewline : '\n' ∈ source
  · obtain ⟨line, more, rfl, hline⟩ := List.eq_append_cons_of_mem hnewline
    by_cases hpos : pos ≤ line.length
    · rw [ofOffset_of_le hline hpos _ (by simp)]
      exact tells_first (lines_append_newline hline more) hpos
    · obtain ⟨rest, rfl⟩ : ∃ n, pos = n + (line.length + 1) := ⟨pos - (line.length + 1), by omega⟩
      have hrest : rest ≤ more.length := by
        simp only [List.length_append, List.length_cons] at h
        omega
      have hend : (line ++ ['\n']).getLast? = some '\n' := List.getLast?_concat
      have hplace : ofOffset (line ++ '\n' :: more) (rest + (line.length + 1)) =
          (ofOffset more rest).below 1 := by
        simpa [List.count_eq_zero.mpr hline] using ofOffset_append_of_newline more rest hend
      rw [hplace]
      exact (tells_ofOffset hrest).below hline
  · have hplace := ofOffset_of_le hnewline h [] (by simp)
    rw [List.append_nil] at hplace
    rw [hplace]
    exact tells_first (Text.cutAt_of_not_mem hnewline) h
termination_by source.length

end Location

end LispScript
