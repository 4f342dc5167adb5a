import LispScript.Proofs.Rendered

/-!
# Brackets of a script

Code stands in brackets that match, and a remark quotes forms whose brackets match. Moving code to
the right adds tabs and newlines only. So in every script each bracket is closed by its own kind,
and those opened last are closed first. Brackets in strings and remarks need no exception: strings
have none, and those of a remark match among themselves.
-/

namespace LispScript

open Script (Code IsCode Matched Tidy isBracketChar)

/-- The brackets of a text match, all other characters left out. -/
def WellBracketed (s : String) : Prop :=
  Matched (s.toList.filter isBracketChar)

/-- Brackets match in two texts one after the other if they match in each. -/
theorem WellBracketed.append {a b : String} (ha : WellBracketed a) (hb : WellBracketed b) :
    WellBracketed (a ++ b) := by
  rw [WellBracketed, String.toList_append, List.filter_append]
  exact Matched.append ha hb

/-- The brackets of code match. -/
theorem Script.Code.matched {allowed : List Char → Prop} {cs : List Char} (h : Code allowed cs) :
    Matched (cs.filter isBracketChar) := by
  induction h with
  | plain h => exact .of_all (by decide) h
  | @operator symbol h =>
    have hsymbol := (Tidy.of_isOperator h).matched
    simpa [isBracketChar] using hsymbol
  | @quoted cs h =>
    have hcs : Matched (cs.filter isBracketChar) := .of_all (by decide) h
    simpa [isBracketChar] using hcs
  | @remark cs h =>
    have hcs := h.tidy.matched
    simpa [isBracketChar] using hcs
  | append _ _ ihcs ihds =>
    rw [List.filter_append]
    exact ihcs.append ihds
  | enclosed b _ ih => exact ih.around b
  | @block label codes hlabel _ _ ih =>
    have hlabels : ∀ label ∈ blockLabels, label.filter isBracketChar = [] := by decide
    have hinner : Matched ((label ++ '\n' :: codes.flatMap indented).filter isBracketChar) := by
      rw [List.filter_append, hlabels label hlabel, List.nil_append,
        List.filter_cons_of_neg (by decide), List.filter_flatMap]
      simp only [filter_indented (p := isBracketChar) (by decide) (by decide)]
      exact .flatMap ih
    simpa [Bracket.opening, Bracket.closing] using hinner.around .curly

/-- The brackets of script text match. -/
theorem Script.IsCode.wellBracketed {allowed : List Char → Prop} {s : String}
    (h : IsCode allowed s) : WellBracketed s :=
  Code.matched h

/-- The brackets of a program match if each of its pieces is script text. -/
theorem wellBracketed_program {allowed : List Char → Prop} {pieces : List Piece}
    (hcode : ∀ piece ∈ pieces, IsCode allowed piece.text) :
    WellBracketed (Compilation.program pieces).text := by
  refine Text.joinWith_induction .nil WellBracketed.append .nil fun s hs => ?_
  obtain ⟨piece, hpiece, rfl⟩ := List.mem_map.mp hs
  exact (hcode piece hpiece).ended.wellBracketed

/-- In a session that has compiled some sources, the brackets of the script of a program match, and
so do those of the fragment of each of its forms. -/
theorem wellBracketed_compile {limits : Limits} (builtin : Bool) (earlier : List String)
    {source : String} {forms : List Form} (hparse : parse limits source = .ok forms) :
    let table := Session.compiled limits builtin earlier
    WellBracketed (compile limits source table).1.text ∧ ∃ pieces,
      (compile limits source table).1 = .program pieces ∧ pieces.length = forms.length ∧
        ∀ piece ∈ pieces, WellBracketed piece.text := by
  intro table
  have hcode := isCode_of_compiled builtin earlier hparse
  have hprogram : (compile limits source table).1 =
      .program (compileForms limits forms table).1 := by rw [compile_of_parse hparse]
  refine ⟨?_, _, hprogram, length_compileForms limits forms table, fun piece hpiece => ?_⟩
  · rw [hprogram]
    exact wellBracketed_program hcode
  · exact (hcode piece hpiece).wellBracketed

/-- A macro that stands for a map, and a map with an odd number of items, which is quoted. -/
theorem wellBracketed_compile_quoted :
    let table := Session.compiled .usual true ["(defmacro m [] \x7b(f) [1]\x7d)"]
    let source := "(do (m) \x7b[1 (g)]\x7d)"
    let forms := [Form.list [.word "do", .list [.word "m"],
      .map [.vector [.number "1", .list [.word "g"]]]]]
    let script := (compile .usual source table).1.text
    parse .usual source = .ok forms ∧ WellBracketed script ∧
      script = "function() : Object \x7b/*do*/\n\t\x7bf(): [1]\x7d;\n\treturn  " ++
        "/* Map literal needs an even number of forms, got 1: \x7b[1 (g)]\x7d */ ;\n\x7d();" := by
  intro table source forms script
  have hparse : parse .usual source = .ok forms := by decide +kernel
  exact ⟨hparse, (wellBracketed_compile true _ hparse).1, by decide +kernel⟩

end LispScript
