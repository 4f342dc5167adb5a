import LispScript.Proofs.Layout
import LispScript.Proofs.Rendered

/-!
# Cutting a script back into its pieces

The pieces of a script, one for each form of the program, stand with a blank line between
neighbours. Code has no blank line of its own: every line but its first stands behind a tab or
begins with a brace. So cutting the script at its blank lines gives the pieces back.
-/

namespace LispScript

open Script (IsCode Layout)
open Text (lines)

/-! ## Blank lines -/

namespace Text

/-- The pieces between the blank lines of a text, which is cut from left to right wherever two
newlines stand in a row. -/
def cutAtBlankLines : List Char → List (List Char)
  | '\n' :: '\n' :: cs => [] :: cutAtBlankLines cs
  | c :: cs =>
    match cutAtBlankLines cs with
    | [] => [[c]]
    | piece :: pieces => (c :: piece) :: pieces
  | [] => [[]]

/-- A character that does not start a blank line belongs to the first piece. -/
theorem cutAtBlankLines_cons {c : Char} {cs piece : List Char} {pieces : List (List Char)}
    (hcs : cutAtBlankLines cs = piece :: pieces) (h : c = '\n' → cs.head? ≠ some '\n') :
    cutAtBlankLines (c :: cs) = (c :: piece) :: pieces := by
  rw [cutAtBlankLines, hcs]
  rintro rest rfl rfl
  exact h rfl rfl

/-- A text whose further lines are not blank is one piece, up to where the next one is cut off. -/
theorem cutAtBlankLines_append {cs rest : List Char} {pieces : List (List Char)}
    (hlines : ∀ line ∈ (lines cs).tail, line ≠ []) (hrest : cutAtBlankLines rest = [] :: pieces) :
    cutAtBlankLines (cs ++ rest) = cs :: pieces := by
  induction cs with
  | nil => exact hrest
  | cons c cs ih =>
    by_cases hc : c = '\n'
    · -- the next line is not blank, so it is there and does not begin with a newline
      subst hc
      have hall : ∀ line ∈ lines cs, line ≠ [] := by simpa [lines, cutAt] using hlines
      cases cs with
      | nil => exact absurd rfl (hall [] (by simp [lines, cutAt]))
      | cons d cs =>
        have hd : d ≠ '\n' := by
          rintro rfl
          exact hall [] (by simp [lines, cutAt]) rfl
        have hnext := ih fun line hline => hall line (List.mem_of_mem_tail hline)
        exact cutAtBlankLines_cons hnext fun _ => by simpa using hd
    · refine cutAtBlankLines_cons (ih fun line hline => hlines line ?_) fun h => absurd h hc
      obtain ⟨first, more, hmore⟩ := List.exists_cons_of_ne_nil (cutAt_ne_nil '\n' cs)
      have hcons : lines (c :: cs) = (c :: first) :: more := by simp [lines, cutAt, hc, hmore]
      rw [lines, hmore] at hline
      rwa [hcons]

/-- Texts without blank lines are found again behind the blank lines between them. -/
theorem cutAtBlankLines_joinWith {texts : List String} (hne : texts ≠ [])
    (hlines : ∀ s ∈ texts, ∀ line ∈ (lines s.toList).tail, line ≠ []) :
    cutAtBlankLines (joinWith "\n\n" texts).toList = texts.map String.toList := by
  fun_induction joinWith "\n\n" texts with
  | case1 => exact absurd rfl hne
  | case2 s =>
    have hend : cutAtBlankLines [] = [[]] := rfl
    simpa using cutAtBlankLines_append (hlines s List.mem_cons_self) hend
  | case3 s t rest ih =>
    rw [List.forall_mem_cons] at hlines
    have hrest : cutAtBlankLines ('\n' :: '\n' :: (joinWith "\n\n" (t :: rest)).toList) =
        [] :: (t :: rest).map String.toList := by
      rw [cutAtBlankLines, ih (List.cons_ne_nil t rest) hlines.2]
    simpa using cutAtBlankLines_append hlines.1 hrest

end Text

/-! ## Pieces -/

/-- Behind its first line code has no empty lines. -/
theorem Script.Layout.tail_ne_nil {all : List (List Char)} (h : Layout all) :
    ∀ line ∈ all.tail, line ≠ [] := by
  cases h with
  | single line => simp
  | spread h =>
    rw [List.tail_cons, List.forall_mem_append, List.forall_mem_singleton]
    refine ⟨h.filled, ?_⟩
    rintro rfl
    cases h.closes

/-- Cut at its blank lines, a program falls apart into its pieces, each with its semicolon. -/
theorem cutAtBlankLines_program {allowed : List Char → Prop} {pieces : List Piece}
    (hne : pieces ≠ []) (hcode : ∀ piece ∈ pieces, IsCode allowed piece.text) :
    Text.cutAtBlankLines (Compilation.program pieces).text.toList =
      pieces.map fun piece => (piece.text ++ ";").toList := by
  have hlines : ∀ s ∈ pieces.map fun piece => piece.text ++ ";",
      ∀ line ∈ (lines s.toList).tail, line ≠ [] := by
    intro s hs
    obtain ⟨piece, hpiece, rfl⟩ := List.mem_map.mp hs
    exact (hcode piece hpiece).ended.layout.tail_ne_nil
  rw [Compilation.text, Text.cutAtBlankLines_joinWith (by simpa using hne) hlines, List.map_map]
  rfl

/-- The piece of a form comes out as the forms before it leave the session. -/
theorem compileForms_getElem? (limits : Limits) (fs : List Form) (table : MacroTable) (i : Nat) :
    (compileForms limits fs table).1[i]? =
      fs[i]?.map fun f => (compileForm limits f (compileForms limits (fs.take i) table).2).1 := by
  induction fs generalizing table i with
  | nil => rfl
  | cons f fs ih =>
    cases i with
    | zero => rfl
    | succ i =>
      rw [compileForms_cons, List.take_succ_cons, compileForms_cons]
      simpa using ih (compileForm limits f table).2 i

/-- In a session that has compiled some sources, the script of a program is cut at its blank lines
into one piece for each form, and each piece is the fragment of its form and a semicolon. -/
theorem cutAtBlankLines_compile {limits : Limits} (builtin : Bool) (earlier : List String)
    {source : String} {forms : List Form} (hparse : parse limits source = .ok forms)
    (hne : forms ≠ []) :
    let table := Session.compiled limits builtin earlier
    let pieces := Text.cutAtBlankLines (compile limits source table).1.text.toList
    pieces.length = forms.length ∧ ∀ i f, forms[i]? = some f →
      pieces[i]? = some ((compileForm limits f
        (compileForms limits (forms.take i) table).2).1.text ++ ";").toList := by
  intro table pieces
  have hcode := isCode_of_compiled builtin earlier hparse
  have hlength := length_compileForms limits forms table
  have hsome : (compileForms limits forms table).1 ≠ [] := by
    rwa [← List.length_pos_iff, hlength, List.length_pos_iff]
  have hpieces : pieces =
      (compileForms limits forms table).1.map fun piece => (piece.text ++ ";").toList := by
    have hprogram : (compile limits source table).1 =
        .program (compileForms limits forms table).1 := by rw [compile_of_parse hparse]
    rw [← cutAtBlankLines_program hsome hcode, ← hprogram]
  refine ⟨by rw [hpieces, List.length_map, hlength], fun i f hf => ?_⟩
  rw [hpieces, List.getElem?_map, compileForms_getElem?, hf]
  rfl

/-- A macro with a block of its own, a map with an odd number of items and a macro that leads back
to itself. -/
theorem cutAtBlankLines_compile_mixed :
    let table := Session.compiled .usual true
      ["(defmacro twice [] (do (a) (b)))", "(defmacro m [] (m))"]
    let source := "(twice)\n\n\x7b1\x7d\n(m)"
    let forms := [Form.list [.word "twice"], .map [.number "1"], .list [.word "m"]]
    let pieces := Text.cutAtBlankLines (compile .usual source table).1.text.toList
    parse .usual source = .ok forms ∧ pieces.length = 3 ∧
      pieces[0]? = some "function() : Object \x7b/*do*/\n\ta();\n\treturn b();\n\x7d();".toList ∧
      pieces[2]? = some " /* Recursive expansion of macro m */ ;".toList := by
  intro table source forms pieces
  have hparse : parse .usual source = .ok forms := by decide +kernel
  obtain ⟨hlength, hpieces⟩ := cutAtBlankLines_compile true
    ["(defmacro twice [] (do (a) (b)))", "(defmacro m [] (m))"] hparse (by decide)
  refine ⟨hparse, hlength, ?_, ?_⟩
  · rw [hpieces 0 _ rfl]
    decide +kernel
  · rw [hpieces 2 _ rfl]
    decide +kernel

end LispScript
