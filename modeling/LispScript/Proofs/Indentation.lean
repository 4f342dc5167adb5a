import LispScript.Proofs.Layout
import LispScript.Proofs.Rendered

/-!
# Indentation shows the blocks

The lines of a script stand as deep as the blocks around them: behind as many tabs as blocks were
opened on the lines before and have not been closed since, where a line that closes a block stands
outside of it already. Blank lines between the pieces of a script stand outside of all blocks.
-/

namespace LispScript

open Script (IsCode Leads tabs opensBlock closesBlock)
open Text (lines)

namespace Script

/-- The depth of a line is told by the lines before it. -/
theorem Leads.tabs_eq {d e : Nat} {all : List (List Char)} (h : Leads d all e) {i : Nat}
    {line : List Char} (hline : all[i]? = some line) :
    (tabs line : ℤ) = d + (all.take i).countP opensBlock -
      (all.take (i + 1)).countP closesBlock := by
  induction h generalizing i with
  | nil => simp at hline
  | @cons d e first rest depth next ih =>
    have hcount (p : List Char → Bool) (n : Nat) :
        ((first :: rest).take (n + 1)).countP p = (rest.take n).countP p + (p first).toNat := by
      cases hp : p first <;> simp [hp]
    cases i with
    | zero =>
      obtain rfl : first = line := by simpa using hline
      have hclosed := hcount closesBlock 0
      simp only [List.take_zero, List.countP_nil, Nat.zero_add] at hclosed ⊢
      omega
    | succ i =>
      have hnext := ih (i := i) (by simpa using hline)
      have hopened := hcount opensBlock i
      have hclosed := hcount closesBlock (i + 1)
      omega

/-- Statements with blank lines between them start and end outside of all blocks. -/
theorem leads_joinWith {texts : List String} (h : ∀ s ∈ texts, Leads 0 (lines s.toList) 0) :
    Leads 0 (lines (Text.joinWith "\n\n" texts).toList) 0 := by
  have hblank : Leads 0 [[]] 0 := .cons rfl (.nil 0)
  fun_induction Text.joinWith "\n\n" texts with
  | case1 => exact hblank
  | case2 s => exact h s List.mem_cons_self
  | case3 s t rest ih =>
    rw [List.forall_mem_cons] at h
    have htext : (s ++ "\n\n" ++ Text.joinWith "\n\n" (t :: rest)).toList =
        s.toList ++ '\n' :: ([] ++ '\n' :: (Text.joinWith "\n\n" (t :: rest)).toList) := by simp
    rw [htext, lines, Text.cutAt_append_sep, Text.cutAt_append_sep]
    exact h.1.append (hblank.append (ih h.2))

end Script

/-- A script whose pieces are code starts and ends outside of all blocks. -/
theorem leads_program {allowed : List Char → Prop} {pieces : List Piece}
    (hcode : ∀ piece ∈ pieces, IsCode allowed piece.text) :
    Leads 0 (lines (Compilation.program pieces).text.toList) 0 := by
  refine Script.leads_joinWith fun s hs => ?_
  obtain ⟨piece, hpiece, rfl⟩ := List.mem_map.mp hs
  have hstatement := (hcode piece hpiece).ended
  exact hstatement.leads hstatement.layout (Or.inl (by simp))

/-- In a session that has compiled some sources, every line of the script of a program has as many
tabs as there are blocks opened on the lines before it, less the blocks closed on these and on the
line itself. -/
theorem tabs_compile {limits : Limits} (builtin : Bool) (earlier : List String)
    {source : String} {forms : List Form} (hparse : parse limits source = .ok forms) :
    let table := Session.compiled limits builtin earlier
    let script := lines (compile limits source table).1.text.toList
    ∀ i line, script[i]? = some line →
      (tabs line : ℤ) =
        (script.take i).countP opensBlock - (script.take (i + 1)).countP closesBlock := by
  intro table script i line hline
  have hprogram : (compile limits source table).1 =
      .program (compileForms limits forms table).1 := by rw [compile_of_parse hparse]
  have hscript : Leads 0 script 0 := by
    have hleads := leads_program (isCode_of_compiled builtin earlier hparse)
    rwa [← hprogram] at hleads
  have htabs := hscript.tabs_eq hline
  omega

/-- A branch, with a block from a macro in its first half and nothing in its second: above the line
between the halves three blocks are opened, and two are closed up to it. -/
theorem tabs_compile_branch :
    let source := "(do-if a (unit))\n(b)"
    let table := Session.compiled .usual true ["(defmacro unit [] (do 1))"]
    let forms := [Form.list [.word "do-if", .word "a", .list [.word "unit"]], .list [.word "b"]]
    let script := lines (compile .usual source table).1.text.toList
    let line := "\t\x7d else \x7b".toList
    parse .usual source = .ok forms ∧ script[5]? = some line ∧ tabs line = 1 ∧
      (tabs line : ℤ) = (script.take 5).countP opensBlock - (script.take 6).countP closesBlock := by
  intro source table forms script line
  have hparse : parse .usual source = .ok forms := by decide +kernel
  have hline : script[5]? = some line := by decide +kernel
  exact ⟨hparse, hline, by decide, tabs_compile true _ hparse 5 line hline⟩

end LispScript
